import Esp8266.Lib.ByteMemory
import Esp8266.Lib.Word32

/-!
# umm_malloc

cores/esp8266/umm_malloc/umm_malloc.cpp, umm_integrity.c and umm_info.c, in the configuration of
umm_malloc_cfg.h: best fit, `UMM_INFO`, `UMM_STATS`, `UMM_LIGHTWEIGHT_CPU` and
`UMM_REALLOC_DEFRAG`. Addresses count from `umm_heap` on, and a null pointer is `none`. The debug
output is left out.
-/
set_option autoImplicit false

namespace Esp8266.Source.UmmMalloc
open Esp8266.Lib.ByteMemory Esp8266.Lib.Word32

/-! ## Blocks -/

/-- The words of a block: two in its header and, while it is free, two in its body. -/
inductive Field where
  | nblock | pblock | nfree | pfree
  deriving DecidableEq, Repr

def Field.offset : Field → Nat
  | .nblock => 0
  | .pblock => 2
  | .nfree => 4
  | .pfree => 6

/-- A word of block `b`. -/
def field (f : Field) (m : Ram) (b : Nat) : Nat := half m (8 * b + f.offset)

def setField (f : Field) (b value : Nat) (m : Ram) : Ram :=
  setHalf (8 * b + f.offset) value m

/-- `UMM_NBLOCK`, `UMM_PBLOCK`, `UMM_NFREE` and `UMM_PFREE`. -/
abbrev nblock : Ram → Nat → Nat := field .nblock
abbrev pblock : Ram → Nat → Nat := field .pblock
abbrev nfree : Ram → Nat → Nat := field .nfree
abbrev pfree : Ram → Nat → Nat := field .pfree

/-- `UMM_DATA`. -/
def data (b : Nat) : Nat := 8 * b + 4

/-- The block of a pointer, by a truncated division. -/
def blockOf (ptr : Nat) : Nat := ptr / 8 % 2 ^ 16

def freelistMask : Nat := 0x8000
def blocknoMask : Nat := 0x7fff

/-- The difference of two `uint16_t`, as a `uint16_t`. -/
def sub16 (a b : Nat) : Nat := (a + 2 ^ 16 - b) % 2 ^ 16

/-- The mark of a free block. -/
def marked (m : Ram) (b : Nat) : Bool := nblock m b &&& freelistMask ≠ 0

/-- Where the next block begins. -/
def following (m : Ram) (b : Nat) : Nat := nblock m b &&& blocknoMask

/-- umm_malloc.cpp:142. The number is returned as a `uint16_t`. -/
def ummBlocks (size : Nat) : Nat := if size ≤ 4 then 1 else (2 + (size - 5) / 8) % 2 ^ 16

/-- umm_malloc.cpp:175. -/
def splitBlock (c blocks newFreemask : Nat) (m : Ram) : Ram :=
  let m := setField .nblock (c + blocks) (following m c ||| newFreemask) m
  let m := setField .pblock (c + blocks) c m
  let m := setField .pblock (following m c) (c + blocks) m
  setField .nblock c (c + blocks) m

/-- umm_malloc.cpp:188. -/
def disconnectFromFreeList (c : Nat) (m : Ram) : Ram :=
  let m := setField .nfree (pfree m c) (nfree m c) m
  let m := setField .pfree (nfree m c) (pfree m c) m
  setField .nblock c (nblock m c &&& blocknoMask) m

/-- umm_malloc.cpp:205. -/
def assimilateUp (c : Nat) (m : Ram) : Ram :=
  if marked m (nblock m c) then
    let m := disconnectFromFreeList (nblock m c) m
    let m := setField .pblock (following m (nblock m c)) c m
    setField .nblock c (following m (nblock m c)) m
  else m

/-- umm_malloc.cpp:235. -/
def assimilateDown (c freemask : Nat) (m : Ram) : Nat × Ram :=
  let m := setField .nblock (pblock m c) (nblock m c ||| freemask) m
  let m := setField .pblock (nblock m c) (pblock m c) m
  (pblock m c, m)

/-! ## The heap -/

/-- The heap and its statistics; `umm_heap` is null until the first call. -/
structure Heap where
  memory : Ram
  ready : Bool
  numblocks : Nat
  freeBlocks : Nat
  oomCount : Nat

/-- `UMM_MALLOC_CFG_HEAP_SIZE`: what the linker leaves of the 80 KiB of data memory, which is less
than fits into the 15 bits of a block number. -/
structure HeapSpace where
  size : Nat
  room : 24 ≤ size
  small : size < 2 ^ 18

/-- umm_malloc.cpp:260. -/
def ummInit (space : HeapSpace) (h : Heap) : Heap :=
  let numblocks := space.size / 8
  let m := fill 0 space.size 0 h.memory
  let m := setField .nblock 0 1 m
  let m := setField .nfree 0 1 m
  let m := setField .pfree 0 1 m
  let m := setField .nblock 1 ((numblocks - 1) ||| freelistMask) m
  let m := setField .pblock (numblocks - 1) 1 m
  { memory := m, ready := true, numblocks, freeBlocks := numblocks - 2, oomCount := h.oomCount }

/-- `if (umm_heap == NULL) umm_init();`. -/
def ensure (space : HeapSpace) (h : Heap) : Heap := if h.ready then h else ummInit space h

/-- Block `c` becomes the head of the free list (umm_malloc.cpp:357-371). -/
def pushFree (c : Nat) (m : Ram) : Ram :=
  let m := setField .pfree (nfree m 0) c m
  let m := setField .nfree c (nfree m 0) m
  let m := setField .pfree c 0 m
  let m := setField .nfree 0 c m
  setField .nblock c (nblock m c ||| freelistMask) m

/-- umm_malloc.cpp:322, for the block of the pointer. -/
def freeCore (ptr : Nat) (h : Heap) : Heap :=
  let c := blockOf ptr
  let freeBlocks := add32 h.freeBlocks (sub32 (nblock h.memory c) c)
  let m := assimilateUp c h.memory
  let m :=
    if marked m (pblock m c) then (assimilateDown c freelistMask m).2
    else pushFree c m
  { h with memory := m, freeBlocks }

/-- umm_malloc.cpp:376. -/
def ummFree (space : HeapSpace) (ptr : Option Nat) (h : Heap) : Heap :=
  let h := ensure space h
  match ptr with
  | none => h
  | some ptr => freeCore ptr h

/-- The variables of the search for a free block. -/
structure Scan where
  cf : Nat
  blockSize : Nat
  bestBlock : Nat
  bestSize : Nat

/-- The search (umm_malloc.cpp:427-451); the list has no more blocks than the heap. -/
def scanFreeList (m : Ram) (blocks : Nat) : Nat → Scan → Scan
  | 0, s => s
  | fuel + 1, s =>
    if s.cf = 0 then s
    else
      let blockSize := sub16 (following m s.cf) s.cf
      let s :=
        if blocks ≤ blockSize ∧ blockSize < s.bestSize then
          { s with bestBlock := s.cf, bestSize := blockSize }
        else s
      scanFreeList m blocks fuel { s with cf := nfree m s.cf, blockSize }

/-- The front of a free block is taken, and the rest stays in the free list in its place
(umm_malloc.cpp:483-505). -/
def takeFront (cf blocks : Nat) (m : Ram) : Ram :=
  let m := splitBlock cf blocks freelistMask m
  let m := setField .nfree (pfree m cf) (cf + blocks) m
  let m := setField .pfree (cf + blocks) (pfree m cf) m
  let m := setField .pfree (nfree m cf) (cf + blocks) m
  setField .nfree (cf + blocks) (nfree m cf) m

/-- umm_malloc.cpp:406. -/
def mallocCore (size : Nat) (h : Heap) : Option Nat × Heap :=
  let m := h.memory
  let blocks := ummBlocks size
  let s := scanFreeList m blocks h.numblocks ⟨nfree m 0, 0, nfree m 0, 0x7fff⟩
  let (cf, blockSize) :=
    if s.bestSize ≠ 0x7fff then (s.bestBlock, s.bestSize) else (s.cf, s.blockSize)
  if following m cf ≠ 0 ∧ blocks ≤ blockSize then
    let m := if blockSize = blocks then disconnectFromFreeList cf m else takeFront cf blocks m
    (some (data cf), { h with memory := m, freeBlocks := sub32 h.freeBlocks blocks })
  else (none, { h with oomCount := add32 h.oomCount 1 })

/-- umm_malloc.cpp:523. -/
def ummMalloc (space : HeapSpace) (size : Nat) (h : Heap) : Option Nat × Heap :=
  let h := ensure space h
  if size = 0 then (none, h) else mallocCore size h

/-- umm_malloc.cpp:899. -/
def ummCalloc (space : HeapSpace) (num itemSize : Nat) (h : Heap) : Option Nat × Heap :=
  let size := itemSize * num % 2 ^ 32
  match ummMalloc space size h with
  | (none, h) => (none, h)
  | (some ret, h) => (some ret, { h with memory := fill ret size 0 h.memory })

/-! ## realloc -/

/-- What `umm_realloc` still has to do where it leaves the critical section for a copy: to copy
`curSize` bytes from `ptr` to `target`, then to free `ptr` when a new block was allocated, and to
cut the block `c` of `blockSize` down to `blocks`. -/
structure Copying where
  target : Nat
  ptr : Nat
  curSize : Nat
  fresh : Bool
  c : Nat
  blockSize : Nat
  blocks : Nat

inductive Reallocation where
  | done (ptr : Option Nat)
  | copying (rest : Copying)

/-- The end of `umm_realloc`: what is too much is split off and freed. -/
def trim (c blockSize blocks : Nat) (h : Heap) : Heap :=
  if blocks < blockSize then
    freeCore (data (c + blocks)) { h with memory := splitBlock c blocks 0 h.memory }
  else h

/-- The first branch of `UMM_REALLOC_DEFRAG`: the previous block is free, and with it and perhaps
with the next block there is room enough. -/
def reallocDown (c ptr curSize blocks blockSize prevBlockSize nextBlockSize : Nat) (h : Heap) :
    Reallocation × Heap :=
  let m := disconnectFromFreeList (pblock h.memory c) h.memory
  let (c, m) := assimilateDown c 0 m
  let h := { h with memory := m, freeBlocks := sub32 h.freeBlocks prevBlockSize }
  let blockSize := (blockSize + prevBlockSize) % 2 ^ 16
  if blocks ≤ blockSize then
    (.copying ⟨data c, ptr, curSize, false, c, blockSize, blocks⟩, h)
  else
    let h := { h with
      memory := assimilateUp c h.memory
      freeBlocks := sub32 h.freeBlocks nextBlockSize }
    let blockSize := (blockSize + nextBlockSize) % 2 ^ 16
    let h := trim c blockSize blocks h
    (.copying ⟨data c, ptr, curSize, false, c, blocks, blocks⟩, h)

/-- umm_malloc.cpp:559 for a pointer and a size that are not null, up to the copy or to the end. -/
def reallocBegin (ptr size : Nat) (h : Heap) : Reallocation × Heap :=
  let m := h.memory
  let blocks := ummBlocks size
  let c := blockOf ptr
  let blockSize := sub16 (nblock m c) c
  let curSize := sub32 (blockSize * 8) 4
  let nextBlockSize :=
    if marked m (nblock m c) then sub16 (following m (nblock m c)) (nblock m c) else 0
  let prevBlockSize := if marked m (pblock m c) then sub16 c (pblock m c) else 0
  if prevBlockSize ≠ 0 ∧ blocks ≤ prevBlockSize + blockSize + nextBlockSize then
    reallocDown c ptr curSize blocks blockSize prevBlockSize nextBlockSize h
  else if blocks ≤ blockSize then (.done (some ptr), trim c blockSize blocks h)
  else if blocks ≤ blockSize + nextBlockSize then
    let h := { h with
      memory := assimilateUp c m
      freeBlocks := sub32 h.freeBlocks nextBlockSize }
    (.done (some ptr), trim c ((blockSize + nextBlockSize) % 2 ^ 16) blocks h)
  else
    match mallocCore size h with
    | (some target, h) => (.copying ⟨target, ptr, curSize, true, c, blocks, blocks⟩, h)
    | (none, h) => (.done none, { h with oomCount := add32 h.oomCount 1 })

/-- The copy, and `umm_realloc` from there on. -/
def reallocEnd (rest : Copying) (h : Heap) : Option Nat × Heap :=
  let h := { h with memory := move rest.target rest.ptr rest.curSize h.memory }
  let h := if rest.fresh then freeCore rest.ptr h else h
  (some rest.target, trim rest.c rest.blockSize rest.blocks h)

/-- umm_malloc.cpp:559, up to the copy or to the end. -/
def ummReallocBegin (space : HeapSpace) (ptr : Option Nat) (size : Nat) (h : Heap) :
    Reallocation × Heap :=
  let h := ensure space h
  match ptr with
  | none => let (ptr, h) := ummMalloc space size h; (.done ptr, h)
  | some ptr =>
    if size = 0 then (.done none, ummFree space (some ptr) h) else reallocBegin ptr size h

/-- `umm_realloc` where no interrupt comes in between. -/
def ummRealloc (space : HeapSpace) (ptr : Option Nat) (size : Nat) (h : Heap) :
    Option Nat × Heap :=
  match ummReallocBegin space ptr size h with
  | (.done ptr, h) => (ptr, h)
  | (.copying rest, h) => reallocEnd rest h

/-! ## umm_integrity_check -/

/-- `UMM_HEAP_INFO`. -/
structure HeapInfo where
  totalEntries : Nat
  usedEntries : Nat
  freeEntries : Nat
  totalBlocks : Nat
  usedBlocks : Nat
  freeBlocks : Nat
  freeBlocksSquared : Nat
  maxFreeContiguousBlocks : Nat
  deriving DecidableEq, Repr

/-- One entry of the walk of `umm_info`. -/
def HeapInfo.count (curBlocks : Nat) (free : Bool) (info : HeapInfo) : HeapInfo :=
  let info := { info with
    totalEntries := add32 info.totalEntries 1
    totalBlocks := add32 info.totalBlocks curBlocks }
  if free then
    { info with
      freeEntries := add32 info.freeEntries 1
      freeBlocks := add32 info.freeBlocks curBlocks
      freeBlocksSquared := add32 info.freeBlocksSquared (curBlocks * curBlocks % 2 ^ 32)
      maxFreeContiguousBlocks :=
        if info.maxFreeContiguousBlocks < curBlocks then curBlocks
        else info.maxFreeContiguousBlocks }
  else
    { info with
      usedEntries := add32 info.usedEntries 1
      usedBlocks := add32 info.usedBlocks curBlocks }

/-- The walk of `umm_info` for a null pointer. -/
def infoLoop (m : Ram) : Nat → Nat → HeapInfo → HeapInfo
  | 0, _, info => info
  | fuel + 1, blockNo, info =>
    if following m blockNo = 0 then info
    else
      infoLoop m fuel (following m blockNo)
        (info.count (sub32 (following m blockNo) blockNo) (marked m blockNo))

/-- umm_info.c:28, for a null pointer. -/
def ummInfo (space : HeapSpace) (h : Heap) : HeapInfo × Heap :=
  let h := ensure space h
  (infoLoop h.memory h.numblocks (following h.memory 0) ⟨0, 0, 0, 0, 0, 0, 0, 0⟩, h)

/-- umm_info.c:194. Nothing is free where it is -1. -/
def ummUsageMetric (space : HeapSpace) (h : Heap) : Int × Heap :=
  let (info, h) := ummInfo space h
  (if info.freeBlocks ≠ 0 then (info.usedBlocks * 100 % 2 ^ 32 / info.freeBlocks : Nat) else -1, h)

/-- sqrt32.cpp:7. The loop ends when the last bit of `c` is shifted out. -/
def sqrtLoop (n : Nat) : Nat → Nat → Nat → Nat
  | 0, _, g => g
  | fuel + 1, c, g =>
    let g := if n < g * g % 2 ^ 32 then g ^^^ c else g
    let c := c >>> 1
    if c = 0 then g else sqrtLoop n fuel c (g ||| c)

def sqrt32 (n : Nat) : Nat := sqrtLoop n 32 0x8000 0x8000

end Esp8266.Source.UmmMalloc
