import Mathlib.Data.List.Basic

/-!
# Unaligned flash access

cores/esp8266/flash_hal.cpp:45-166 over `ESP.flashRead` and `ESP.flashWrite`, which may fail and
then leave anything in their range. Addresses of the flash and of the memory have 32 bits; the
variables on the stack are no part of the memory. What `flash_hal_write` reads of the memory is
recorded.
-/
set_option autoImplicit false

namespace Esp8266.Source.FlashHal

/-- Bytes by their address, or by their offset. -/
abbrev Bytes := UInt32 → UInt8

/-- `size` bytes from `base` on are replaced. -/
def put (base size : UInt32) (bytes old : Bytes) : Bytes :=
  fun a => if a - base < size then bytes (a - base) else old a

/-- `size` bytes from `base` on keep the bits that the bytes have as well. -/
def mask (base size : UInt32) (bytes old : Bytes) : Bytes :=
  fun a => if a - base < size then old a &&& bytes (a - base) else old a

/-- `faults` says for each call of the flash whether it fails, and what it leaves then. -/
structure Hal where
  flash : Bytes
  memory : Bytes
  faults : List (Option Bytes)
  reads : List (UInt32 × UInt32)

def flashHalOk : Int := 0
def flashHalReadError : Int := -1
def flashHalWriteError : Int := -2

/-- `addr` or `addr + size`, rounded to words. -/
def alignedBegin (addr : UInt32) : UInt32 := (addr + 3) &&& 0xfffffffc

def alignedEnd (addr size : UInt32) : UInt32 :=
  if (addr + size) &&& 0xfffffffc < alignedBegin addr then alignedBegin addr
  else (addr + size) &&& 0xfffffffc

namespace Hal

/-! ## Reading -/

/-- `ESP.flashRead` into memory. -/
def flashRead (offset data size : UInt32) (h : Hal) : Bool × Hal :=
  match h.faults.headD none with
  | none =>
    (true, { h with
      memory := put data size (fun i => h.flash (offset + i)) h.memory
      faults := h.faults.tail })
  | some junk =>
    (false, { h with memory := put data size junk h.memory, faults := h.faults.tail })

/-- `ESP.flashRead` of one word. -/
def flashReadWord (offset : UInt32) (h : Hal) : Option Bytes × Hal :=
  match h.faults.headD none with
  | none => (some fun i => h.flash (offset + i), { h with faults := h.faults.tail })
  | some _ => (none, { h with faults := h.faults.tail })

/-- `memcpy` into memory. -/
def copy (dst size : UInt32) (bytes : Bytes) (h : Hal) : Hal :=
  { h with memory := put dst size bytes h.memory }

/-- The bytes in front of the first whole word. -/
def readPre (addr dst : UInt32) (h : Hal) : Bool × Hal :=
  if addr < alignedBegin addr then
    let nb := alignedBegin addr - addr
    match h.flashReadWord (alignedBegin addr - 4) with
    | (some tmp, h) => (true, h.copy dst nb fun i => tmp (4 - nb + i))
    | (none, h) => (false, h)
  else (true, h)

/-- The whole words. -/
def readMiddle (addr size dst : UInt32) (h : Hal) : Bool × Hal :=
  if alignedEnd addr size ≠ alignedBegin addr then
    h.flashRead (alignedBegin addr) (dst + alignedBegin addr - addr)
      (alignedEnd addr size - alignedBegin addr)
  else (true, h)

/-- The bytes behind them. -/
def readPost (addr size dst : UInt32) (h : Hal) : Bool × Hal :=
  if alignedEnd addr size < addr + size then
    let nb := addr + size - alignedEnd addr size
    match h.flashReadWord (alignedEnd addr size) with
    | (some tmp, h) => (true, h.copy (dst + size - nb) nb tmp)
    | (none, h) => (false, h)
  else (true, h)

/-- `flash_hal_read` -/
def flashHalRead (addr size dst : UInt32) (h : Hal) : Int × Hal :=
  let (ok, h) := h.readPre addr dst
  if ok then
    let (ok, h) := h.readMiddle addr size dst
    if ok then
      let (ok, h) := h.readPost addr size dst
      if ok then (flashHalOk, h) else (flashHalReadError, h)
    else (flashHalReadError, h)
  else (flashHalReadError, h)

/-! ## Writing -/

/-- `ESP.flashWrite` -/
def flashWrite (offset : UInt32) (data : Bytes) (size : UInt32) (h : Hal) : Bool × Hal :=
  match h.faults.headD none with
  | none => (true, { h with flash := mask offset size data h.flash, faults := h.faults.tail })
  | some junk =>
    (false, { h with flash := put offset size junk h.flash, faults := h.faults.tail })

/-- The bytes that are read from memory, by their offset. -/
def fetch (src size : UInt32) (h : Hal) : Bytes × Hal :=
  (fun i => h.memory (src + i), { h with reads := (src, size) :: h.reads })

def writePre (addr size src : UInt32) (h : Hal) : Bool × Hal :=
  if addr < alignedBegin addr then
    let ofs := alignedBegin addr - addr
    let nb := if size < ofs then size else ofs
    let (bytes, h) := h.fetch src nb
    h.flashWrite (alignedBegin addr - 4) (put (4 - ofs) nb bytes fun _ => 0xff) 4
  else (true, h)

def unalignedWriteBufferSize : UInt32 := 512

/-- The loop through the buffer, with at most `rounds` rounds. The source is a pointer to words,
and adding to it steps by words. -/
def writeChunks : Nat → UInt32 → UInt32 → UInt32 → Hal → Bool × Hal
  | 0, _, _, _, h => (true, h)
  | rounds + 1, sizeLeft, srcLeftover, begin', h =>
    if sizeLeft = 0 then (true, h)
    else
      let willCopy :=
        if sizeLeft < unalignedWriteBufferSize then sizeLeft else unalignedWriteBufferSize
      let (buf, h) := h.fetch srcLeftover willCopy
      let (ok, h) := h.flashWrite begin' buf willCopy
      if ok then
        writeChunks rounds (sizeLeft - willCopy) (srcLeftover + 4 * willCopy) (begin' + willCopy) h
      else (false, h)

def writeMiddle (addr size src : UInt32) (h : Hal) : Bool × Hal :=
  if alignedEnd addr size ≠ alignedBegin addr then
    let srcLeftover := src + alignedBegin addr - addr
    let sizeLeft := alignedEnd addr size - alignedBegin addr
    if srcLeftover &&& 3 = 0 then
      let (data, h) := h.fetch srcLeftover sizeLeft
      h.flashWrite (alignedBegin addr) data sizeLeft
    else h.writeChunks sizeLeft.toNat sizeLeft srcLeftover (alignedBegin addr)
  else (true, h)

def writePost (addr size src : UInt32) (h : Hal) : Bool × Hal :=
  if alignedEnd addr size < addr + size then
    let nb := addr + size - alignedEnd addr size
    let (bytes, h) := h.fetch (src + size - nb) nb
    h.flashWrite (alignedEnd addr size) (put 0 nb bytes fun _ => 0xff) 4
  else (true, h)

/-- `flash_hal_write` -/
def flashHalWrite (addr size src : UInt32) (h : Hal) : Int × Hal :=
  let (ok, h) := h.writePre addr size src
  if ok then
    let (ok, h) := h.writeMiddle addr size src
    if ok then
      let (ok, h) := h.writePost addr size src
      if ok then (flashHalOk, h) else (flashHalWriteError, h)
    else (flashHalWriteError, h)
  else (flashHalWriteError, h)

end Hal

end Esp8266.Source.FlashHal
