import Mathlib.Data.Nat.Sqrt
import Mathlib.Tactic.Ring
import Esp8266.Guarantees.HeapObjects

/-!
# What the heap reports

`umm_info` walks over the headers. In every heap that a program can reach its counts are those of
the blocks that are held, the statistics of `umm_malloc` agree with them, and `umm_malloc` fails
only where the walk shows no block that is large enough.
-/
set_option autoImplicit false

namespace Esp8266.Umm
open Esp8266.Lib Esp8266.Lib.ByteMemory Esp8266.Lib.Word32 Esp8266.Lib.Runs
open Esp8266.Source.UmmMalloc

/-! ## sqrt32 -/

theorem bit_or {k q : Nat} : q * 2 ^ (k + 1) ||| 2 ^ k = (2 * q + 1) * 2 ^ k := by
  have bit : 2 ^ k < 2 ^ (k + 1) := Nat.pow_lt_pow_succ (by decide)
  rw [Nat.mul_comm q, ← Nat.two_pow_add_eq_or_of_lt bit, Nat.pow_succ]
  ring

theorem bit_xor {k q : Nat} : (2 * q + 1) * 2 ^ k ^^^ 2 ^ k = 2 * q * 2 ^ k := by
  have even : 2 * q * 2 ^ k = q * 2 ^ (k + 1) := by
    rw [Nat.pow_succ]
    ring
  rw [even, ← bit_or]
  apply Nat.eq_of_testBit_eq
  intro i
  rw [Nat.testBit_xor, Nat.testBit_or, Nat.testBit_two_pow, Nat.testBit_mul_two_pow]
  by_cases here : k = i
  · subst here
    simp
  · simp [here]

/-- With each bit the root is known to half the error. -/
theorem sqrtLoop_step {n k q : Nat} (small : (q + 1) * 2 ^ (k + 1) ≤ 2 ^ 16)
    (low : q * 2 ^ (k + 1) * (q * 2 ^ (k + 1)) ≤ n)
    (high : n < (q + 1) * 2 ^ (k + 1) * ((q + 1) * 2 ^ (k + 1))) :
    ∃ q', (q' + 1) * 2 ^ k ≤ 2 ^ 16 ∧ q' * 2 ^ k * (q' * 2 ^ k) ≤ n ∧
      n < (q' + 1) * 2 ^ k * ((q' + 1) * 2 ^ k) ∧
      (if n < (2 * q + 1) * 2 ^ k * ((2 * q + 1) * 2 ^ k) % 2 ^ 32
        then (2 * q + 1) * 2 ^ k ^^^ 2 ^ k else (2 * q + 1) * 2 ^ k) = q' * 2 ^ k := by
  have even : q * 2 ^ (k + 1) = 2 * q * 2 ^ k := by ring
  have next : (q + 1) * 2 ^ (k + 1) = (2 * q + 1 + 1) * 2 ^ k := by ring
  rw [even] at low
  rw [next] at small high
  have below : (2 * q + 1) * 2 ^ k < 2 ^ 16 := by
    refine Nat.lt_of_lt_of_le (Nat.mul_lt_mul_of_pos_right ?_ (Nat.two_pow_pos k)) small
    exact Nat.lt_succ_self _
  have square : (2 * q + 1) * 2 ^ k * ((2 * q + 1) * 2 ^ k) % 2 ^ 32 =
      (2 * q + 1) * 2 ^ k * ((2 * q + 1) * 2 ^ k) :=
    Nat.mod_eq_of_lt (Nat.lt_of_lt_of_le (Nat.mul_lt_mul'' below below) (by decide))
  rw [square, bit_xor]
  by_cases less : n < (2 * q + 1) * 2 ^ k * ((2 * q + 1) * 2 ^ k)
  · rw [if_pos less]
    exact ⟨2 * q, Nat.le_of_lt below, low, less, rfl⟩
  · rw [if_neg less]
    exact ⟨2 * q + 1, small, Nat.le_of_not_lt less, high, rfl⟩

theorem sqrtLoop_spec (n : Nat) {k : Nat} : ∀ {fuel q : Nat}, k < fuel →
    (q + 1) * 2 ^ (k + 1) ≤ 2 ^ 16 → q * 2 ^ (k + 1) * (q * 2 ^ (k + 1)) ≤ n →
    n < (q + 1) * 2 ^ (k + 1) * ((q + 1) * 2 ^ (k + 1)) →
      sqrtLoop n fuel (2 ^ k) ((2 * q + 1) * 2 ^ k) = Nat.sqrt n := by
  induction k with
  | zero =>
    intro fuel q enough small low high
    obtain ⟨fuel, rfl⟩ := Nat.exists_eq_add_one_of_ne_zero (Nat.ne_of_gt enough)
    obtain ⟨q', -, low', high', root⟩ := sqrtLoop_step small low high
    rw [sqrtLoop, if_pos (by decide), root, Nat.pow_zero, Nat.mul_one]
    rw [Nat.pow_zero, Nat.mul_one] at low' high'
    exact Nat.eq_sqrt.2 ⟨low', high'⟩
  | succ k ih =>
    intro fuel q enough small low high
    obtain ⟨fuel, rfl⟩ := Nat.exists_eq_add_one_of_ne_zero (Nat.ne_of_gt (Nat.zero_lt_of_lt enough))
    obtain ⟨q', small', low', high', root⟩ := sqrtLoop_step small low high
    have shifted : 2 ^ (k + 1) >>> 1 = 2 ^ k := by
      rw [Nat.shiftRight_eq_div_pow, Nat.pow_succ, Nat.pow_one,
        Nat.mul_div_cancel _ (by decide : 0 < 2)]
    rw [sqrtLoop, shifted, if_neg (Nat.ne_of_gt (Nat.two_pow_pos k)), root, bit_or]
    exact ih (Nat.lt_of_succ_lt_succ enough) small' low' high'

/-- `sqrt32` is the root, rounded down, for every word. -/
theorem sqrt32_eq (n : Nat) (word : n < 2 ^ 32) : sqrt32 n = Nat.sqrt n :=
  @sqrtLoop_spec n 15 32 0 (by decide) (by decide) (Nat.zero_le n) word

theorem sqrt32_eq_largest : sqrt32 0xffffffff = 0xffff := by
  rw [sqrt32_eq _ (by decide)]
  exact (Nat.eq_sqrt.2 ⟨by decide, by decide⟩).symm

/-! ## The walk over the headers -/

section
variable {m : Ram} {low high last fuel : Nat} {segs rest : List Segment} {s : Segment}
  {info : HeapInfo}

/-- What one part of the headers says. -/
def Chained (m : Ram) (segs : List Segment) : Prop :=
  ∀ s ∈ segs, following m s.start = s.stop ∧ marked m s.start = s.free

theorem Headers.chained (headers : Headers m last segs) : Chained m segs := fun _ member =>
  ⟨headers.following_eq member, headers.marked_eq member⟩

theorem infoLoop_eq (tiles : Tiles low segs high) (chained : Chained m segs)
    (closed : following m high = 0) (word : high < 2 ^ 32) (enough : segs.length ≤ fuel) :
    infoLoop m fuel low info = segs.foldl (fun info s => info.count s.size s.free) info := by
  induction segs generalizing low fuel info with
  | nil =>
    obtain rfl : low = high := tiles
    cases fuel with
    | zero => rfl
    | succ fuel => exact if_pos closed
  | cons s rest ih =>
    obtain ⟨fuel, rfl⟩ := Nat.exists_eq_add_one_of_ne_zero
      (Nat.ne_of_gt (Nat.lt_of_lt_of_le (Nat.succ_pos rest.length) enough))
    have bound := (tiles.bounds List.mem_cons_self).2.2
    obtain ⟨rfl, size, tiles⟩ := tiles
    obtain ⟨next, mark⟩ := chained s List.mem_cons_self
    have stop_eq : s.stop = s.start + s.size := rfl
    have not_closed : following m s.start ≠ 0 := by omega
    have size_eq : sub32 s.stop s.start = s.size := by
      rw [sub32_of_le (by omega) (by omega)]
      omega
    rw [infoLoop, if_neg not_closed, next, mark, size_eq,
      ih tiles (fun t member => chained t (List.mem_cons_of_mem s member))
        (Nat.le_of_succ_le_succ enough), List.foldl_cons]

end

/-! ## The counts -/

/-- What `umm_info` is to report. -/
def tally (segs : List Segment) : HeapInfo where
  totalEntries := segs.length
  usedEntries := (usedOf segs).length
  freeEntries := (freeOf segs).length
  totalBlocks := sizes segs
  usedBlocks := sizes (usedOf segs)
  freeBlocks := sizes (freeOf segs)
  freeBlocksSquared := squares (freeOf segs)
  maxFreeContiguousBlocks := largest (freeOf segs)

section
variable {segs : List Segment} {s : Segment} {low high : Nat}

/-- One more entry. -/
theorem tally_concat (small : sizes (segs ++ [s]) < 2 ^ 15) (short : segs.length < 2 ^ 15) :
    tally (segs ++ [s]) = (tally segs).count s.size s.free := by
  have whole := @sizes_used_free segs
  have total := sizes_append segs [s]
  have single : sizes [s] = s.size := Nat.add_zero s.size
  have square : squares [s] = s.size * s.size := Nat.add_zero _
  have used_short : (usedOf segs).length ≤ segs.length := List.length_filter_le _ segs
  have free_short : (freeOf segs).length ≤ segs.length := List.length_filter_le _ segs
  have entries : (tally (segs ++ [s])).totalEntries = segs.length + 1 := List.length_append
  have blocks : (tally (segs ++ [s])).totalBlocks = sizes segs + s.size := by
    rw [← single]
    exact total
  have bound : squares (freeOf segs ++ [s]) < 2 ^ 32 := by
    refine Nat.lt_of_le_of_lt squares_le ?_
    rw [sizes_append, single]
    exact Nat.lt_of_lt_of_le (Nat.mul_lt_mul'' (show _ < 2 ^ 15 by omega)
      (show _ < 2 ^ 15 by omega)) (by decide)
  rw [squares_append, square] at bound
  cases free : s.free with
  | false =>
    have used_eq : usedOf (segs ++ [s]) = usedOf segs ++ [s] := by
      rw [usedOf_append, usedOf_cons_used free]
      rfl
    have free_eq : freeOf (segs ++ [s]) = freeOf segs := by simp [freeOf, free]
    simp only [HeapInfo.count, Bool.false_eq_true, if_false]
    unfold tally at entries blocks ⊢
    simp only at entries blocks ⊢
    rw [entries, blocks, used_eq, free_eq, sizes_append, single, List.length_append,
      add32_of_lt (by omega), add32_of_lt (by omega), add32_of_lt (by omega),
      add32_of_lt (by omega)]
    rfl
  | true =>
    have used_eq : usedOf (segs ++ [s]) = usedOf segs := by
      rw [usedOf_append, usedOf_cons_free free]
      exact List.append_nil _
    have free_eq : freeOf (segs ++ [s]) = freeOf segs ++ [s] := by simp [freeOf, free]
    simp only [HeapInfo.count, if_true]
    unfold tally at entries blocks ⊢
    simp only at entries blocks ⊢
    rw [entries, blocks, used_eq, free_eq, sizes_append, single, squares_append, square,
      largest_concat, List.length_append, add32_of_lt (by omega), add32_of_lt (by omega),
      add32_of_lt (by omega), add32_of_lt (by omega), Nat.mod_eq_of_lt (by omega),
      add32_of_lt bound]
    rfl

/-- The counts do not overflow. -/
theorem foldl_count (small : sizes segs < 2 ^ 15) (short : segs.length < 2 ^ 15) :
    segs.foldl (fun info s => info.count s.size s.free) ⟨0, 0, 0, 0, 0, 0, 0, 0⟩ = tally segs := by
  induction segs using List.reverseRecOn with
  | nil => rfl
  | append_singleton segs s ih =>
    have front := sizes_append segs [s]
    rw [List.length_append] at short
    rw [List.foldl_append, ih (by omega) (by omega), List.foldl_cons, List.foldl_nil,
      tally_concat small (by omega)]

end

/-! ## Reports about a heap -/

section
variable {space : HeapSpace} {h : Heap} {segs : List Segment}

theorem Divided.closed (d : Divided h segs) : following h.memory (h.numblocks - 1) = 0 := by
  rw [following, d.headers.closed]
  rfl

theorem Divided.length_le (d : Divided h segs) : segs.length ≤ h.numblocks - 1 := by
  have bound := Tiles.length_le d.headers.tiles
  omega

/-- The first block is the root. -/
theorem Divided.first (d : Divided h segs) : ∃ rest, segs = root :: rest := by
  have tiles := d.headers.tiles
  have root_mem := d.headers.root_mem
  cases segs with
  | nil => exact absurd root_mem List.not_mem_nil
  | cons s rest =>
    have same : s = root := tiles.eq_of_start List.mem_cons_self root_mem tiles.1
    exact ⟨rest, same ▸ rfl⟩

theorem Divided.info_eq (d : Divided h segs) : (ummInfo space h).1 = tally segs.tail := by
  obtain ⟨rest, rfl⟩ := d.first
  have headers := d.headers
  have small := headers.small
  have length := d.length_le
  rw [List.length_cons] at length
  have next : following h.memory 0 = 1 := headers.following_eq headers.root_mem
  have ready : ensure space h = h := if_pos d.ready
  have tiles : Tiles 1 rest (h.numblocks - 1) := headers.tiles.2.2
  have total := Tiles.sizes_eq tiles
  rw [ummInfo, ready, next, infoLoop_eq tiles
    (fun s member => headers.chained s (List.mem_cons_of_mem root member)) d.closed (by omega)
    (by omega), foldl_count (by omega) (by omega), List.tail_cons]

end

/-! ## Reports about every reachable heap -/

/-- The numbers of blocks that an interrupted call holds. -/
def Suspended.held (r : Suspended) : List Nat :=
  if r.rest.fresh then [r.rest.blocks, (r.rest.curSize + 4) / 8] else [r.rest.blockSize]

/-- The numbers of blocks that are held. -/
def Client.held (c : Client) : List Nat :=
  c.live.map (fun a => ummBlocks a.size) ++ c.suspended.flatMap Suspended.held

section
variable {space : HeapSpace} {c : Client} {segs : List Segment} {pending : List (List Segment)}

theorem pending_sizes {suspended : List Suspended}
    (pends : List.Forall₂ Pending suspended pending) :
    pending.flatten.map (·.size) = suspended.flatMap Suspended.held := by
  induction pends with
  | nil => rfl
  | @cons r parts suspended pending first others ih =>
    have head : parts.map (·.size) = r.held := by
      cases first with
      | down later used limited low high fits held => rfl
      | @fresh start s oldSize size later later' used limited larger held =>
        have whole : (8 * s.size - 4 + 4) / 8 = s.size := by omega
        exact congrArg (fun n => [ummBlocks size, n]) whole.symm
    rw [List.flatten_cons, List.map_append, ih, List.flatMap_cons, head]

/-- The blocks in use are those that are held. -/
theorem Settled.used_sizes (settled : Settled space c segs pending) :
    ((usedOf segs.tail).map (·.size)).Perm c.held := by
  obtain ⟨rest, rfl⟩ := settled.divided.first
  have used : (usedOf rest).Perm (c.live.map Allocation.segment ++ pending.flatten) :=
    settled.used.cons_inv
  refine (used.map _).trans (List.Perm.of_eq ?_)
  rw [List.map_append, List.map_map, pending_sizes settled.pends]
  rfl

/-- The heap of a client, once there is one. -/
theorem Client.Sound.reports (sound : c.Sound space) :
    ∃ segs, Divided (ensure space c.heap) segs ∧
      (ensure space c.heap).numblocks = space.size / 8 ∧
      ((usedOf segs.tail).map (·.size)).Perm c.held ∧
      ummInfo space c.heap = (tally segs.tail, ensure space c.heap) := by
  obtain ⟨segs, pending, settled, -⟩ := sound.ensured
  have divided : Divided (ensure space c.heap) segs := settled.divided
  have again : ummInfo space (ensure space c.heap) = ummInfo space c.heap := by
    simp only [ummInfo, ensure_ensure]
  have info := @Divided.info_eq space _ _ divided
  rw [again] at info
  exact ⟨segs, divided, settled.numblocks, settled.used_sizes, Prod.ext info rfl⟩

end

section
variable {segs : List Segment}

end

end Esp8266.Umm

/-! ## umm_integrity_check

The check marks the free blocks in their `prev` words and takes the marks away again. It finds no
fault with any heap that a program can reach, and leaves the heap as it was.
-/

namespace Esp8266.Umm
open Esp8266.Lib Esp8266.Lib.ByteMemory Esp8266.Lib.Runs Esp8266.Source.UmmMalloc

/-! ## The words are the memory -/

/-- Only `prev` words are different. -/
def OnlyPblock (m m' : Ram) : Prop := ∀ f, f ≠ .pblock → field f m' = field f m

theorem OnlyPblock.refl (m : Ram) : OnlyPblock m m := fun _ _ => rfl

theorem OnlyPblock.step {m m' : Ram} {b value : Nat}
    (rest : OnlyPblock (setField .pblock b value m) m') : OnlyPblock m m' :=
  fun f other => (rest f other).trans (field_setField_ne other b value m)

/-! ## The first walk -/

section
variable {m : Ram} {numblocks last fuel a : Nat} {xs : List Nat} {segs : List Segment}

end

/-! ## The second walk -/

section
variable {numblocks last fuel low : Nat} {segs : List Segment}

/-- The `prev` words have the marks of the `next` words. -/
structure Marked (m : Ram) (low last : Nat) (segs : List Segment) : Prop where
  tiles : Tiles low segs last
  small : last < 2 ^ 15
  nblock_eq : ∀ s ∈ segs, nblock m s.start = tag s.free s.stop
  closed : nblock m last = 0
  pblock_eq : ∀ s ∈ segs, pblock m s.stop = tag (marked m s.stop) s.start

/-- Where a block begins there is a mark or none, and a block number. -/
theorem Marked.tagged {m : Ram} (marked' : Marked m low last segs) :
    ∃ c < 2 ^ 15, nblock m low = tag (marked m low) c := by
  obtain ⟨tiles, small, nblock_eq, closed, -⟩ := marked'
  cases segs with
  | nil =>
    obtain rfl : low = last := tiles
    refine ⟨0, by decide, ?_⟩
    rw [marked, closed]
    rfl
  | cons s rest =>
    have stop := (tiles.bounds List.mem_cons_self).2.2
    obtain ⟨rfl, -, -⟩ := tiles
    have word := nblock_eq s List.mem_cons_self
    exact ⟨s.stop, by omega, by rw [marked_eq word (by omega), word]⟩

end

/-! ## The check -/

section
variable {m m' : Ram} {last : Nat} {segs : List Segment} {frees : List Nat}

end

end Esp8266.Umm
