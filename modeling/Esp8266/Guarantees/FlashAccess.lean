import Esp8266.Lib.Word32
import Esp8266.Source.FlashHal

/-!
# Unaligned flash access, byte by byte

Each part of a transfer is described by the offsets that it covers, so that what is left to show
is that the parts cover the range and nothing else. A read within one word sets too many bytes,
and a write from misaligned memory takes its second buffer from the wrong place.
-/
set_option autoImplicit false

namespace Esp8266.Source.FlashHal
open Esp8266.Lib.Word32

/-! ## Words -/

theorem toNat_clear (x : UInt32) : (x &&& 0xfffffffc).toNat = x.toNat / 4 * 4 := by
  rw [UInt32.toNat_and]
  exact and_clear_low x.toNat 2 x.toNat_lt (by decide)

theorem toNat_alignedBegin (addr : UInt32) :
    (alignedBegin addr).toNat = (addr.toNat + 3) % 2 ^ 32 / 4 * 4 := by
  rw [alignedBegin, toNat_clear, UInt32.toNat_add]
  rfl

theorem toNat_alignedEnd (addr size : UInt32) : (alignedEnd addr size).toNat =
    max ((addr.toNat + 3) % 2 ^ 32 / 4 * 4) ((addr.toNat + size.toNat) % 2 ^ 32 / 4 * 4) := by
  have begin' := toNat_alignedBegin addr
  have ends := toNat_clear (addr + size)
  rw [UInt32.toNat_add] at ends
  rw [alignedEnd]
  split
  · rename_i less
    rw [UInt32.lt_iff_toNat_lt] at less
    omega
  · rename_i less
    rw [UInt32.lt_iff_toNat_lt] at less
    omega

theorem toNat_difference (a b : UInt32) :
    (a - b).toNat = (a.toNat + 2 ^ 32 - b.toNat) % 2 ^ 32 := by
  have bound := b.toNat_lt
  rw [UInt32.toNat_sub]
  congr 1
  omega

/-! ## Reading -/

/-- The offsets of a transfer that are covered in front of the whole words, by these, and behind
them. -/
def inPre (addr i : UInt32) : Prop := addr < alignedBegin addr ∧ i < alignedBegin addr - addr

def inMiddle (addr size i : UInt32) : Prop :=
  alignedEnd addr size ≠ alignedBegin addr ∧
    i - (alignedBegin addr - addr) < alignedEnd addr size - alignedBegin addr

def inPost (addr size i : UInt32) : Prop :=
  alignedEnd addr size < addr + size ∧
    i - (size - (addr + size - alignedEnd addr size)) < addr + size - alignedEnd addr size

instance (addr i : UInt32) : Decidable (inPre addr i) := inferInstanceAs (Decidable (_ ∧ _))
instance (addr size i : UInt32) : Decidable (inMiddle addr size i) :=
  inferInstanceAs (Decidable (_ ∧ _))
instance (addr size i : UInt32) : Decidable (inPost addr size i) :=
  inferInstanceAs (Decidable (_ ∧ _))

/-- The memory from `dst` on is set to the flash from `addr` on where it is covered. -/
structure Sets (addr dst : UInt32) (covered : UInt32 → Prop) (h h' : Hal) : Prop where
  flash : h'.flash = h.flash
  inside : ∀ i, covered i → h'.memory (dst + i) = h.flash (addr + i)
  outside : ∀ i, ¬covered i → h'.memory (dst + i) = h.memory (dst + i)

theorem Sets.trans {addr dst : UInt32} {covered covered' : UInt32 → Prop} {h h' h'' : Hal}
    (first : Sets addr dst covered h h') (second : Sets addr dst covered' h' h'') :
    Sets addr dst (fun i => covered i ∨ covered' i) h h'' := by
  refine ⟨second.flash.trans first.flash, fun i either => ?_, fun i neither => ?_⟩
  · by_cases later : covered' i
    · rw [second.inside i later, first.flash]
    · rw [second.outside i later, first.inside i (either.resolve_right later)]
  · rw [second.outside i fun later => neither (Or.inr later),
      first.outside i fun earlier => neither (Or.inl earlier)]

theorem sets_none {addr dst : UInt32} {covered : UInt32 → Prop} (h : Hal)
    (none : ∀ i, ¬covered i) : Sets addr dst covered h h :=
  ⟨rfl, fun i some => absurd some (none i), fun _ _ => rfl⟩

/-- A piece is put where its offsets are covered. -/
theorem sets_put {addr dst : UInt32} {covered : UInt32 → Prop} {h h' : Hal}
    (base size : UInt32) (bytes : Bytes) (flash : h'.flash = h.flash) (memory : h'.memory = put base size bytes h.memory)
    (place : ∀ i, covered i ↔ dst + i - base < size)
    (same : ∀ i, covered i → bytes (dst + i - base) = h.flash (addr + i)) :
    Sets addr dst covered h h' := by
  refine ⟨flash, fun i inside => ?_, fun i outside => ?_⟩
  · rw [memory, put, if_pos ((place i).1 inside), same i inside]
  · rw [memory, put, if_neg fun inside => outside ((place i).2 inside)]

theorem readPre_sets {addr dst : UInt32} {h : Hal} (ok : (h.readPre addr dst).1 = true) :
    Sets addr dst (inPre addr) h (h.readPre addr dst).2 := by
  rw [Hal.readPre] at ok ⊢
  split
  · rename_i unaligned
    rw [if_pos unaligned, Hal.flashReadWord] at ok
    rw [Hal.flashReadWord]
    cases fault : h.faults.headD none with
    | some junk =>
      rw [fault] at ok
      exact absurd ok (by simp)
    | none =>
      dsimp only [Hal.copy]
      refine sets_put dst (alignedBegin addr - addr)
        (fun i => h.flash (alignedBegin addr - 4 + (4 - (alignedBegin addr - addr) + i)))
        rfl rfl (fun i => ?_) fun i _ => ?_
      · rw [inPre, UInt32.add_comm, UInt32.add_sub_cancel]
        exact and_iff_right unaligned
      · exact congrArg h.flash (by grind)
  · rename_i aligned
    exact sets_none h fun i covered => aligned covered.1

theorem readMiddle_sets {addr size dst : UInt32} {h : Hal}
    (ok : (h.readMiddle addr size dst).1 = true) :
    Sets addr dst (inMiddle addr size) h (h.readMiddle addr size dst).2 := by
  rw [Hal.readMiddle] at ok ⊢
  split
  · rename_i some
    rw [if_pos some, Hal.flashRead] at ok
    rw [Hal.flashRead]
    cases fault : h.faults.headD none with
    | some junk =>
      rw [fault] at ok
      exact absurd ok (by simp)
    | none =>
      have place : ∀ i, dst + i - (dst + alignedBegin addr - addr) =
          i - (alignedBegin addr - addr) := by
        intro i
        grind
      dsimp only [Hal.copy]
      refine sets_put (dst + alignedBegin addr - addr)
        (alignedEnd addr size - alignedBegin addr) (fun i => h.flash (alignedBegin addr + i)) rfl rfl (fun i => ?_)
        fun i _ => ?_
      · rw [place, inMiddle]
        exact and_iff_right some
      · rw [place]
        exact congrArg h.flash (by grind)
  · rename_i none
    exact sets_none h fun i covered => none covered.1

theorem readPost_sets {addr size dst : UInt32} {h : Hal}
    (ok : (h.readPost addr size dst).1 = true) :
    Sets addr dst (inPost addr size) h (h.readPost addr size dst).2 := by
  rw [Hal.readPost] at ok ⊢
  split
  · rename_i some
    rw [if_pos some, Hal.flashReadWord] at ok
    rw [Hal.flashReadWord]
    cases fault : h.faults.headD none with
    | some junk =>
      rw [fault] at ok
      exact absurd ok (by simp)
    | none =>
      have place : ∀ i, dst + i - (dst + size - (addr + size - alignedEnd addr size)) =
          i - (size - (addr + size - alignedEnd addr size)) := by
        intro i
        grind
      dsimp only [Hal.copy]
      refine sets_put (dst + size - (addr + size - alignedEnd addr size))
        (addr + size - alignedEnd addr size) (fun i => h.flash (alignedEnd addr size + i)) rfl rfl (fun i => ?_)
        fun i _ => ?_
      · rw [place, inPost]
        exact and_iff_right some
      · rw [place]
        exact congrArg h.flash (by grind)
  · rename_i none
    exact sets_none h fun i covered => none covered.1

/-- What a transfer covers. -/
def covers (addr size i : UInt32) : Prop :=
  (inPre addr i ∨ inMiddle addr size i) ∨ inPost addr size i

theorem flashHalRead_sets {addr size dst : UInt32} {h : Hal}
    (ok : (h.flashHalRead addr size dst).1 = flashHalOk) :
    Sets addr dst (covers addr size) h (h.flashHalRead addr size dst).2 := by
  have differ : flashHalReadError ≠ flashHalOk := by decide
  rw [Hal.flashHalRead] at ok ⊢
  simp only at ok ⊢
  split at ok
  · rename_i pre
    split at ok
    · rename_i middle
      split at ok
      · rename_i post
        rw [if_pos pre, if_pos middle, if_pos post]
        exact ((readPre_sets pre).trans (readMiddle_sets middle)).trans (readPost_sets post)
      · exact absurd ok differ
    · exact absurd ok differ
  · exact absurd ok differ

/-- The parts in natural numbers. -/
theorem covers_toNat (addr size i : UInt32) (begin' end' sum ofs : Nat)
    (begins : begin' = (addr.toNat + 3) % 2 ^ 32 / 4 * 4)
    (sums : sum = (addr.toNat + size.toNat) % 2 ^ 32) (ends : end' = max begin' (sum / 4 * 4))
    (offset : ofs = (begin' + 2 ^ 32 - addr.toNat) % 2 ^ 32) :
    covers addr size i ↔ ((addr.toNat < begin' ∧ i.toNat < ofs) ∨
      (end' ≠ begin' ∧ (i.toNat + 2 ^ 32 - ofs) % 2 ^ 32 < end' - begin')) ∨
      (end' < sum ∧ (i.toNat + 2 ^ 32 - (size.toNat + 2 ^ 32 - (sum - end')) % 2 ^ 32) % 2 ^ 32 <
        sum - end') := by
  have begins' := (toNat_alignedBegin addr).trans begins.symm
  have ends' : (alignedEnd addr size).toNat = end' := by
    rw [toNat_alignedEnd, ends, begins, sums]
  have sums' : (addr + size).toNat = sum := (UInt32.toNat_add addr size).trans sums.symm
  have boundI := i.toNat_lt
  have boundA := addr.toNat_lt
  have low : begin' ≤ end' := ends ▸ Nat.le_max_left _ _
  have high : end' < 2 ^ 32 := by omega
  have length : (alignedEnd addr size - alignedBegin addr).toNat = end' - begin' := by
    rw [toNat_difference, begins', ends']
    omega
  have behind : end' < sum → (addr + size - alignedEnd addr size).toNat = sum - end' := by
    intro more
    rw [toNat_difference, ends', sums']
    omega
  unfold covers inPre inMiddle inPost
  rw [UInt32.lt_iff_toNat_lt, UInt32.lt_iff_toNat_lt, UInt32.lt_iff_toNat_lt,
    UInt32.lt_iff_toNat_lt, UInt32.lt_iff_toNat_lt, Ne, ← UInt32.toNat_inj, begins', ends', sums',
    length, toNat_difference i, toNat_difference i, toNat_difference, toNat_difference size,
    begins', ← offset]
  refine or_congr Iff.rfl (and_congr_right fun more => ?_)
  rw [behind more]

/-- The parts cover the range exactly, unless the range wraps or a word that it does not reach the
end of is read from the middle. -/
theorem covers_range {addr size : UInt32} (whole : addr.toNat + size.toNat < 2 ^ 32)
    (reaches : addr.toNat % 4 = 0 ∨ 4 - addr.toNat % 4 ≤ size.toNat) (i : UInt32) :
    covers addr size i ↔ i < size := by
  have boundI := i.toNat_lt
  rw [covers_toNat addr size i _ _ _ _ rfl rfl rfl rfl, UInt32.lt_iff_toNat_lt]
  generalize addr.toNat = A at *
  generalize size.toNat = S at *
  generalize i.toNat = I at *
  have small : A + 3 < 2 ^ 32 := by omega
  rw [Nat.mod_eq_of_lt whole, Nat.mod_eq_of_lt small]
  have begins : A ≤ (A + 3) / 4 * 4 ∧ (A + 3) / 4 * 4 ≤ A + S := by omega
  have ends : max ((A + 3) / 4 * 4) ((A + S) / 4 * 4) ≤ A + S :=
    max_le begins.2 (Nat.div_mul_le_self _ _)
  have order : (A + 3) / 4 * 4 ≤ max ((A + 3) / 4 * 4) ((A + S) / 4 * 4) := le_max_left _ _
  generalize max ((A + 3) / 4 * 4) ((A + S) / 4 * 4) = E at *
  generalize (A + 3) / 4 * 4 = B at *
  have front : (B + 2 ^ 32 - A) % 2 ^ 32 = B - A := by omega
  have back : (S + 2 ^ 32 - (A + S - E)) % 2 ^ 32 = E - A := by omega
  rw [front, back]
  by_cases pre : I < B - A
  · omega
  · by_cases middle : I < E - A
    · omega
    · omega

theorem range_of_covers {addr size : UInt32} (exact : ∀ i, covers addr size i ↔ i < size) :
    addr.toNat + size.toNat < 2 ^ 32 ∧ (addr.toNat % 4 = 0 ∨ 4 - addr.toNat % 4 ≤ size.toNat) := by
  have boundA := addr.toNat_lt
  have boundS := size.toNat_lt
  have first := exact 0
  have last := exact (size - 1)
  have next := exact size
  have word := exact (0 - addr)
  rw [covers_toNat addr size _ _ _ _ _ rfl rfl rfl rfl, UInt32.lt_iff_toNat_lt]
    at first last next word
  rw [toNat_difference, show (1 : UInt32).toNat = 1 from rfl] at last
  rw [toNat_difference, show (0 : UInt32).toNat = 0 from rfl] at word
  rw [show (0 : UInt32).toNat = 0 from rfl] at first
  generalize addr.toNat = A at *
  generalize size.toNat = S at *
  clear exact
  have whole : A + S < 2 ^ 32 := by
    by_contra wraps
    have sum : (A + S) % 2 ^ 32 = A + S - 2 ^ 32 := by omega
    by_cases small : A + 3 < 2 ^ 32
    · clear first next word
      have ends : max ((A + 3) / 4 * 4) ((A + S - 2 ^ 32) / 4 * 4) = (A + 3) / 4 * 4 :=
        max_eq_left (by omega)
      have front : ((A + 3) / 4 * 4 + 2 ^ 32 - A) % 2 ^ 32 = (A + 3) / 4 * 4 - A := by omega
      have before : (S + 2 ^ 32 - 1) % 2 ^ 32 = S - 1 := by omega
      rw [sum, Nat.mod_eq_of_lt small, ends, front, before] at last
      omega
    · clear last next word
      have begins : (A + 3) % 2 ^ 32 / 4 * 4 = 0 := by omega
      have behind : (0 + 2 ^ 32 - A) % 2 ^ 32 = 2 ^ 32 - A := by omega
      rw [sum, begins, behind, Nat.zero_max] at first
      omega
  refine ⟨whole, ?_⟩
  by_contra inside
  rw [Nat.mod_eq_of_lt whole] at first last next word
  by_cases small : A + 3 < 2 ^ 32
  · clear first last word
    rw [Nat.mod_eq_of_lt small] at next
    omega
  · clear first last next
    have begins : (A + 3) % 2 ^ 32 / 4 * 4 = 0 := by omega
    rw [begins] at word
    omega

/-- Where no call of the flash fails, reading succeeds. -/
theorem flashHalRead_ok (addr size dst : UInt32) {h : Hal} (faults : h.faults = []) :
    (h.flashHalRead addr size dst).1 = flashHalOk := by
  have pre : (h.readPre addr dst).1 = true ∧ (h.readPre addr dst).2.faults = [] := by
    rw [Hal.readPre]
    split
    · rw [Hal.flashReadWord, faults]
      exact ⟨rfl, rfl⟩
    · exact ⟨rfl, faults⟩
  have middle : ∀ h : Hal, h.faults = [] → (h.readMiddle addr size dst).1 = true ∧
      (h.readMiddle addr size dst).2.faults = [] := by
    intro h faults
    rw [Hal.readMiddle]
    split
    · rw [Hal.flashRead, faults]
      exact ⟨rfl, rfl⟩
    · exact ⟨rfl, faults⟩
  have post : ∀ h : Hal, h.faults = [] → (h.readPost addr size dst).1 = true := by
    intro h faults
    rw [Hal.readPost]
    split
    · rw [Hal.flashReadWord, faults]
      rfl
    · rfl
  have first := middle _ pre.2
  rw [Hal.flashHalRead]
  simp only
  rw [if_pos pre.1, if_pos first.1, if_pos (post _ first.2)]

/-- A read that says it succeeded sets the range in memory to that of the flash, and no other
byte. -/
def ReadExact (addr size dst : UInt32) : Prop :=
  ∀ h : Hal, (h.flashHalRead addr size dst).1 = flashHalOk → ∀ i,
    (h.flashHalRead addr size dst).2.memory (dst + i) =
      if i < size then h.flash (addr + i) else h.memory (dst + i)

theorem readExact_iff (addr size dst : UInt32) : ReadExact addr size dst ↔
    addr.toNat + size.toNat < 2 ^ 32 ∧ (addr.toNat % 4 = 0 ∨ 4 - addr.toNat % 4 ≤ size.toNat) := by
  constructor
  · intro exact
    refine range_of_covers fun i => ?_
    obtain ⟨h, flash, memory, ok⟩ : ∃ h : Hal, h.flash = (fun _ => 1) ∧ h.memory = (fun _ => 0) ∧
        (h.flashHalRead addr size dst).1 = flashHalOk := by
      exact ⟨⟨fun _ => 1, fun _ => 0, [], []⟩, rfl, rfl, flashHalRead_ok addr size dst rfl⟩
    have sets := flashHalRead_sets ok
    have result := exact h ok i
    rw [flash, memory] at result
    constructor
    · intro covered
      rw [sets.inside i covered, flash] at result
      by_contra outside
      rw [if_neg outside] at result
      exact absurd result (by decide : (1 : UInt8) ≠ 0)
    · intro inside
      by_contra outside
      rw [sets.outside i outside, memory, if_pos inside] at result
      exact absurd result (by decide : (0 : UInt8) ≠ 1)
  · intro condition h ok i
    have sets := flashHalRead_sets ok
    have range := covers_range condition.1 condition.2 i
    by_cases inside : i < size
    · rw [if_pos inside, sets.inside i (range.2 inside)]
    · rw [if_neg inside, sets.outside i fun covered => inside (range.1 covered)]

/-! ## Writing -/

/-- Each byte of the flash keeps the bits that its byte has, by the offset from `addr`. -/
structure Masks (addr : UInt32) (bytes : Bytes) (h h' : Hal) : Prop where
  flash : ∀ i, h'.flash (addr + i) = h.flash (addr + i) &&& bytes i
  memory : h'.memory = h.memory

theorem and_ones (x : UInt8) : x &&& 0xff = x := by
  apply UInt8.toBitVec_inj.mp
  rw [UInt8.toBitVec_and]
  exact BitVec.and_allOnes

theorem Masks.trans {addr : UInt32} {bytes bytes' : Bytes} {h h' h'' : Hal}
    (first : Masks addr bytes h h') (second : Masks addr bytes' h' h'') :
    Masks addr (fun i => bytes i &&& bytes' i) h h'' :=
  ⟨fun i => by rw [second.flash, first.flash, UInt8.and_assoc], second.memory.trans first.memory⟩

theorem masks_none {addr : UInt32} {bytes : Bytes} (h : Hal) (none : ∀ i, bytes i = 0xff) :
    Masks addr bytes h h :=
  ⟨fun i => by rw [none, and_ones], rfl⟩

/-- A call of the flash that succeeded. -/
theorem flashWrite_masks {addr offset size : UInt32} {data bytes : Bytes} {h : Hal}
    (ok : (h.flashWrite offset data size).1 = true)
    (inside : ∀ i, addr + i - offset < size → data (addr + i - offset) = bytes i)
    (outside : ∀ i, ¬addr + i - offset < size → bytes i = 0xff) :
    Masks addr bytes h (h.flashWrite offset data size).2 := by
  rw [Hal.flashWrite] at ok ⊢
  cases fault : h.faults.headD none with
  | some junk =>
    rw [fault] at ok
    exact absurd ok (by simp)
  | none =>
    refine ⟨fun i => ?_, rfl⟩
    change mask offset size data h.flash (addr + i) = _
    rw [mask]
    split
    · rename_i here
      rw [inside i here]
    · rename_i elsewhere
      rw [outside i elsewhere, and_ones]

theorem Masks.shift {base : UInt32} {bytes bytes' : Bytes} {h h' : Hal}
    (masks : Masks base bytes h h') (addr : UInt32) (same : ∀ i, bytes' i = bytes (addr + i - base)) :
    Masks addr bytes' h h' := by
  refine ⟨fun i => ?_, masks.memory⟩
  have place : base + (addr + i - base) = addr + i := by grind
  have moved := masks.flash (addr + i - base)
  rw [place] at moved
  rw [same, moved]

theorem Masks.fetched {addr src size : UInt32} {bytes : Bytes} {h h' : Hal}
    (masks : Masks addr bytes (h.fetch src size).2 h') : Masks addr bytes h h' :=
  ⟨masks.flash, masks.memory⟩

/-- What the first part of a write programs. -/
def preBytes (memory : Bytes) (addr size src i : UInt32) : UInt8 :=
  if inPre addr i ∧ i < size then memory (src + i) else 0xff

theorem writePre_masks {addr size src : UInt32} {h : Hal}
    (ok : (h.writePre addr size src).1 = true) :
    Masks addr (preBytes h.memory addr size src) h (h.writePre addr size src).2 := by
  rw [Hal.writePre] at ok ⊢
  split
  · rename_i unaligned
    rw [if_pos unaligned] at ok
    have small : alignedBegin addr - addr ≤ 3 := by
      rw [UInt32.le_iff_toNat_le, toNat_difference, toNat_alignedBegin]
      rw [UInt32.lt_iff_toNat_lt, toNat_alignedBegin] at unaligned
      have bound := addr.toNat_lt
      change _ ≤ 3
      omega
    have place : ∀ i, addr + i - (alignedBegin addr - 4) - (4 - (alignedBegin addr - addr)) = i := by
      intro i
      grind
    have word : ∀ i, i < alignedBegin addr - addr →
        addr + i - (alignedBegin addr - 4) < 4 := by
      intro i inside
      have moved : addr + i - (alignedBegin addr - 4) = 4 - (alignedBegin addr - addr - i) := by
        grind
      rw [moved]
      generalize alignedBegin addr - addr = ofs at small inside ⊢
      rw [UInt32.lt_iff_toNat_lt] at inside ⊢
      rw [UInt32.le_iff_toNat_le] at small
      rw [toNat_difference, toNat_difference, show (4 : UInt32).toNat = 4 from rfl]
      change _ ≤ 3 at small
      omega
    have copied : ∀ i, i < (if size < alignedBegin addr - addr then size
        else alignedBegin addr - addr) ↔ i < alignedBegin addr - addr ∧ i < size := by
      intro i
      generalize alignedBegin addr - addr = ofs
      simp only [UInt32.lt_iff_toNat_lt]
      split <;> omega
    refine Masks.fetched (flashWrite_masks ok (fun i inside => ?_) fun i outside => ?_)
    · rw [put, place, preBytes]
      congr 1
      exact propext ((copied i).trans (and_congr_left fun _ => (and_iff_right unaligned).symm))
    · exact if_neg fun covered => outside (word i covered.1.2)
  · rename_i aligned
    refine masks_none h fun i => if_neg fun inside => aligned inside.1.1

/-- What the loop programs: behind each buffer the source steps four times as far. -/
def chunkBytes (memory : Bytes) (sizeLeft srcLeftover i : UInt32) : UInt8 :=
  if i < sizeLeft then memory (srcLeftover + i + 1536 * (i / 512)) else 0xff

theorem step_of_chunk (srcLeftover i round : UInt32) :
    srcLeftover + 4 * 512 + (i - 512) + 1536 * round = srcLeftover + i + 1536 * (round + 1) := by
  rw [← UInt32.toNat_inj]
  simp only [UInt32.toNat_add, UInt32.toNat_mul, UInt32.toNat_sub]
  rw [show (4 : UInt32).toNat = 4 from rfl, show (512 : UInt32).toNat = 512 from rfl,
    show (1536 : UInt32).toNat = 1536 from rfl, show (1 : UInt32).toNat = 1 from rfl]
  omega

theorem toNat_willCopy (sizeLeft : UInt32) : (if sizeLeft < Hal.unalignedWriteBufferSize
    then sizeLeft else Hal.unalignedWriteBufferSize).toNat = min sizeLeft.toNat 512 := by
  split
  · rename_i less
    rw [UInt32.lt_iff_toNat_lt] at less
    exact (Nat.min_eq_left (Nat.le_of_lt less)).symm
  · rename_i less
    rw [UInt32.lt_iff_toNat_lt] at less
    exact (Nat.min_eq_right (Nat.le_of_not_lt less)).symm

theorem chunkBytes_step (memory : Bytes) {sizeLeft willCopy : UInt32} (srcLeftover i : UInt32)
    (copies : willCopy.toNat = min sizeLeft.toNat 512) :
    (if i < willCopy then memory (srcLeftover + i) else 0xff) &&&
        chunkBytes memory (sizeLeft - willCopy) (srcLeftover + 4 * willCopy) (i - willCopy) =
      chunkBytes memory sizeLeft srcLeftover i := by
  have boundI := i.toNat_lt
  have boundS := sizeLeft.toNat_lt
  have rest : i - willCopy < sizeLeft - willCopy ↔ ¬i < willCopy ∧ i < sizeLeft := by
    rw [UInt32.lt_iff_toNat_lt, UInt32.lt_iff_toNat_lt, UInt32.lt_iff_toNat_lt, toNat_difference,
      toNat_difference]
    omega
  rw [chunkBytes, chunkBytes]
  by_cases first : i < willCopy
  · have inside : i < sizeLeft := by
      rw [UInt32.lt_iff_toNat_lt] at first ⊢
      omega
    have round : i / 512 = 0 := by
      rw [UInt32.lt_iff_toNat_lt] at first
      rw [← UInt32.toNat_inj, UInt32.toNat_div]
      exact Nat.div_eq_of_lt (by change _ < 512; omega)
    rw [if_pos first, if_neg fun more => (rest.1 more).1 first, if_pos inside, and_ones, round]
    congr 1
    grind
  · rw [if_neg first, UInt8.and_comm, and_ones]
    by_cases inside : i < sizeLeft
    · have whole : willCopy = 512 := by
        rw [UInt32.lt_iff_toNat_lt] at first inside
        rw [← UInt32.toNat_inj]
        change _ = 512
        omega
      have round : i / 512 = (i - 512) / 512 + 1 := by
        rw [whole, UInt32.lt_iff_toNat_lt] at first
        change ¬_ < 512 at first
        rw [← UInt32.toNat_inj, UInt32.toNat_add, UInt32.toNat_div, UInt32.toNat_div,
          toNat_difference]
        change i.toNat / 512 = ((i.toNat + 2 ^ 32 - 512) % 2 ^ 32 / 512 + 1) % 2 ^ 32
        omega
      rw [if_pos (rest.2 ⟨first, inside⟩), if_pos inside, whole, round, step_of_chunk]
    · rw [if_neg inside, if_neg fun more => inside (rest.1 more).2]

theorem writeChunks_masks (rounds : Nat) : ∀ (sizeLeft srcLeftover begin' : UInt32) {h : Hal},
    sizeLeft.toNat ≤ rounds → (h.writeChunks rounds sizeLeft srcLeftover begin').1 = true →
      Masks begin' (chunkBytes h.memory sizeLeft srcLeftover) h
        (h.writeChunks rounds sizeLeft srcLeftover begin').2 := by
  have empty : ∀ (sizeLeft srcLeftover begin' : UInt32) (h : Hal), sizeLeft = 0 →
      Masks begin' (chunkBytes h.memory sizeLeft srcLeftover) h h := by
    rintro _ srcLeftover begin' h rfl
    refine masks_none h fun i => if_neg ?_
    rw [UInt32.lt_iff_toNat_lt]
    exact Nat.not_lt_zero _
  induction rounds with
  | zero =>
    intro sizeLeft srcLeftover begin' h few ok
    exact empty _ _ _ h (UInt32.toNat_inj.1 (Nat.le_zero.1 few))
  | succ rounds ih =>
    intro sizeLeft srcLeftover begin' h few ok
    rw [Hal.writeChunks] at ok ⊢
    split
    · rename_i done
      exact empty _ _ _ h done
    · rename_i some
      rw [if_neg some] at ok
      simp only at ok ⊢
      generalize copies : (if sizeLeft < Hal.unalignedWriteBufferSize then sizeLeft
        else Hal.unalignedWriteBufferSize) = willCopy at ok ⊢
      split at ok
      · rename_i written
        rw [if_pos written]
        have copied : willCopy.toNat = min sizeLeft.toNat 512 := copies ▸ toNat_willCopy sizeLeft
        have first : Masks begin'
            (fun i => if i < willCopy then h.memory (srcLeftover + i) else 0xff) h
            ((h.fetch srcLeftover willCopy).2.flashWrite begin'
              (h.fetch srcLeftover willCopy).1 willCopy).2 := by
          have place : ∀ i, begin' + i - begin' = i := by
            intro i
            grind
          refine Masks.fetched (flashWrite_masks written (fun i inside => ?_) fun i outside => ?_)
          · rw [place] at inside ⊢
            exact (if_pos inside).symm
          · rw [place] at outside
            exact if_neg outside
        have fewer : (sizeLeft - willCopy).toNat ≤ rounds := by
          have positive : sizeLeft.toNat ≠ 0 := fun none => some (UInt32.toNat_inj.1 none)
          have bound := sizeLeft.toNat_lt
          rw [toNat_difference]
          omega
        have rest := ih (sizeLeft - willCopy) (srcLeftover + 4 * willCopy) (begin' + willCopy)
          fewer ok
        rw [first.memory] at rest
        have place : ∀ i, begin' + i - (begin' + willCopy) = i - willCopy := by
          intro i
          grind
        have both := first.trans (rest.shift begin' fun i => congrArg _ (place i).symm)
        exact ⟨fun i => (both.flash i).trans (congrArg _ (chunkBytes_step h.memory srcLeftover i
          copied)), both.memory⟩
      · exact absurd ok (by simp)

/-- Where the source for the whole words is misaligned, buffers behind the first come from further
on. -/
def drift (addr src i : UInt32) : UInt32 :=
  if (src + alignedBegin addr - addr) &&& 3 = 0 then 0
  else 1536 * ((i - (alignedBegin addr - addr)) / 512)

def middleBytes (memory : Bytes) (addr size src i : UInt32) : UInt8 :=
  if inMiddle addr size i then memory (src + i + drift addr src i) else 0xff

theorem writeMiddle_masks {addr size src : UInt32} {h : Hal}
    (ok : (h.writeMiddle addr size src).1 = true) :
    Masks addr (middleBytes h.memory addr size src) h (h.writeMiddle addr size src).2 := by
  have place : ∀ i, addr + i - alignedBegin addr = i - (alignedBegin addr - addr) := by
    intro i
    grind
  rw [Hal.writeMiddle] at ok ⊢
  split
  · rename_i some
    rw [if_pos some] at ok
    simp only at ok ⊢
    split
    · rename_i aligned
      rw [if_pos aligned] at ok
      have covered : ∀ i, inMiddle addr size i ↔
          addr + i - alignedBegin addr < alignedEnd addr size - alignedBegin addr := by
        intro i
        rw [place, inMiddle]
        exact and_iff_right some
      refine Masks.fetched (flashWrite_masks ok (fun i inside => ?_) fun i outside => ?_)
      · rw [middleBytes, if_pos ((covered i).2 inside), drift, if_pos aligned]
        exact congrArg h.memory (by grind)
      · exact if_neg fun inside => outside ((covered i).1 inside)
    · rename_i misaligned
      rw [if_neg misaligned] at ok
      refine (writeChunks_masks _ _ _ _ (Nat.le_refl _) ok).shift addr fun i => ?_
      rw [middleBytes, chunkBytes, place, drift, if_neg misaligned]
      by_cases inside : i - (alignedBegin addr - addr) < alignedEnd addr size - alignedBegin addr
      · rw [if_pos inside, if_pos ⟨some, inside⟩]
        exact congrArg h.memory (by grind)
      · rw [if_neg inside, if_neg fun covered => inside covered.2]
  · rename_i none
    exact masks_none h fun i => if_neg fun covered => none covered.1

def postBytes (memory : Bytes) (addr size src i : UInt32) : UInt8 :=
  if inPost addr size i then memory (src + i) else 0xff

theorem writePost_masks {addr size src : UInt32} {h : Hal}
    (ok : (h.writePost addr size src).1 = true) :
    Masks addr (postBytes h.memory addr size src) h (h.writePost addr size src).2 := by
  rw [Hal.writePost] at ok ⊢
  split
  · rename_i some
    rw [if_pos some] at ok
    have place : ∀ i, addr + i - alignedEnd addr size =
        i - (size - (addr + size - alignedEnd addr size)) := by
      intro i
      grind
    have small : addr + size - alignedEnd addr size ≤ 4 := by
      rw [UInt32.le_iff_toNat_le, toNat_difference, toNat_alignedEnd, UInt32.toNat_add]
      rw [UInt32.lt_iff_toNat_lt, toNat_alignedEnd, UInt32.toNat_add] at some
      change _ ≤ 4
      omega
    refine Masks.fetched (flashWrite_masks ok (fun i inside => ?_) fun i outside => ?_)
    · have start : addr + i - alignedEnd addr size - 0 =
          i - (size - (addr + size - alignedEnd addr size)) := by
        grind
      rw [put, start, postBytes]
      exact if_congr (and_iff_right some).symm (congrArg h.memory (by grind)) rfl
    · refine if_neg fun covered => outside ?_
      rw [place]
      exact UInt32.lt_of_lt_of_le covered.2 small
  · rename_i none
    exact masks_none h fun i => if_neg fun covered => none covered.1

/-- What a write programs. -/
def writtenBytes (memory : Bytes) (addr size src i : UInt32) : UInt8 :=
  (preBytes memory addr size src i &&& middleBytes memory addr size src i) &&&
    postBytes memory addr size src i

theorem flashHalWrite_masks {addr size src : UInt32} {h : Hal}
    (ok : (h.flashHalWrite addr size src).1 = flashHalOk) :
    Masks addr (writtenBytes h.memory addr size src) h (h.flashHalWrite addr size src).2 := by
  have differ : flashHalWriteError ≠ flashHalOk := by decide
  rw [Hal.flashHalWrite] at ok ⊢
  simp only at ok ⊢
  split at ok
  · rename_i pre
    split at ok
    · rename_i middle
      split at ok
      · rename_i post
        rw [if_pos pre, if_pos middle, if_pos post]
        have first := writePre_masks pre
        have second := writeMiddle_masks middle
        have third := writePost_masks post
        rw [second.memory, first.memory] at third
        rw [first.memory] at second
        exact (first.trans second).trans third
      · exact absurd ok differ
    · exact absurd ok differ
  · exact absurd ok differ

/-- What a write covers: the first part stops at the end of the range. -/
def coversWrite (addr size i : UInt32) : Prop :=
  ((inPre addr i ∧ i < size) ∨ inMiddle addr size i) ∨ inPost addr size i

instance (addr size i : UInt32) : Decidable (coversWrite addr size i) :=
  inferInstanceAs (Decidable (_ ∨ _))

theorem and_parts (p m q : Prop) [Decidable p] [Decidable m] [Decidable q] (x : UInt8) :
    ((if p then x else 0xff) &&& (if m then x else 0xff)) &&& (if q then x else 0xff) =
      if (p ∨ m) ∨ q then x else 0xff := by
  by_cases p <;> by_cases m <;> by_cases q <;> simp [*, and_ones, UInt8.and_comm (0xff : UInt8)]

/-- Where the source of the whole words does not drift, a write programs what it covers. -/
theorem writtenBytes_eq {memory : Bytes} {addr size src i : UInt32}
    (straight : inMiddle addr size i →
      memory (src + i + drift addr src i) = memory (src + i)) :
    writtenBytes memory addr size src i =
      if coversWrite addr size i then memory (src + i) else 0xff := by
  have middle : middleBytes memory addr size src i =
      if inMiddle addr size i then memory (src + i) else 0xff := by
    rw [middleBytes]
    split
    · rename_i inside
      exact straight inside
    · rfl
  rw [writtenBytes, preBytes, middle, postBytes]
  exact and_parts _ _ _ _

theorem coversWrite_range {addr size : UInt32} (last : addr.toNat + 3 < 2 ^ 32)
    (whole : addr.toNat + size.toNat < 2 ^ 32) (i : UInt32) :
    coversWrite addr size i ↔ i < size := by
  by_cases reaches : addr.toNat % 4 = 0 ∨ 4 - addr.toNat % 4 ≤ size.toNat
  · have range := covers_range whole reaches i
    refine ⟨fun covered => range.1 ?_, fun inside => ?_⟩
    · rcases covered with (pre | middle) | post
      · exact Or.inl (Or.inl pre.1)
      · exact Or.inl (Or.inr middle)
      · exact Or.inr post
    · rcases range.2 inside with (pre | middle) | post
      · exact Or.inl (Or.inl ⟨pre, inside⟩)
      · exact Or.inl (Or.inr middle)
      · exact Or.inr post
  · have same : alignedEnd addr size = alignedBegin addr := by
      rw [← UInt32.toNat_inj, toNat_alignedEnd, toNat_alignedBegin]
      omega
    have short : ¬alignedEnd addr size < addr + size := by
      rw [UInt32.lt_iff_toNat_lt, toNat_alignedEnd, UInt32.toNat_add]
      omega
    have word : i < size → inPre addr i := by
      intro inside
      rw [inPre, UInt32.lt_iff_toNat_lt, UInt32.lt_iff_toNat_lt, toNat_difference,
        toNat_alignedBegin]
      rw [UInt32.lt_iff_toNat_lt] at inside
      omega
    refine ⟨fun covered => ?_, fun inside => Or.inl (Or.inl ⟨word inside, inside⟩)⟩
    rcases covered with (pre | middle) | post
    · exact pre.2
    · exact absurd same middle.1
    · exact absurd post.1 short

theorem range_of_coversWrite {addr size : UInt32}
    (exact : ∀ i, coversWrite addr size i ↔ i < size) :
    addr.toNat + 3 < 2 ^ 32 ∧ addr.toNat + size.toNat < 2 ^ 32 := by
  have covered : ∀ i, i < size → covers addr size i := by
    intro i inside
    rcases (exact i).2 inside with (pre | middle) | post
    · exact Or.inl (Or.inl pre.1)
    · exact Or.inl (Or.inr middle)
    · exact Or.inr post
  have boundA := addr.toNat_lt
  have boundS := size.toNat_lt
  have last : addr.toNat + 3 < 2 ^ 32 := by
    by_contra wraps
    have front : ∀ i, ¬inPre addr i := by
      intro i pre
      have before := pre.1
      rw [UInt32.lt_iff_toNat_lt, toNat_alignedBegin] at before
      omega
    have range := range_of_covers fun i => ⟨fun covers => (exact i).1 ?_, covered i⟩
    · omega
    · rcases covers with (pre | middle) | post
      · exact absurd pre (front i)
      · exact Or.inl (Or.inr middle)
      · exact Or.inr post
  refine ⟨last, ?_⟩
  by_contra wraps
  have final := covered (size - 1)
  rw [covers_toNat addr size _ _ _ _ _ rfl rfl rfl rfl, UInt32.lt_iff_toNat_lt, toNat_difference,
    show (1 : UInt32).toNat = 1 from rfl] at final
  generalize addr.toNat = A at *
  generalize size.toNat = S at *
  omega

/-! ### What is read of the memory -/

/-- Every read was made before, or is allowed. -/
def Reads (allowed : UInt32 × UInt32 → Prop) (h h' : Hal) : Prop :=
  ∀ r ∈ h'.reads, r ∈ h.reads ∨ allowed r

variable {allowed : UInt32 × UInt32 → Prop}

theorem Reads.refl (h : Hal) : Reads allowed h h := fun _ member => Or.inl member

theorem Reads.trans {h h' h'' : Hal} (first : Reads allowed h h') (second : Reads allowed h' h'') :
    Reads allowed h h'' := by
  intro r member
  rcases second r member with before | now
  · exact first r before
  · exact Or.inr now

theorem flashWrite_reads (offset : UInt32) (data : Bytes) (size : UInt32) (h : Hal) :
    (h.flashWrite offset data size).2.reads = h.reads := by
  rw [Hal.flashWrite]
  split <;> rfl

/-- Bytes are fetched and written. -/
theorem fetched_reads {src size offset length : UInt32} {data : Bytes} {h : Hal}
    (inside : allowed (src, size)) :
    Reads allowed h ((h.fetch src size).2.flashWrite offset data length).2 := by
  intro r member
  rw [flashWrite_reads] at member
  rcases List.mem_cons.1 member with rfl | before
  · exact Or.inr inside
  · exact Or.inl before

theorem writePre_reads {addr size src : UInt32} {h : Hal}
    (inside : addr < alignedBegin addr → allowed (src,
      if size < alignedBegin addr - addr then size else alignedBegin addr - addr)) :
    Reads allowed h (h.writePre addr size src).2 := by
  rw [Hal.writePre]
  split
  · rename_i unaligned
    exact fetched_reads (inside unaligned)
  · exact .refl h

/-- One buffer is enough for 512 bytes. -/
theorem writeChunks_reads {rounds : Nat} {sizeLeft srcLeftover begin' : UInt32} {h : Hal}
    (small : sizeLeft ≤ 512) (inside : allowed (srcLeftover, sizeLeft)) :
    Reads allowed h (h.writeChunks rounds sizeLeft srcLeftover begin').2 := by
  have whole : (if sizeLeft < Hal.unalignedWriteBufferSize then sizeLeft
      else Hal.unalignedWriteBufferSize) = sizeLeft := by
    rw [← UInt32.toNat_inj, toNat_willCopy]
    exact Nat.min_eq_left (UInt32.le_iff_toNat_le.1 small)
  have done : ∀ (rounds : Nat) (srcLeftover begin' : UInt32) (h : Hal),
      (h.writeChunks rounds 0 srcLeftover begin').2 = h := by
    intro rounds srcLeftover begin' h
    cases rounds <;> rfl
  cases rounds with
  | zero => exact .refl h
  | succ rounds =>
    rw [Hal.writeChunks]
    split
    · exact .refl h
    · simp only [whole, UInt32.sub_self]
      split
      · rw [done]
        exact fetched_reads inside
      · exact fetched_reads inside

theorem writeMiddle_reads {addr size src : UInt32} {h : Hal}
    (straight : (src + alignedBegin addr - addr) &&& 3 = 0 ∨
      alignedEnd addr size - alignedBegin addr ≤ 512)
    (inside : alignedEnd addr size ≠ alignedBegin addr → allowed (src + alignedBegin addr - addr,
      alignedEnd addr size - alignedBegin addr)) :
    Reads allowed h (h.writeMiddle addr size src).2 := by
  rw [Hal.writeMiddle]
  split
  · rename_i some
    simp only
    split
    · exact fetched_reads (inside some)
    · rename_i misaligned
      exact writeChunks_reads (straight.resolve_left misaligned) (inside some)
  · exact .refl h

theorem writePost_reads {addr size src : UInt32} {h : Hal}
    (inside : alignedEnd addr size < addr + size → allowed (src + size -
      (addr + size - alignedEnd addr size), addr + size - alignedEnd addr size)) :
    Reads allowed h (h.writePost addr size src).2 := by
  rw [Hal.writePost]
  split
  · rename_i some
    exact fetched_reads (inside some)
  · exact .refl h

/-- The bytes lie within the source. -/
def Within (src size : UInt32) (r : UInt32 × UInt32) : Prop :=
  ∀ i, i < r.2 → r.1 + i - src < size

theorem flashHalWrite_reads {addr size src : UInt32} (h : Hal) (last : addr.toNat + 3 < 2 ^ 32)
    (whole : addr.toNat + size.toNat < 2 ^ 32)
    (straight : (src + alignedBegin addr - addr) &&& 3 = 0 ∨
      alignedEnd addr size - alignedBegin addr ≤ 512) :
    Reads (Within src size) h (h.flashHalWrite addr size src).2 := by
  have pre : ∀ h : Hal, Reads (Within src size) h (h.writePre addr size src).2 := by
    intro h
    refine writePre_reads fun unaligned i inside => ?_
    have place : src + i - src = i := by grind
    rw [place]
    dsimp only at inside
    split at inside
    · exact inside
    · rename_i long
      rw [UInt32.lt_iff_toNat_lt] at inside long ⊢
      omega
  have middle : ∀ h : Hal, Reads (Within src size) h (h.writeMiddle addr size src).2 := by
    intro h
    refine writeMiddle_reads straight fun some i inside => ?_
    have place : src + alignedBegin addr - addr + i - src = i + (alignedBegin addr - addr) := by
      grind
    rw [Ne, ← UInt32.toNat_inj, toNat_alignedEnd, toNat_alignedBegin] at some
    dsimp only at inside ⊢
    rw [place]
    rw [UInt32.lt_iff_toNat_lt, toNat_difference, toNat_alignedEnd, toNat_alignedBegin] at inside
    rw [UInt32.lt_iff_toNat_lt, UInt32.toNat_add, toNat_difference, toNat_alignedBegin]
    omega
  have post : ∀ h : Hal, Reads (Within src size) h (h.writePost addr size src).2 := by
    intro h
    refine writePost_reads fun some i inside => ?_
    have place : src + size - (addr + size - alignedEnd addr size) + i - src =
        i + (size - (addr + size - alignedEnd addr size)) := by
      grind
    rw [UInt32.lt_iff_toNat_lt, toNat_alignedEnd, UInt32.toNat_add] at some
    dsimp only at inside ⊢
    rw [place]
    rw [UInt32.lt_iff_toNat_lt, toNat_difference, toNat_alignedEnd, UInt32.toNat_add] at inside
    rw [UInt32.lt_iff_toNat_lt, UInt32.toNat_add, toNat_difference, toNat_difference,
      toNat_alignedEnd, UInt32.toNat_add]
    rw [Nat.mod_eq_of_lt whole] at some inside ⊢
    generalize addr.toNat = A at *
    generalize size.toNat = S at *
    generalize i.toNat = I at *
    clear middle pre place
    omega
  rw [Hal.flashHalWrite]
  simp only
  split
  · split
    · split <;> exact ((pre h).trans (middle _)).trans (post _)
    · exact (pre h).trans (middle _)
  · exact pre h

/-! ### Exactness -/

theorem flashWrite_ok (offset : UInt32) (data : Bytes) (size : UInt32) {h : Hal}
    (faults : h.faults = []) : (h.flashWrite offset data size).1 = true ∧
      (h.flashWrite offset data size).2.faults = [] := by
  rw [Hal.flashWrite, faults]
  exact ⟨rfl, rfl⟩

/-- Where no call of the flash fails, writing succeeds. -/
theorem flashHalWrite_ok (addr size src : UInt32) {h : Hal} (faults : h.faults = []) :
    (h.flashHalWrite addr size src).1 = flashHalOk := by
  have chunks : ∀ (rounds : Nat) (sizeLeft srcLeftover begin' : UInt32) (h : Hal), h.faults = [] →
      (h.writeChunks rounds sizeLeft srcLeftover begin').1 = true ∧
        (h.writeChunks rounds sizeLeft srcLeftover begin').2.faults = [] := by
    intro rounds
    induction rounds with
    | zero => intro sizeLeft srcLeftover begin' h faults; exact ⟨rfl, faults⟩
    | succ rounds ih =>
      intro sizeLeft srcLeftover begin' h faults
      rw [Hal.writeChunks]
      split
      · exact ⟨rfl, faults⟩
      · simp only
        generalize (if sizeLeft < Hal.unalignedWriteBufferSize then sizeLeft
          else Hal.unalignedWriteBufferSize) = willCopy
        have written := flashWrite_ok begin' (h.fetch srcLeftover willCopy).1 willCopy
          (h := (h.fetch srcLeftover willCopy).2) faults
        rw [if_pos written.1]
        exact ih _ _ _ _ written.2
  have pre : (h.writePre addr size src).1 = true ∧ (h.writePre addr size src).2.faults = [] := by
    rw [Hal.writePre]
    split
    · exact flashWrite_ok _ _ _ faults
    · exact ⟨rfl, faults⟩
  have middle : ∀ h : Hal, h.faults = [] → (h.writeMiddle addr size src).1 = true ∧
      (h.writeMiddle addr size src).2.faults = [] := by
    intro h faults
    rw [Hal.writeMiddle]
    split
    · simp only
      split
      · exact flashWrite_ok _ _ _ faults
      · exact chunks _ _ _ _ h faults
    · exact ⟨rfl, faults⟩
  have post : ∀ h : Hal, h.faults = [] → (h.writePost addr size src).1 = true ∧
      (h.writePost addr size src).2.faults = [] := by
    intro h faults
    rw [Hal.writePost]
    split
    · exact flashWrite_ok _ _ _ faults
    · exact ⟨rfl, faults⟩
  have first := middle _ pre.2
  rw [Hal.flashHalWrite]
  simp only
  rw [if_pos pre.1, if_pos first.1, if_pos (post _ first.2).1]

/-- A write that says it succeeded clears in each byte of the range the bits that its byte has
not, changes no other byte, and reads within its source. -/
def WriteExact (addr size src : UInt32) : Prop :=
  ∀ h : Hal, (h.flashHalWrite addr size src).1 = flashHalOk →
    (∀ i, (h.flashHalWrite addr size src).2.flash (addr + i) =
      if i < size then h.flash (addr + i) &&& h.memory (src + i) else h.flash (addr + i)) ∧
    ∀ r ∈ (h.flashHalWrite addr size src).2.reads, r ∈ h.reads ∨ Within src size r

/-- What a write programs when it is exact. -/
theorem writtenBytes_of_exact {addr size src : UInt32} (exact : WriteExact addr size src)
    (memory : Bytes) (i : UInt32) : writtenBytes memory addr size src i =
      if i < size then memory (src + i) else 0xff := by
  obtain ⟨h, flash, same, ok⟩ : ∃ h : Hal, h.flash = (fun _ => 0xff) ∧ h.memory = memory ∧
      (h.flashHalWrite addr size src).1 = flashHalOk :=
    ⟨⟨fun _ => 0xff, memory, [], []⟩, rfl, rfl, flashHalWrite_ok addr size src rfl⟩
  have result := (exact h ok).1 i
  rw [(flashHalWrite_masks ok).flash i, flash, same] at result
  have ones : ∀ x : UInt8, 0xff &&& x = x := fun x => by rw [UInt8.and_comm, and_ones]
  rw [ones, ones] at result
  exact result

/-- The second buffer comes from the wrong place. -/
theorem drift_second {addr size src : UInt32} (last : addr.toNat + 3 < 2 ^ 32)
    (whole : addr.toNat + size.toNat < 2 ^ 32)
    (misaligned : (src + alignedBegin addr - addr) &&& 3 ≠ 0)
    (long : 512 < alignedEnd addr size - alignedBegin addr) : ∃ i memory, i < size ∧
      memory (src + i) = 0 ∧ writtenBytes memory addr size src i = 0xff := by
  refine ⟨alignedBegin addr - addr + 512, fun a =>
    if a = src + (alignedBegin addr - addr + 512) then 0 else 0xff, ?_, if_pos rfl, ?_⟩
  · rw [UInt32.lt_iff_toNat_lt, toNat_difference, toNat_alignedEnd, toNat_alignedBegin] at long
    rw [UInt32.lt_iff_toNat_lt, UInt32.toNat_add, toNat_difference, toNat_alignedBegin]
    change 512 < _ at long
    change (_ + 512) % _ < _
    omega
  · generalize place : alignedBegin addr - addr + 512 = i
    have front : ¬inPre addr i := by
      intro pre
      have inside := pre.2
      rw [← place, UInt32.lt_iff_toNat_lt, UInt32.toNat_add, toNat_difference,
        toNat_alignedBegin] at inside
      change (_ + 512) % _ < _ at inside
      omega
    have back : ¬inPost addr size i := by
      intro post
      obtain ⟨some, inside⟩ := post
      rw [UInt32.lt_iff_toNat_lt, toNat_difference, toNat_alignedEnd, toNat_alignedBegin] at long
      rw [UInt32.lt_iff_toNat_lt, toNat_alignedEnd, UInt32.toNat_add] at some
      rw [← place, UInt32.lt_iff_toNat_lt, toNat_difference, toNat_difference, toNat_difference,
        UInt32.toNat_add, UInt32.toNat_add, toNat_difference, toNat_alignedBegin,
        toNat_alignedEnd] at inside
      change 512 < _ at long
      change ((_ + 512) % _ + _ - _) % _ < _ at inside
      rw [Nat.mod_eq_of_lt whole] at long some inside
      omega
    have second : drift addr src i = 1536 := by
      have round : i - (alignedBegin addr - addr) = 512 := by grind
      rw [drift, if_neg misaligned, round]
      rfl
    have further : src + i + 1536 ≠ src + i := by
      intro same
      have zero : (1536 : UInt32) = 0 := by grind
      exact absurd zero (by decide)
    rw [writtenBytes, preBytes, if_neg fun pre => front pre.1, postBytes, if_neg back, middleBytes,
      second]
    simp only [if_neg further]
    split <;> rfl

theorem writeExact_iff (addr size src : UInt32) : WriteExact addr size src ↔
    addr.toNat + 3 < 2 ^ 32 ∧ addr.toNat + size.toNat < 2 ^ 32 ∧
      ((src + alignedBegin addr - addr) &&& 3 = 0 ∨
        alignedEnd addr size - alignedBegin addr ≤ 512) := by
  constructor
  · intro exact
    have written := writtenBytes_of_exact exact
    have range : addr.toNat + 3 < 2 ^ 32 ∧ addr.toNat + size.toNat < 2 ^ 32 := by
      refine range_of_coversWrite fun i => ?_
      have zeros := written (fun _ => 0) i
      rw [writtenBytes_eq fun _ => rfl] at zeros
      by_cases inside : i < size
      · refine iff_of_true ?_ inside
        by_contra outside
        rw [if_neg outside, if_pos inside] at zeros
        exact absurd zeros (by decide)
      · refine iff_of_false ?_ inside
        intro covered
        rw [if_pos covered, if_neg inside] at zeros
        exact absurd zeros (by decide)
    refine ⟨range.1, range.2, ?_⟩
    by_contra fails
    rw [not_or] at fails
    obtain ⟨i, memory, inside, zero, ones⟩ := drift_second range.1 range.2 fails.1
      (UInt32.not_le.1 fails.2)
    have result := written memory i
    rw [ones, if_pos inside, zero] at result
    exact absurd result (by decide)
  · intro ⟨last, whole, straight⟩ h ok
    refine ⟨fun i => ?_, flashHalWrite_reads h last whole straight⟩
    have near : inMiddle addr size i → drift addr src i = 0 := by
      intro inside
      rw [drift]
      split
      · rfl
      · rename_i misaligned
        have first : i - (alignedBegin addr - addr) < 512 :=
          UInt32.lt_of_lt_of_le inside.2 (straight.resolve_left misaligned)
        have round : (i - (alignedBegin addr - addr)) / 512 = 0 := by
          rw [← UInt32.toNat_inj, UInt32.toNat_div]
          exact Nat.div_eq_of_lt (UInt32.lt_iff_toNat_lt.1 first)
        rw [round]
        rfl
    have bytes : writtenBytes h.memory addr size src i =
        if i < size then h.memory (src + i) else 0xff := by
      rw [writtenBytes_eq fun inside => by rw [near inside, UInt32.add_zero]]
      exact if_congr (coversWrite_range last whole i) rfl rfl
    rw [(flashHalWrite_masks ok).flash i, bytes]
    split
    · rfl
    · exact and_ones _

/-- When transfers through `flash_hal_read` and `flash_hal_write` are exact. -/
theorem flash_hal_exact (addr size dst src : UInt32) :
    (ReadExact addr size dst ↔ addr.toNat + size.toNat < 2 ^ 32 ∧
      (addr.toNat % 4 = 0 ∨ 4 - addr.toNat % 4 ≤ size.toNat)) ∧
    (WriteExact addr size src ↔ addr.toNat + 3 < 2 ^ 32 ∧ addr.toNat + size.toNat < 2 ^ 32 ∧
      ((src + alignedBegin addr - addr) &&& 3 = 0 ∨
        alignedEnd addr size - alignedBegin addr ≤ 512)) :=
  ⟨readExact_iff addr size dst, writeExact_iff addr size src⟩

/-- One byte read from the middle of a word sets three bytes, and 1024 bytes written from
misaligned memory are not those of the source. -/
theorem flash_hal_inexact : ¬ReadExact 1 1 0 ∧ ¬WriteExact 0 1024 1 := by
  constructor
  · rw [readExact_iff]
    decide
  · rw [writeExact_iff]
    decide

end Esp8266.Source.FlashHal
