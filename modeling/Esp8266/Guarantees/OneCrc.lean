import Esp8266.Source.ImageCrc

/-!
# One CRC on both sides of the build

The sketch core, eboot and elf2bin compute one function; an image that `add_crc` finished passes
the check, and no burst of up to 32 bits in it does.
-/
set_option autoImplicit false

namespace Esp8266.Source.ImageCrc
open Esp8266.Lib.ShiftRegister Esp8266.Lib.NorFlash Esp8266.Lib.Word32 Esp8266.Source.Crc

theorem bitsOf_append (xs ys : List UInt8) : bitsOf (xs ++ ys) = bitsOf xs ++ bitsOf ys :=
  List.flatMap_append

@[simp] theorem length_bitsOf (xs : List UInt8) : (bitsOf xs).length = 8 * xs.length := by
  induction xs with
  | nil => rfl
  | cons x rest ih =>
    rw [bitsOf_cons, List.length_append, ih, List.length_cons]
    simp [msbBits]
    omega

theorem msbBits_injective {c d : UInt8} (same : msbBits c = msbBits d) : c = d := by
  apply UInt8.toNat_inj.mp
  apply Nat.eq_of_testBit_eq
  intro k
  by_cases small : k < 8
  · have member : k ∈ (List.range 8).reverse := by simp [small]
    exact List.map_inj_left.mp same k member
  · have high : ∀ x : UInt8, x.toNat.testBit k = false := by
      intro x
      apply Nat.testBit_lt_two_pow
      exact Nat.lt_of_lt_of_le x.toNat_lt (Nat.pow_le_pow_right (by decide) (by omega))
    rw [high, high]

theorem bitsOf_injective (xs : List UInt8) : ∀ ys, bitsOf xs = bitsOf ys → xs = ys := by
  induction xs with
  | nil =>
    intro ys same
    cases ys with
    | nil => rfl
    | cons y others =>
      have := congrArg List.length same
      rw [length_bitsOf, length_bitsOf] at this
      simp at this
  | cons x rest ih =>
    intro ys same
    cases ys with
    | nil =>
      have := congrArg List.length same
      rw [length_bitsOf, length_bitsOf] at this
      simp at this
    | cons y others =>
      rw [bitsOf_cons, bitsOf_cons] at same
      obtain ⟨first, second⟩ := List.append_inj same (by simp [msbBits])
      rw [msbBits_injective first, ih others second]

/-- A change of an image: its bits, most significant bit of each byte first, differ within 32
consecutive places, none of them in the two stored words. -/
structure Burst (raw changed : List UInt8) : Prop where
  differs : changed ≠ raw
  length : changed.length = raw.length
  within : ∃ k, ∀ i, (bitsOf raw)[i]? ≠ (bitsOf changed)[i]? → k ≤ i ∧ i < k + 32
  outside : ∀ i, 8 * crcsizeOffset ≤ i → i < 8 * 4096 →
    (bitsOf raw)[i]? = (bitsOf changed)[i]?

theorem Cut.bits_outside (cut : Cut) (i : Nat) (away : i < 8 * crcsizeOffset ∨ 8 * 4096 ≤ i) :
    (bitsOf cut.cleared)[i]? = (bitsOf cut.image)[i]? := by
  have boot := cut.boot_length
  simp only [Cut.cleared, Cut.image, bitsOf_append, crcsizeOffset] at *
  rcases away with before | after
  · rw [List.getElem?_append_left (by simp; omega), List.getElem?_append_left (by simp; omega),
      List.getElem?_append_left (by simp; omega), List.getElem?_append_left (by simp; omega),
      List.getElem?_append_left (by simp; omega)]
  · rw [List.getElem?_append_right (by simp; omega), List.getElem?_append_right
      (by simp [cut.size_length, cut.crc_length]; omega)]
    congr 1
    simp [cut.size_length, cut.crc_length]

theorem Cut.bits_words (cut : Cut) :
    bitsOf (cut.size ++ cut.crc) = ((bitsOf cut.image).drop (8 * crcsizeOffset)).take 64 := by
  have start : (bitsOf cut.boot).length = 8 * crcsizeOffset := by
    rw [length_bitsOf, cut.boot_length]
  have words : (bitsOf (cut.size ++ cut.crc)).length = 64 := by
    simp [cut.size_length, cut.crc_length]
  have image : bitsOf cut.image = bitsOf cut.boot ++ (bitsOf (cut.size ++ cut.crc) ++
      bitsOf cut.rest) := by
    simp only [Cut.image, bitsOf_append, List.append_assoc]
  rw [image, List.drop_left' start, List.take_left' words]

/-- A burst leaves the two stored words alone. -/
theorem Burst.words {cut changed : Cut} (burst : Burst cut.image changed.image) :
    changed.size = cut.size ∧ changed.crc = cut.crc := by
  have bits : bitsOf (changed.size ++ changed.crc) = bitsOf (cut.size ++ cut.crc) := by
    rw [Cut.bits_words, Cut.bits_words]
    apply List.ext_getElem?
    intro i
    rw [List.getElem?_take, List.getElem?_take]
    split
    · rw [List.getElem?_drop, List.getElem?_drop]
      exact (burst.outside _ (by omega) (by simp [crcsizeOffset]; omega)).symm
    · rfl
  exact List.append_inj (bitsOf_injective _ _ bits) (by rw [cut.size_length, changed.size_length])

theorem Burst.cleared_ne {cut changed : Cut} (burst : Burst cut.image changed.image) :
    changed.cleared ≠ cut.cleared := by
  intro same
  obtain ⟨size, crc⟩ := burst.words
  obtain ⟨front, rest⟩ := List.append_inj same (by simp [cut.boot_length, changed.boot_length])
  have boot := (List.append_inj front (by rw [cut.boot_length, changed.boot_length])).1
  apply burst.differs
  rw [Cut.image, Cut.image, boot, size, crc, rest]

/-- The cleared image carries the burst, so its CRC changes. -/
theorem Burst.crc32_ne {cut changed : Cut} (burst : Burst cut.image changed.image)
    (crc : UInt32) : crc32 changed.cleared crc ≠ crc32 cut.cleared crc := by
  intro same
  obtain ⟨k, within⟩ := burst.within
  apply burst.cleared_ne
  apply bitsOf_injective
  apply (burst_detected_at poly crc.toBitVec (by decide) _ _ k _ _ _).symm
  · have images := burst.length
    rw [Cut.length_image, Cut.length_image] at images
    simp [Cut.cleared, cut.boot_length, changed.boot_length]
    omega
  · intro i differ
    by_cases away : i < 8 * crcsizeOffset ∨ 8 * 4096 ≤ i
    · rw [cut.bits_outside i away, changed.bits_outside i away] at differ
      exact within i differ
    · exfalso
      apply differ
      have words : ∀ c : Cut, (bitsOf c.cleared)[i]? =
          (bitsOf (List.replicate 8 (0 : UInt8)))[i - 8 * crcsizeOffset]? := by
        intro c
        have boot := c.boot_length
        simp only [crcsizeOffset] at *
        rw [Cut.cleared, bitsOf_append, bitsOf_append, List.getElem?_append_left
          (by simp; omega), List.getElem?_append_right (by simp; omega), length_bitsOf, boot]
      rw [words, words]
  · rw [← crc32_feed, ← crc32_feed, same]

/-- Every burst in an image that `add_crc` finished is reported. -/
theorem checkFlashCRC_burst (mem : Nat → UInt8) (raw changed : List UInt8)
    (large : 4096 ≤ raw.length) (burst : Burst (addCrc raw) changed)
    (holds : Holds mem changed) : checkFlashCRC mem = false := by
  obtain ⟨cut, rfl⟩ := Cut.exists_image raw large
  rw [addCrc_eq] at burst
  have length := burst.length
  rw [Cut.withWords_length] at length
  obtain ⟨altered, rfl⟩ := Cut.exists_image changed (by omega)
  obtain ⟨size, crc⟩ := burst.words
  rw [checkFlashCRC_eq mem altered holds (by rw [size, length]; rfl),
    crcWord_eq mem altered holds _ crc, crc8266_eq, UInt32.ofNat_toNat]
  exact beq_eq_false_iff_ne.mpr (burst.crc32_ne _)

/-- **One CRC.** The three implementations agree, in pieces and whole; `add_crc` is idempotent
and its result is accepted; every burst of at most 32 bits outside of the two words is not. -/
theorem one_crc :
    (∀ data crc, crcUpdate crc data = crc32 data crc) ∧
    (∀ data, crc8266 data = (crc32 data 0xffffffff).toNat) ∧
    (∀ (pieces : List (List UInt8)) crc, pieces.foldl (fun crc piece => crc32 piece crc) crc =
      crc32 pieces.flatten crc) ∧
    (∀ (pieces : List (List UInt8)) crc, pieces.foldl crcUpdate crc = crcUpdate crc pieces.flatten) ∧
    ∀ raw : List UInt8, 4096 ≤ raw.length →
      addCrc (addCrc raw) = addCrc raw ∧
      (∀ mem, Holds mem (addCrc raw) → checkFlashCRC mem = true) ∧
      (∀ mem changed, Burst (addCrc raw) changed → Holds mem changed →
        checkFlashCRC mem = false) := by
  refine ⟨fun data crc => crcUpdate_eq data crc, crc8266_eq, crc32_pieces, ?_, ?_⟩
  · intro pieces crc
    rw [crcUpdate_eq, ← crc32_pieces]
    exact List.foldl_ext _ _ crc fun crc piece _ => crcUpdate_eq piece crc
  · intro raw large
    exact ⟨addCrc_idempotent raw large, fun mem => checkFlashCRC_addCrc mem raw large,
      fun mem changed => checkFlashCRC_burst mem raw changed large⟩

end Esp8266.Source.ImageCrc
