import Esp8266.Lib.NorFlash
import Esp8266.Lib.Word32
import Esp8266.Source.Crc

/-!
# The CRC stored in the image

tools/elf2bin.py:103-142 stores the length and the CRC of the finished image in the last two
words of the boot sector; EspClass::checkFlashCRC (Esp.cpp:455) computes it again from the
mapped flash. Both sides take the two stored words as zero.
-/
set_option autoImplicit false

namespace Esp8266.Source.ImageCrc
open Esp8266.Lib.ShiftRegister Esp8266.Lib.NorFlash Esp8266.Lib.Word32 Esp8266.Source.Crc

def crcsizeOffset : Nat := 4088
def crcvalOffset : Nat := 4092

/-- elf2bin.py:122. -/
def storeWord (raw : List UInt8) (offset val : Nat) : List UInt8 :=
  let raw := raw.set offset (UInt8.ofNat (val &&& 255))
  let raw := raw.set (offset + 1) (UInt8.ofNat ((val >>> 8) &&& 255))
  let raw := raw.set (offset + 2) (UInt8.ofNat ((val >>> 16) &&& 255))
  raw.set (offset + 3) (UInt8.ofNat ((val >>> 24) &&& 255))

/-- elf2bin.py:130, from the bytes read to the bytes written back. -/
def addCrc (raw : List UInt8) : List UInt8 :=
  let raw := storeWord raw crcsizeOffset 0
  let raw := storeWord raw crcvalOffset 0
  let crc := crc8266 raw
  let raw := storeWord raw crcsizeOffset raw.length
  storeWord raw crcvalOffset crc

/-- A word of mapped memory. -/
def readWord (mem : Nat → UInt8) (addr : Nat) : UInt32 :=
  UInt32.ofNat (wordOf (mem addr) (mem (addr + 1)) (mem (addr + 2)) (mem (addr + 3)))

/-- The address at which the flash is mapped. -/
def progmem : Nat := 0x40200000

/-- Esp.cpp:455. -/
def checkFlashCRC (mem : Nat → UInt8) : Bool :=
  let flashsize := readWord mem (progmem + 4088)
  let flashcrc := readWord mem (progmem + 4092)
  let z := List.replicate 8 (0 : UInt8)
  let crc := crc32 (readRange mem progmem (4096 - 8)) 0xffffffff
  let crc := crc32 z crc
  let crc := crc32 (readRange mem (progmem + 4096) (flashsize - 4096).toNat) crc
  crc == flashcrc

/-! ## The image around the two words -/

/-- An image cut at the two words in the last eight bytes of the boot sector. -/
structure Cut where
  boot : List UInt8
  size : List UInt8
  crc : List UInt8
  rest : List UInt8
  boot_length : boot.length = crcsizeOffset
  size_length : size.length = 4
  crc_length : crc.length = 4

namespace Cut

def image (cut : Cut) : List UInt8 := cut.boot ++ cut.size ++ cut.crc ++ cut.rest

/-- What both sides feed to the CRC: the image with the two words taken as zero. -/
def cleared (cut : Cut) : List UInt8 := cut.boot ++ List.replicate 8 0 ++ cut.rest

def withWords (cut : Cut) (size crc : Nat) : Cut :=
  { cut with
    size := wordBytes size
    crc := wordBytes crc
    size_length := rfl
    crc_length := rfl }

@[simp] theorem withWords_cleared (cut : Cut) (size crc : Nat) :
    (cut.withWords size crc).cleared = cut.cleared := rfl

@[simp] theorem withWords_withWords (cut : Cut) (size crc size' crc' : Nat) :
    (cut.withWords size crc).withWords size' crc' = cut.withWords size' crc' := rfl

theorem length_image (cut : Cut) : cut.image.length = 4096 + cut.rest.length := by
  simp only [image, List.length_append, cut.boot_length, cut.size_length, cut.crc_length,
    crcsizeOffset]

@[simp] theorem withWords_length (cut : Cut) (size crc : Nat) :
    (cut.withWords size crc).image.length = cut.image.length := by
  rw [length_image, length_image]
  rfl

/-- Every image that fills the boot sector can be cut. -/
theorem exists_image (raw : List UInt8) (large : 4096 ≤ raw.length) :
    ∃ cut : Cut, cut.image = raw := by
  refine ⟨⟨raw.take 4088, (raw.drop 4088).take 4, (raw.drop 4092).take 4, raw.drop 4096,
    by simp [crcsizeOffset]; omega, by simp; omega, by simp; omega⟩, ?_⟩
  have second : (raw.drop 4092).take 4 ++ raw.drop 4096 = raw.drop 4092 := by
    rw [show raw.drop 4096 = (raw.drop 4092).drop 4 by rw [List.drop_drop],
      List.take_append_drop]
  have first : (raw.drop 4088).take 4 ++ raw.drop 4092 = raw.drop 4088 := by
    rw [show raw.drop 4092 = (raw.drop 4088).drop 4 by rw [List.drop_drop],
      List.take_append_drop]
  simp only [image, List.append_assoc, second, first, List.take_append_drop]

end Cut

theorem storeWord_append (before word after : List UInt8) (val : Nat) (four : word.length = 4) :
    storeWord (before ++ word ++ after) before.length val =
      before ++ wordBytes val ++ after := by
  match word, four with
  | [a, b, c, d], _ => simp [storeWord, wordBytes]

theorem storeWord_pair (cut : Cut) (v w : Nat) :
    storeWord (storeWord cut.image crcsizeOffset v) crcvalOffset w =
      (cut.withWords v w).image := by
  have first : storeWord cut.image crcsizeOffset v =
      (cut.boot ++ wordBytes v) ++ cut.crc ++ cut.rest := by
    have stored := storeWord_append cut.boot cut.size (cut.crc ++ cut.rest) v cut.size_length
    rw [cut.boot_length] at stored
    simpa only [Cut.image, List.append_assoc] using stored
  have second := storeWord_append (cut.boot ++ wordBytes v) cut.crc cut.rest w cut.crc_length
  have place : (cut.boot ++ wordBytes v).length = crcvalOffset := by
    simp [cut.boot_length, crcsizeOffset, crcvalOffset]
  rw [place] at second
  rw [first, second]
  rfl

/-- What `add_crc` writes: the length and the CRC of the cleared image. -/
theorem addCrc_eq (cut : Cut) :
    addCrc cut.image = (cut.withWords cut.image.length (crc8266 cut.cleared)).image := by
  have zeros : (cut.withWords 0 0).image = cut.cleared := by
    simp only [Cut.image, Cut.withWords, Cut.cleared, List.append_assoc]
    rfl
  unfold addCrc
  simp only [storeWord_pair, Cut.withWords_length, Cut.withWords_withWords]
  rw [zeros]

/-- A second pass changes nothing. -/
theorem addCrc_idempotent (raw : List UInt8) (large : 4096 ≤ raw.length) :
    addCrc (addCrc raw) = addCrc raw := by
  obtain ⟨cut, rfl⟩ := Cut.exists_image raw large
  rw [addCrc_eq cut, addCrc_eq, Cut.withWords_length, Cut.withWords_withWords,
    Cut.withWords_cleared]

/-! ## The check in flash -/

/-- The flash, mapped at `progmem`, holds the image from its first byte on. The map has the
room that a 32-bit address leaves. -/
structure Holds (mem : Nat → UInt8) (raw : List UInt8) : Prop where
  fits : progmem + raw.length ≤ 2 ^ 32
  byte : ∀ i (h : i < raw.length), mem (progmem + i) = raw[i]

theorem readRange_of_segment (mem : Nat → UInt8) (before segment after : List UInt8)
    (base : Nat) (holds : ∀ i (h : i < (before ++ segment ++ after).length),
      mem (base + i) = (before ++ segment ++ after)[i]) :
    readRange mem (base + before.length) segment.length = segment := by
  apply List.ext_getElem
  · simp [readRange]
  · intro i h h'
    have inside : before.length + i < (before ++ segment ++ after).length := by simp; omega
    have at_i := holds (before.length + i) inside
    simp only [readRange, List.getElem_map, List.getElem_range]
    rw [Nat.add_assoc, at_i, List.getElem_append_left (by simp; omega),
      List.getElem_append_right (by omega)]
    congr 1
    omega

/-- A stored word reads back as its value. -/
theorem readWord_of_bytes (mem : Nat → UInt8) (addr val : Nat)
    (stored : readRange mem addr 4 = wordBytes val) : readWord mem addr = UInt32.ofNat val := by
  simp only [readRange, List.range_succ, List.range_zero, List.map_cons, List.map_nil,
    List.nil_append, List.cons_append, Nat.add_zero] at stored
  apply UInt32.toNat_inj.mp
  rw [readWord, wordOf_wordBytes stored.symm, UInt32.toNat_ofNat', UInt32.toNat_ofNat',
    Nat.mod_mod]

/-- On an image that stores its own length the check compares the stored CRC with the CRC of
the cleared image. -/
theorem checkFlashCRC_eq (mem : Nat → UInt8) (cut : Cut) (holds : Holds mem cut.image)
    (size : cut.size = wordBytes cut.image.length) :
    checkFlashCRC mem =
      (crc32 cut.cleared 0xffffffff == readWord mem (progmem + crcvalOffset)) := by
  have boot : readRange mem progmem (4096 - 8) = cut.boot := by
    have read := readRange_of_segment mem [] cut.boot (cut.size ++ cut.crc ++ cut.rest) progmem
      (by simpa [Cut.image, List.append_assoc] using holds.byte)
    simpa [cut.boot_length, crcsizeOffset] using read
  have sizeWord : readRange mem (progmem + 4088) 4 = cut.size := by
    have read := readRange_of_segment mem cut.boot cut.size (cut.crc ++ cut.rest) progmem
      (by simpa [Cut.image, List.append_assoc] using holds.byte)
    simpa [cut.boot_length, cut.size_length, crcsizeOffset] using read
  have rest : readRange mem (progmem + 4096) cut.rest.length = cut.rest := by
    have read := readRange_of_segment mem (cut.boot ++ cut.size ++ cut.crc) cut.rest [] progmem
      (by simpa [Cut.image, List.append_assoc] using holds.byte)
    simpa [cut.boot_length, cut.size_length, cut.crc_length, crcsizeOffset] using read
  have length := cut.length_image
  have fits := holds.fits
  have flashsize := readWord_of_bytes mem (progmem + 4088) cut.image.length (sizeWord.trans size)
  have remaining : (readWord mem (progmem + 4088) - 4096).toNat = cut.rest.length := by
    have bound : cut.image.length < 2 ^ 32 := by unfold progmem at fits; omega
    rw [flashsize, UInt32.toNat_sub_of_le _ _ (by
      rw [UInt32.le_iff_toNat_le, UInt32.toNat_ofNat_of_lt' bound, length]
      exact Nat.le_add_right _ _), UInt32.toNat_ofNat_of_lt' bound, length]
    exact Nat.add_sub_cancel_left ..
  unfold checkFlashCRC
  simp only [boot, remaining, rest]
  rw [Cut.cleared, crc32_append, crc32_append]
  rfl

theorem crcWord_eq (mem : Nat → UInt8) (cut : Cut) (holds : Holds mem cut.image) (val : Nat)
    (stored : cut.crc = wordBytes val) :
    readWord mem (progmem + crcvalOffset) = UInt32.ofNat val := by
  apply readWord_of_bytes
  rw [← stored]
  have read := readRange_of_segment mem (cut.boot ++ cut.size) cut.crc cut.rest progmem
    (by simpa [Cut.image, List.append_assoc] using holds.byte)
  simpa [cut.boot_length, cut.size_length, cut.crc_length, crcsizeOffset, crcvalOffset] using read

/-- The flash that holds what `add_crc` wrote passes the check. -/
theorem checkFlashCRC_addCrc (mem : Nat → UInt8) (raw : List UInt8) (large : 4096 ≤ raw.length)
    (holds : Holds mem (addCrc raw)) : checkFlashCRC mem = true := by
  obtain ⟨cut, rfl⟩ := Cut.exists_image raw large
  rw [addCrc_eq] at holds
  rw [checkFlashCRC_eq mem _ holds (by rw [Cut.withWords_length]; rfl),
    crcWord_eq mem _ holds _ rfl, Cut.withWords_cleared, crc8266_eq, UInt32.ofNat_toNat]
  exact beq_self_eq_true _

end Esp8266.Source.ImageCrc
