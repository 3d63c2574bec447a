import Esp8266.Source.Updater

/-!
# What an update leaves in flash

The abstract side of staging: the image that the accepted bytes become in flash and in the
MD5 input once `_writeBuffer` has patched and restored the flash mode, and what a log says
about the erased state of a byte.
-/
set_option autoImplicit false

namespace Esp8266.Updater
open Esp8266.Lib.NorFlash Esp8266.Source.Esp Esp8266.Source.Updater

/-- `_writeBuffer` patches byte 2 of this image: a sketch, not compressed, whose flash mode is
not the chip's. -/
def Patched (command : Nat) (mode : FlashMode) (image : List UInt8) : Prop :=
  command = uFlash ∧ image.getD 0 0 ≠ 0x1f ∧ magicFlashChipMode (image.getD 2 0) ≠ mode

instance (command : Nat) (mode : FlashMode) (image : List UInt8) :
    Decidable (Patched command mode image) :=
  inferInstanceAs (Decidable (_ ∧ _ ∧ _))

/-- The image as it stands in flash. -/
def flashImage (command : Nat) (mode : FlashMode) (image : List UInt8) : List UInt8 :=
  if Patched command mode image then image.set flashModeOffset mode.byte else image

/-- The image as `_md5` sees it: the mode byte is restored from its decoded value. -/
def md5Image (command : Nat) (mode : FlashMode) (image : List UInt8) : List UInt8 :=
  if Patched command mode image then
    image.set flashModeOffset (magicFlashChipMode (image.getD 2 0)).byte
  else image

@[simp] theorem length_flashImage (command : Nat) (mode : FlashMode) (image : List UInt8) :
    (flashImage command mode image).length = image.length := by
  unfold flashImage
  split <;> simp

@[simp] theorem length_md5Image (command : Nat) (mode : FlashMode) (image : List UInt8) :
    (md5Image command mode image).length = image.length := by
  unfold md5Image
  split <;> simp

@[simp] theorem flashImage_nil (command : Nat) (mode : FlashMode) :
    flashImage command mode [] = [] := by
  unfold flashImage
  split <;> rfl

@[simp] theorem md5Image_nil (command : Nat) (mode : FlashMode) :
    md5Image command mode [] = [] := by
  unfold md5Image
  split <;> rfl

theorem getD_append {xs ys : List UInt8} {i : Nat} (h : i < xs.length) :
    (xs ++ ys).getD i 0 = xs.getD i 0 := by
  simp [List.getD_eq_getElem?_getD, List.getElem?_append_left h]

theorem patched_append {command : Nat} {mode : FlashMode} {xs : List UInt8} (ys : List UInt8)
    (long : 3 ≤ xs.length) : Patched command mode (xs ++ ys) ↔ Patched command mode xs := by
  unfold Patched
  rw [getD_append (by omega), getD_append (by omega)]

/-- Bytes that follow the header do not change what it became. -/
theorem flashImage_append (command : Nat) (mode : FlashMode) (xs ys : List UInt8)
    (long : 3 ≤ xs.length) :
    flashImage command mode (xs ++ ys) = flashImage command mode xs ++ ys := by
  simp only [flashImage, patched_append ys long]
  split
  · rw [List.set_append_left _ _ (by unfold flashModeOffset; omega)]
  · rfl

theorem md5Image_append (command : Nat) (mode : FlashMode) (xs ys : List UInt8)
    (long : 3 ≤ xs.length) :
    md5Image command mode (xs ++ ys) = md5Image command mode xs ++ ys := by
  simp only [md5Image, patched_append ys long, getD_append (show 2 < xs.length by omega)]
  split
  · rw [List.set_append_left _ _ (by unfold flashModeOffset; omega)]
  · rfl

/-- Setting byte 2 is not seen in the first two. -/
theorem take_set_short (buffer : List UInt8) (x : UInt8) {n : Nat} (short : n ≤ 2) :
    (buffer.set flashModeOffset x).take n = buffer.take n := by
  apply List.ext_getElem?
  intro i
  rw [List.getElem?_take, List.getElem?_take]
  split
  · rw [List.getElem?_set_ne (by unfold flashModeOffset; omega)]
  · rfl

theorem take_set (buffer : List UInt8) (x : UInt8) (n : Nat) :
    (buffer.set flashModeOffset x).take n = (buffer.take n).set flashModeOffset x :=
  List.take_set ..

/-- The written part of a patched buffer is the image of its accepted part, also where the
buffer holds fewer than three bytes and the code looks at uninitialised memory. -/
theorem take_patch (command : Nat) (mode : FlashMode) (buffer : List UInt8) (n : Nat)
    (positive : 0 < n) (inside : n ≤ buffer.length) (value : List UInt8 → UInt8)
    (local_ : ∀ xs ys : List UInt8, 3 ≤ xs.length → value (xs ++ ys) = value xs) :
    (if Patched command mode buffer then buffer.set flashModeOffset (value buffer)
      else buffer).take n =
    if Patched command mode (buffer.take n) then
      (buffer.take n).set flashModeOffset (value (buffer.take n))
    else buffer.take n := by
  have whole : buffer = buffer.take n ++ buffer.drop n := (List.take_append_drop n buffer).symm
  by_cases short : n ≤ 2
  · have unseen : ∀ x, (buffer.take n).set flashModeOffset x = buffer.take n := by
      intro x
      apply List.set_eq_of_length_le
      simp [flashModeOffset]
      omega
    rw [apply_ite (List.take n), take_set_short _ _ short, unseen, ite_self, ite_self]
  · have long : 3 ≤ (buffer.take n).length := by simp; omega
    have same : Patched command mode buffer ↔ Patched command mode (buffer.take n) := by
      conv => lhs; rw [whole]
      exact patched_append _ long
    have equal : value buffer = value (buffer.take n) := by
      conv => lhs; rw [whole]
      exact local_ _ _ long
    rw [apply_ite (List.take n), take_set, equal]
    simp only [same]

theorem take_flashImage (command : Nat) (mode : FlashMode) (buffer : List UInt8) (n : Nat)
    (inside : n ≤ buffer.length) :
    (flashImage command mode buffer).take n = flashImage command mode (buffer.take n) := by
  rcases Nat.eq_zero_or_pos n with rfl | positive
  · simp
  · exact take_patch command mode buffer n positive inside (fun _ => mode.byte)
      (fun _ _ _ => rfl)

theorem take_md5Image (command : Nat) (mode : FlashMode) (buffer : List UInt8) (n : Nat)
    (inside : n ≤ buffer.length) :
    (md5Image command mode buffer).take n = md5Image command mode (buffer.take n) := by
  rcases Nat.eq_zero_or_pos n with rfl | positive
  · simp
  · refine take_patch command mode buffer n positive inside
      (fun xs => (magicFlashChipMode (xs.getD 2 0)).byte) ?_
    intro xs ys long
    rw [getD_append (show 2 < xs.length by omega)]

/-! ## Erased bytes in a log -/

/-- The newest event that touches byte `a` is a successful erase of its sector. -/
def ErasedSince : List Event → Nat → Prop
  | [], _ => False
  | .erase sector ok :: older, a =>
    if sector * flashSectorSize ≤ a ∧ a < sector * flashSectorSize + flashSectorSize then ok = true
    else ErasedSince older a
  | .write offset data _ :: older, a =>
    ¬ (offset ≤ a ∧ a < offset + data.length) ∧ ErasedSince older a
  | .read .. :: older, a => ErasedSince older a
  | .verify .. :: older, a => ErasedSince older a
  | .command .. :: older, a => ErasedSince older a
  | .progress .. :: older, a => ErasedSince older a

/-- Every write of the log goes to bytes that were erased and not written since. -/
def WellErased : List Event → Prop
  | [] => True
  | .write offset data _ :: older =>
    (∀ a, offset ≤ a → a < offset + data.length → ErasedSince older a) ∧ WellErased older
  | .erase .. :: older => WellErased older
  | .read .. :: older => WellErased older
  | .verify .. :: older => WellErased older
  | .command .. :: older => WellErased older
  | .progress .. :: older => WellErased older

theorem erasedSince_silent {new older : List Event} (silent : ∀ event ∈ new, event.Silent)
    (a : Nat) : ErasedSince (new ++ older) a ↔ ErasedSince older a := by
  induction new with
  | nil => rfl
  | cons event rest ih =>
    have rest_silent := ih fun e member => silent e (List.mem_cons_of_mem _ member)
    have this_silent := silent event List.mem_cons_self
    cases event <;> simp_all [Event.Silent, ErasedSince]

theorem wellErased_silent {new older : List Event} (silent : ∀ event ∈ new, event.Silent) :
    WellErased (new ++ older) ↔ WellErased older := by
  induction new with
  | nil => rfl
  | cons event rest ih =>
    have rest_silent := ih fun e member => silent e (List.mem_cons_of_mem _ member)
    have this_silent := silent event List.mem_cons_self
    cases event <;> simp_all [Event.Silent, WellErased]

end Esp8266.Updater
