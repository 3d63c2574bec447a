import Mathlib.Data.List.Basic

/-!
# NOR flash

A byte-addressed NOR flash: erasing sets a range to `0xFF`, programming can only clear bits.
What a range reads after an operation is stated for addresses inside and outside of it, so
that a program's proof never opens the operations.
-/
set_option autoImplicit false

namespace Esp8266.Lib.NorFlash

abbrev Flash := Nat → UInt8

/-- Erase `len` bytes from `base` on. -/
def erase (base len : Nat) (flash : Flash) : Flash :=
  fun a => if base ≤ a ∧ a < base + len then 0xff else flash a

/-- Program `len` bytes from `base` on: each keeps the bits that it and the datum have set. -/
def program (base len : Nat) (data : Nat → UInt8) (flash : Flash) : Flash :=
  fun a => if base ≤ a ∧ a < base + len then flash a &&& data (a - base) else flash a

/-- An operation that failed may leave anything in its range. -/
def spoil (base len : Nat) (junk : Nat → UInt8) (flash : Flash) : Flash :=
  fun a => if base ≤ a ∧ a < base + len then junk (a - base) else flash a

/-- `len` bytes from `base` on. -/
def readRange (flash : Flash) (base len : Nat) : List UInt8 :=
  (List.range len).map fun i => flash (base + i)

theorem erased_and (x : UInt8) : 0xff &&& x = x := by
  apply UInt8.toBitVec_inj.mp
  rw [UInt8.toBitVec_and]
  exact BitVec.allOnes_and

theorem erase_inside {base len a : Nat} (flash : Flash) (h : base ≤ a ∧ a < base + len) :
    erase base len flash a = 0xff := if_pos h

theorem erase_outside {base len a : Nat} (flash : Flash) (h : a < base ∨ base + len ≤ a) :
    erase base len flash a = flash a := if_neg (by omega)

theorem program_outside {base len a : Nat} (data : Nat → UInt8) (flash : Flash)
    (h : a < base ∨ base + len ≤ a) : program base len data flash a = flash a :=
  if_neg (by omega)

/-- Programming an erased byte stores the datum. -/
theorem program_erased {base len a : Nat} (data : Nat → UInt8) (flash : Flash)
    (h : base ≤ a ∧ a < base + len) (erased : flash a = 0xff) :
    program base len data flash a = data (a - base) := by
  rw [program, if_pos h, erased, erased_and]

theorem spoil_outside {base len a : Nat} (junk : Nat → UInt8) (flash : Flash)
    (h : a < base ∨ base + len ≤ a) : spoil base len junk flash a = flash a :=
  if_neg (by omega)

@[simp] theorem length_readRange (flash : Flash) (base len : Nat) :
    (readRange flash base len).length = len := by
  simp [readRange]

theorem getElem_readRange (flash : Flash) (base len i : Nat)
    (h : i < (readRange flash base len).length) :
    (readRange flash base len)[i] = flash (base + i) := by
  simp [readRange]

theorem readRange_congr {flash flash' : Flash} {base len : Nat}
    (same : ∀ a, base ≤ a → a < base + len → flash a = flash' a) :
    readRange flash base len = readRange flash' base len := by
  apply List.map_congr_left
  intro i h
  exact same _ (Nat.le_add_right _ _) (Nat.add_lt_add_left (List.mem_range.mp h) _)

theorem readRange_add (flash : Flash) (base m n : Nat) :
    readRange flash base (m + n) = readRange flash base m ++ readRange flash (base + m) n := by
  simp [readRange, List.range_add, Nat.add_assoc]

/-- Part of a range, read on its own. -/
theorem readRange_drop_take (flash : Flash) (base len from_ n : Nat) (fits : from_ + n ≤ len) :
    ((readRange flash base len).drop from_).take n = readRange flash (base + from_) n := by
  obtain ⟨rest, rfl⟩ := Nat.exists_eq_add_of_le fits
  rw [readRange_add, readRange_add, List.append_assoc, List.drop_left' (length_readRange _ _ _),
    List.take_left' (length_readRange _ _ _)]

/-- A range reads as a list when it does byte by byte. -/
theorem readRange_eq (flash : Flash) (base : Nat) (data : List UInt8)
    (same : ∀ i, i < data.length → flash (base + i) = data.getD i 0) :
    readRange flash base data.length = data := by
  apply List.ext_getElem (length_readRange _ _ _)
  intro i h h'
  rw [getElem_readRange, same i h']
  simp [List.getD_eq_getElem?_getD, h']

/-- Programming an erased range with a list makes it read as that list. -/
theorem readRange_program (flash : Flash) (base : Nat) (data : List UInt8)
    (erased : ∀ a, base ≤ a → a < base + data.length → flash a = 0xff) :
    readRange (program base data.length (fun i => data.getD i 0) flash) base data.length =
      data := by
  apply readRange_eq
  intro i h
  rw [program_erased _ _ (by omega) (erased _ (by omega) (by omega)), Nat.add_sub_cancel_left]

end Esp8266.Lib.NorFlash
