import Mathlib.Data.Nat.Digits.Defs

/-!
# Decimal numbers as text

The bytes of the decimal form of a number, and the value of a string of digits.
-/
set_option autoImplicit false

namespace Esp8266.Lib.Decimal

/-- The digits of a number in ASCII, without leading zeros. -/
def decimal (n : Nat) : List UInt8 := (Nat.toDigits 10 n).map fun c => UInt8.ofNat c.toNat

def IsDigit (c : UInt8) : Prop := 0x30 ≤ c ∧ c ≤ 0x39

instance (c : UInt8) : Decidable (IsDigit c) := inferInstanceAs (Decidable (_ ∧ _))

/-- The value of a string of digits. -/
def value (digits : List UInt8) : Nat := digits.foldl (fun v c => 10 * v + (c.toNat - 0x30)) 0

theorem toNat_ofNat_digit {c : Char} (digit : c.isDigit = true) :
    (UInt8.ofNat c.toNat).toNat = c.toNat ∧ 0x30 ≤ c.toNat ∧ c.toNat ≤ 0x39 := by
  rw [Char.isDigit_iff_toNat] at digit
  refine ⟨?_, digit.1, digit.2⟩
  rw [UInt8.toNat_ofNat']
  have below := digit.2
  simp only [Char.reduceToNat] at below
  omega

theorem isDigit_of_mem_decimal {n : Nat} {c : UInt8} (mem : c ∈ decimal n) : IsDigit c := by
  obtain ⟨char, written, rfl⟩ := List.mem_map.mp mem
  obtain ⟨same, low, high⟩ := toNat_ofNat_digit
    (Nat.isDigit_of_mem_toDigits (b := 10) (by decide) (by decide) written)
  rw [IsDigit, UInt8.le_iff_toNat_le, UInt8.le_iff_toNat_le, same]
  exact ⟨low, high⟩

theorem decimal_ne_nil (n : Nat) : decimal n ≠ [] := by
  rw [decimal, Ne, List.map_eq_nil_iff]
  exact Nat.toDigits_ne_nil

theorem length_decimal_le {n k : Nat} (positive : 0 < k) (small : n < 10 ^ k) :
    (decimal n).length ≤ k := by
  rw [decimal, List.length_map]
  exact (Nat.length_toDigits_le_iff (by decide) positive).mpr small

/-- The value of the decimal form is the number. -/
theorem value_decimal (n : Nat) : value (decimal n) = n := by
  have digits : ∀ (chars : List Char) (v : Nat), (∀ c ∈ chars, c.isDigit = true) →
      (chars.map fun c => UInt8.ofNat c.toNat).foldl (fun v c => 10 * v + (c.toNat - 0x30)) v =
        Nat.ofDigitChars 10 chars v := by
    intro chars
    induction chars with
    | nil => intro v _; rfl
    | cons c rest ih =>
      intro v all
      rw [List.map_cons, List.foldl_cons, Nat.ofDigitChars_cons,
        ih _ fun d mem => all d (List.mem_cons_of_mem _ mem),
        (toNat_ofNat_digit (all c List.mem_cons_self)).1]
      rfl
  rw [value, decimal, digits _ _ fun c mem =>
    Nat.isDigit_of_mem_toDigits (b := 10) (by decide) (by decide) mem]
  exact Nat.ofDigitChars_ten_toDigits

end Esp8266.Lib.Decimal
