import Mathlib.Data.Nat.Digits.Defs

/-!
# Hexadecimal numbers as text

The bytes of the hexadecimal form of a number, with small letters, as `printf` writes it.
-/
set_option autoImplicit false

namespace Esp8266.Lib.Hexadecimal

/-- The digits of a number in ASCII, without leading zeros. -/
def hexadecimal (n : Nat) : List UInt8 :=
  (Nat.toDigits 16 n).map fun c => UInt8.ofNat c.toNat

/-- The digit of a number below 16. -/
def digit (d : Nat) : UInt8 := UInt8.ofNat d.digitChar.toNat

/-- The digit with a capital letter. -/
def capitalDigit (d : Nat) : UInt8 := UInt8.ofNat d.digitChar.toUpper.toNat

/-- A byte is a digit, in capital or in small letters. -/
def IsDigitOf (c : UInt8) (d : Nat) : Prop := d < 16 ∧ (c = digit d ∨ c = capitalDigit d)

theorem hexadecimal_of_lt {n : Nat} (small : n < 16) : hexadecimal n = [digit n] := by
  rw [hexadecimal, Nat.toDigits_of_lt_base small]
  rfl

theorem hexadecimal_of_le {n : Nat} (large : 16 ≤ n) :
    hexadecimal n = hexadecimal (n / 16) ++ [digit (n % 16)] := by
  rw [hexadecimal, Nat.toDigits_of_base_le (by decide) large, List.map_append]
  rfl

/-- A property of the text that each digit keeps. -/
theorem hexadecimal_induction {P : Nat → List UInt8 → Prop}
    (single : ∀ d < 16, P d [digit d])
    (more : ∀ n d, 0 < n → d < 16 → P n (hexadecimal n) → P (16 * n + d) (hexadecimal n ++ [digit d]))
    (n : Nat) : P n (hexadecimal n) := by
  induction n using Nat.strongRecOn with
  | ind n ih =>
    by_cases small : n < 16
    · rw [hexadecimal_of_lt small]
      exact single n small
    · have large : 16 ≤ n := Nat.not_lt.1 small
      have step := more (n / 16) (n % 16) (Nat.div_pos large (by decide))
        (Nat.mod_lt n (by decide)) (ih (n / 16) (Nat.div_lt_self (by omega) (by decide)))
      rwa [Nat.div_add_mod, ← hexadecimal_of_le large] at step

theorem hexadecimal_ne_nil (n : Nat) : hexadecimal n ≠ [] := by
  rw [hexadecimal, Ne, List.map_eq_nil_iff]
  exact Nat.toDigits_ne_nil

/-- Every byte is a digit. -/
theorem exists_digit_of_mem {n : Nat} {c : UInt8} (mem : c ∈ hexadecimal n) :
    ∃ d < 16, c = digit d := by
  revert c
  refine hexadecimal_induction (P := fun _ text => ∀ {c}, c ∈ text → ∃ d < 16, c = digit d)
    ?_ ?_ n
  · intro d small c mem
    exact ⟨d, small, List.mem_singleton.1 mem⟩
  · intro n d _ small ih c mem
    rcases List.mem_append.1 mem with front | last
    · exact ih front
    · exact ⟨d, small, List.mem_singleton.1 last⟩

end Esp8266.Lib.Hexadecimal
