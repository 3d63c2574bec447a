import Mathlib.Algebra.Group.Nat.Defs
import Mathlib.Data.List.Basic

/-!
# Numbers as text in any base

Digits above nine are letters, small ones where a number is written and of both sizes where one
is read. The most significant digit stands first.
-/
set_option autoImplicit false

namespace Esp8266.Lib.Radix

/-- The bases that have digits. -/
abbrev Base := { base : Nat // 2 ≤ base ∧ base ≤ 36 }

/-- The digit of a number below 36. -/
def digit (d : Nat) : UInt8 := UInt8.ofNat (if d < 10 then 0x30 + d else 0x57 + d)

/-- The number of a digit, in capital or in small letters. -/
def digitValue? (c : UInt8) : Option Nat :=
  if 0x30 ≤ c ∧ c ≤ 0x39 then some (c.toNat - 0x30)
  else if 0x41 ≤ c ∧ c ≤ 0x5a then some (c.toNat - 0x37)
  else if 0x61 ≤ c ∧ c ≤ 0x7a then some (c.toNat - 0x57)
  else none

theorem digitValue?_digit {d : Nat} (small : d < 36) : digitValue? (digit d) = some d := by
  have all : ∀ d ∈ List.range 36, digitValue? (digit d) = some d := by decide
  exact all d (List.mem_range.2 small)

/-- The digits of the base in front of what is none. -/
def leading (base : Base) : List UInt8 → List Nat
  | [] => []
  | c :: rest =>
    match digitValue? c with
    | some d => if d < base then d :: leading base rest else []
    | none => []

/-- The number with these digits. -/
def value (base : Base) (digits : List Nat) : Nat :=
  digits.foldl (fun v d => base.1 * v + d) 0

/-- The digits of a number, without leading zeros. -/
def text (base : Base) (n : Nat) : List UInt8 :=
  if n < base then [digit n] else text base (n / base) ++ [digit (n % base)]
termination_by n
decreasing_by
  have := base.2.1
  exact Nat.div_lt_self (by omega) (by omega)

section

variable {base : Base}

theorem leading_digit {d : Nat} (small : d < base) (rest : List UInt8) :
    leading base (digit d :: rest) = d :: leading base rest := by
  have := base.2.2
  simp only [leading, digitValue?_digit (show d < 36 by omega), if_pos small]

theorem foldl_le (digits : List Nat) (v : Nat) :
    v ≤ digits.foldl (fun v d => base.1 * v + d) v := by
  induction digits generalizing v with
  | nil => exact Nat.le_refl v
  | cons d rest ih =>
    have positive : 1 ≤ base.1 := Nat.le_trans (by decide) base.2.1
    calc v = 1 * v := (Nat.one_mul v).symm
      _ ≤ base * v := Nat.mul_le_mul_right v positive
      _ ≤ base * v + d := Nat.le_add_right _ _
      _ ≤ rest.foldl (fun v d => base.1 * v + d) (base * v + d) := ih _

/-- A digit in front of others counts at least once the base. -/
theorem le_value_cons {d : Nat} (positive : 0 < d) (e : Nat) (rest : List Nat) :
    (base : Nat) ≤ value base (d :: e :: rest) := by
  calc (base : Nat) = base * 1 := (Nat.mul_one _).symm
    _ ≤ base * d := Nat.mul_le_mul_left _ positive
    _ ≤ base * (base * 0 + d) + e := by rw [Nat.mul_zero, Nat.zero_add]; exact Nat.le_add_right _ _
    _ ≤ value base (d :: e :: rest) := foldl_le rest _

theorem text_of_lt {n : Nat} (small : n < base) : text base n = [digit n] := by
  rw [text, if_pos small]

theorem text_mul_add {n d : Nat} (positive : 0 < n) (small : d < base) :
    text base (base * n + d) = text base n ++ [digit d] := by
  have basePositive : 0 < base.1 := Nat.lt_of_lt_of_le (by decide) base.2.1
  have large : ¬base * n + d < base := by
    have := Nat.le_mul_of_pos_right base.1 positive
    omega
  rw [text, if_neg large, Nat.mul_add_div basePositive, Nat.div_eq_of_lt small, Nat.add_zero,
    Nat.mul_add_mod, Nat.mod_eq_of_lt small]

/-- A property of the text that each digit keeps. -/
theorem text_induction {P : Nat → List UInt8 → Prop} (single : ∀ d < base.1, P d [digit d])
    (more : ∀ n d, 0 < n → d < base.1 → P n (text base n) →
      P (base * n + d) (text base n ++ [digit d])) (n : Nat) : P n (text base n) := by
  have two := base.2.1
  induction n using Nat.strongRecOn with
  | ind n ih =>
    by_cases small : n < base
    · rw [text_of_lt small]
      exact single n small
    · have positive : 0 < n / base := Nat.div_pos (Nat.not_lt.1 small) (by omega)
      have below : n % base < base := Nat.mod_lt n (by omega)
      have step := more (n / base) (n % base) positive below
        (ih (n / base) (Nat.div_lt_self (by omega) (by omega)))
      rwa [← text_mul_add positive below, Nat.div_add_mod] at step

theorem length_text_pow (base : Base) (k : Nat) : (text base (base ^ k)).length = k + 1 := by
  have two := base.2.1
  induction k with
  | zero => rw [Nat.pow_zero, text_of_lt (by omega)]; rfl
  | succ k ih =>
    have positive : 0 < base.1 ^ k := Nat.pow_pos (by omega)
    have next : text base (base * base ^ k + 0) = text base (base ^ k) ++ [digit 0] :=
      text_mul_add positive (by omega)
    rw [Nat.pow_succ, Nat.mul_comm, ← Nat.add_zero (base.1 * _), next, List.length_append, ih]
    rfl

/-- A number has as many digits as the smallest power of the base above it. -/
theorem pow_le_of_lt_length (n : Nat) (positive : 0 < n) :
    ∀ i < (text base n).length, base ^ i ≤ n := by
  have two := base.2.1
  refine text_induction (P := fun n text => 0 < n → ∀ i < text.length, base.1 ^ i ≤ n)
    ?_ ?_ n positive
  · intro d _ positive i inside
    rw [List.length_singleton, Nat.lt_one_iff] at inside
    rw [inside, Nat.pow_zero]
    exact positive
  · intro n d positive small ih _ i inside
    rw [List.length_append, List.length_singleton] at inside
    cases i with
    | zero =>
      have := Nat.le_mul_of_pos_right base.1 positive
      rw [Nat.pow_zero]
      omega
    | succ i =>
      calc base.1 ^ (i + 1) = base * base ^ i := by rw [Nat.pow_succ, Nat.mul_comm]
        _ ≤ base * n := Nat.mul_le_mul_left _ (ih positive i (by omega))
        _ ≤ base * n + d := Nat.le_add_right _ _

end

end Esp8266.Lib.Radix
