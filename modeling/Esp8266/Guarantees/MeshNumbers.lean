import Esp8266.Source.MeshNumbers
import Mathlib.Data.List.GetD
import Mathlib.Data.UInt

/-!
# Numbers of the mesh are read back

A number is read back from its digits where `strtoul` stops behind each of them. It is given an
array of one byte without a NUL behind, so that it goes on into the memory there: the digits that
stand in it, and in base 16 a prefix behind a zero, count.
-/
set_option autoImplicit false

namespace Esp8266.Source.Mesh
open Esp8266.Lib.Radix Esp8266.Source.WString

variable {base : Base}

/-- The memory behind a digit does not change its number. -/
structure Quiet (base : Base) (behind : List UInt8) : Prop where
  noDigit : leading base (cstr behind) = []
  noPrefix : base.1 = 16 → ∀ x rest, cstr behind = x :: rest → x = 0x78 ∨ x = 0x58 →
    value base (leading base rest) = 0

/-! ## A digit -/

theorem digit_facts {d : Nat} (small : d < 36) :
    digit d ≠ 0 ∧ ¬IsSpace (digit d) ∧ digit d ≠ 0x2d ∧ digit d ≠ 0x2b ∧
      (digit d = 0x30 → d = 0) := by
  have all : ∀ d ∈ List.range 36, digit d ≠ 0 ∧ ¬IsSpace (digit d) ∧ digit d ≠ 0x2d ∧
      digit d ≠ 0x2b ∧ (digit d = 0x30 → d = 0) := by decide
  exact all d (List.mem_range.2 small)

theorem currentText_digit {d : Nat} (small : d < 36) (behind : List UInt8) :
    currentText (digit d) behind = digit d :: cstr behind := by
  rw [currentText, cstr, List.takeWhile_cons_of_pos (by simpa using (digit_facts small).1)]
  rfl

/-- In front of a digit there is no space and no sign. -/
theorem strtoul_digit {d : Nat} (small : d < 36) (t : WString) :
    strtoul (digit d :: t) base = min (magnitude base (digit d :: t)) (2 ^ 32 - 1) := by
  obtain ⟨-, solid, noMinus, noPlus, -⟩ := digit_facts small
  have kept : (digit d :: t).dropWhile (fun c => IsSpace c) = digit d :: t :=
    List.dropWhile_cons_of_neg (by simpa using solid)
  have minus : ¬(digit d :: t).head? = some 0x2d := fun same => noMinus (Option.some.inj same)
  have plus : ¬(digit d :: t).head? = some 0x2b := fun same => noPlus (Option.some.inj same)
  simp only [strtoul, kept, minus, plus, or_self, if_false]
  split <;> omega

theorem magnitude_digit {d : Nat} (small : d < base) {t : WString}
    (bare : base.1 = 16 → ∀ x rest, t = x :: rest → x = 0x78 ∨ x = 0x58 → d ≠ 0) :
    magnitude base (digit d :: t) = value base (d :: leading base t) := by
  have whole : value base (leading base (digit d :: t)) = value base (d :: leading base t) := by
    rw [leading_digit small]
  rw [← whole]
  cases t with
  | nil => unfold magnitude; split <;> simp_all
  | cons x rest =>
    by_cases zero : digit d = 0x30
    · have none : ¬(base.1 = 16 ∧ (x = 0x78 ∨ x = 0x58)) := fun isPrefix =>
        bare isPrefix.1 x rest rfl isPrefix.2
          ((digit_facts (Nat.lt_of_lt_of_le small base.2.2)).2.2.2.2 zero)
      rw [zero]
      simp only [magnitude, if_neg none]
    · unfold magnitude
      split
      · rename_i same
        exact absurd (List.cons.inj same).1 zero
      · rfl

theorem magnitude_prefix (sixteen : base.1 = 16) {x : UInt8} (letter : x = 0x78 ∨ x = 0x58)
    (rest : WString) :
    magnitude base (digit 0 :: x :: rest) = value base (leading base rest) := by
  show magnitude base (0x30 :: x :: rest) = _
  simp only [magnitude, if_pos (And.intro sixteen letter)]

theorem strtoul_quiet {behind : List UInt8} (quiet : Quiet base behind) {d : Nat}
    (small : d < base) : strtoul (currentText (digit d) behind) base = d := by
  have := base.2.2
  have small' : d < 36 := by omega
  rw [currentText_digit small', strtoul_digit small']
  by_cases bare : base.1 = 16 → ∀ x rest, cstr behind = x :: rest → x = 0x78 ∨ x = 0x58 → d ≠ 0
  · rw [magnitude_digit small bare, quiet.noDigit]
    have single : value base [d] = d := by simp [value]
    rw [single]
    omega
  · push Not at bare
    obtain ⟨sixteen, x, rest, text, letter, rfl⟩ := bare
    rw [text, magnitude_prefix sixteen letter, quiet.noPrefix sixteen x rest text letter]
    rfl

/-- Where the memory is not quiet, a zero or a one is misread. -/
theorem strtoul_loud {behind : List UInt8} (loud : ¬Quiet base behind) :
    ∃ d < 2, strtoul (currentText (digit d) behind) base ≠ d := by
  have two := base.2.1
  by_cases noDigit : leading base (cstr behind) = []
  · have isPrefix : ¬(base.1 = 16 → ∀ x rest, cstr behind = x :: rest → x = 0x78 ∨ x = 0x58 →
        value base (leading base rest) = 0) := fun noPrefix => loud ⟨noDigit, noPrefix⟩
    push Not at isPrefix
    obtain ⟨sixteen, x, rest, text, letter, counts⟩ := isPrefix
    refine ⟨0, by decide, ?_⟩
    rw [currentText_digit (by decide), strtoul_digit (by decide), text,
      magnitude_prefix sixteen letter]
    omega
  · obtain ⟨e, es, digits⟩ := List.exists_cons_of_ne_nil noDigit
    refine ⟨1, by decide, ?_⟩
    have large : base.1 ≤ value base (1 :: e :: es) := le_value_cons Nat.one_pos e es
    rw [currentText_digit (by decide), strtoul_digit (by decide),
      magnitude_digit (by omega) fun _ _ _ _ _ => by decide, digits]
    omega

theorem strtoul_lt (s : WString) (base : Base) : strtoul s base < 2 ^ 32 := by
  have clamped : ∀ (acc : Nat) (negative : Prop) [Decidable negative],
      (if 2 ^ 32 ≤ acc then 2 ^ 32 - 1
        else if negative then (2 ^ 32 - acc) % 2 ^ 32 else acc) < 2 ^ 32 := by
    intro acc negative _
    split
    · decide
    · split <;> omega
  exact clamped _ _

/-! ## Writing -/

theorem uint64ToStringLoop_eq (base : Base) {number : Nat} (positive : 0 < number)
    (result : WString) : uint64ToStringLoop base number result = text base number ++ result := by
  have two := base.2.1
  induction number using Nat.strongRecOn generalizing result with
  | ind number ih =>
    have below : number % base < base := Nat.mod_lt number (by omega)
    rw [uint64ToStringLoop, if_neg (by omega), stringOf, text_of_lt below]
    by_cases small : number < base
    · rw [Nat.div_eq_of_lt small, uint64ToStringLoop, if_pos rfl, Nat.mod_eq_of_lt small,
        text_of_lt small]
    · have quotient : 0 < number / base := Nat.div_pos (Nat.not_lt.1 small) (by omega)
      rw [ih _ (Nat.div_lt_self positive (by omega)) quotient, ← List.append_assoc,
        ← text_mul_add quotient below, Nat.div_add_mod]

theorem text_ne_nil (n : Nat) : text base n ≠ [] :=
  text_induction (P := fun _ text => text ≠ []) (fun _ _ => List.cons_ne_nil _ _)
    (fun _ _ _ _ _ => List.append_ne_nil_of_right_ne_nil _ (List.cons_ne_nil _ _)) n

theorem uint64ToString_eq (number : UInt64) (base : Base) :
    uint64ToString number base = text base number.toNat := by
  have two := base.2.1
  rw [uint64ToString]
  by_cases zero : number.toNat = 0
  · rw [zero, text_of_lt (by omega), uint64ToStringLoop, if_pos rfl]
    rfl
  · rw [uint64ToStringLoop_eq base (by omega), List.append_nil]
    exact if_neg (text_ne_nil _)

/-! ## Reading -/

theorem stringToUint64_append (behind : Nat → List UInt8) (string : WString) (c : UInt8) :
    stringToUint64 behind (string ++ [c]) base =
      stringToUint64 behind string base * UInt64.ofNat base +
        UInt64.ofNat (strtoul (currentText c (behind string.length)) base) := by
  have last : charAt (string ++ [c]) string.length = c := by
    rw [charAt, List.getD_append_right _ _ _ _ (Nat.le_refl _), Nat.sub_self]
    rfl
  have before : ∀ i ∈ List.range string.length, charAt (string ++ [c]) i = charAt string i :=
    fun i mem => List.getD_append _ _ _ _ (List.mem_range.1 mem)
  rw [stringToUint64, List.length_append, List.length_singleton, List.range_succ,
    List.foldl_append, List.foldl_cons, List.foldl_nil, last, stringToUint64]
  congr 2
  exact List.foldl_ext _ _ _ fun result i mem => by rw [before i mem]

theorem stringToUint64_digits {behind : Nat → List UInt8} (n : Nat)
    (quiet : ∀ i < (text base n).length, Quiet base (behind i)) :
    stringToUint64 behind (text base n) base = UInt64.ofNat n := by
  refine text_induction (P := fun n text => (∀ i < text.length, Quiet base (behind i)) →
    stringToUint64 behind text base = UInt64.ofNat n) ?_ ?_ n quiet
  · intro d small quiet
    have read := @stringToUint64_append base behind [] (digit d)
    rw [List.nil_append] at read
    rw [read, List.length_nil, strtoul_quiet (quiet 0 Nat.one_pos) small]
    simp [stringToUint64]
  · intro n d _ small ih quiet
    rw [List.length_append, List.length_singleton] at quiet
    rw [stringToUint64_append, ih fun i inside => quiet i (by omega),
      strtoul_quiet (quiet _ (Nat.lt_succ_self _)) small, UInt64.ofNat_add, UInt64.ofNat_mul,
      UInt64.mul_comm]

/-- A last digit that is misread shows in the number. -/
theorem stringToUint64_misread {behind : Nat → List UInt8} {front : WString} {n d : Nat}
    (read : stringToUint64 behind front base = UInt64.ofNat n) (small : d < 2 ^ 32)
    (misread : strtoul (currentText (digit d) (behind front.length)) base ≠ d) :
    stringToUint64 behind (front ++ [digit d]) base ≠ UInt64.ofNat (base * n + d) := by
  intro same
  rw [stringToUint64_append, read, UInt64.ofNat_add, UInt64.ofNat_mul,
    UInt64.mul_comm (UInt64.ofNat base)] at same
  have equal := congrArg UInt64.toNat (add_left_cancel same)
  have less := strtoul_lt (currentText (digit d) (behind front.length)) base
  rw [UInt64.toNat_ofNat', UInt64.toNat_ofNat', Nat.mod_eq_of_lt (by omega),
    Nat.mod_eq_of_lt (by omega)] at equal
  exact misread equal

theorem pow_succ_lt {i : Nat} (fits : base.1 ^ i < 2 ^ 64) : base.1 ^ i + 1 < 2 ^ 64 := by
  have none : ∀ b ∈ List.range 37, ∀ i ∈ List.range 64, 2 ≤ b → b ^ i ≠ 2 ^ 64 - 1 := by
    decide +kernel
  have exponent : i < 64 := by
    by_contra large
    have : 2 ^ 64 ≤ base.1 ^ i := calc
      2 ^ 64 ≤ 2 ^ i := Nat.pow_le_pow_right (by decide) (by omega)
      _ ≤ base.1 ^ i := Nat.pow_le_pow_left base.2.1 i
    omega
  have := none base (List.mem_range.2 (by have := base.2.2; omega)) i (List.mem_range.2 exponent)
    base.2.1
  omega

/-- **Numbers of the mesh are read back** where no digit of theirs has a digit or, behind a zero in
base 16, a prefix that counts behind it in memory. -/
theorem uint64ToString_stringToUint64 (base : Base) (behind : Nat → List UInt8) :
    (∀ n : UInt64, stringToUint64 behind (uint64ToString n base) base = n) ↔
      ∀ i, base.1 ^ i < 2 ^ 64 → Quiet base (behind i) := by
  have two := base.2.1
  constructor
  · intro always
    classical
    by_contra someLoud
    push Not at someLoud
    -- At the first index that is not quiet, everything in front has been read well.
    have exists_loud : ∃ i, base.1 ^ i < 2 ^ 64 ∧ ¬Quiet base (behind i) := someLoud
    obtain ⟨fits, loud⟩ := Nat.find_spec exists_loud
    have quiet : ∀ j < Nat.find exists_loud, Quiet base (behind j) := fun j before => by
      by_contra none
      exact Nat.find_min exists_loud before
        ⟨Nat.lt_of_le_of_lt (Nat.pow_le_pow_right (by omega) (Nat.le_of_lt before)) fits, none⟩
    generalize Nat.find exists_loud = i at fits loud quiet
    obtain ⟨d, small, misread⟩ := strtoul_loud loud
    cases i with
    | zero =>
      have written := uint64ToString_eq (UInt64.ofNat d) base
      rw [UInt64.toNat_ofNat', Nat.mod_eq_of_lt (by omega), text_of_lt (by omega)] at written
      have read := always (UInt64.ofNat d)
      rw [written] at read
      have empty : stringToUint64 behind [] base = UInt64.ofNat 0 := rfl
      refine stringToUint64_misread empty (by omega) misread ?_
      rw [Nat.mul_zero, Nat.zero_add]
      exact read
    | succ k =>
      have positive : 0 < base.1 ^ k := Nat.pow_pos (by omega)
      have length := length_text_pow base k
      have below := pow_succ_lt fits
      have power : base.1 ^ (k + 1) = base * base ^ k := by rw [Nat.pow_succ, Nat.mul_comm]
      rw [power] at below
      have written := uint64ToString_eq (UInt64.ofNat (base * base ^ k + d)) base
      rw [UInt64.toNat_ofNat', Nat.mod_eq_of_lt (by omega),
        text_mul_add positive (by omega)] at written
      have read := always (UInt64.ofNat (base * base ^ k + d))
      rw [written] at read
      refine stringToUint64_misread (stringToUint64_digits _ fun j inside => quiet j ?_)
        (by omega) ?_ read
      · omega
      · rw [length]
        exact misread
  · intro quiet n
    rw [uint64ToString_eq, stringToUint64_digits, UInt64.ofNat_toNat]
    intro i inside
    rcases Nat.eq_zero_or_pos n.toNat with zero | positive
    · rw [zero, text_of_lt (by omega), List.length_singleton, Nat.lt_one_iff] at inside
      rw [inside]
      exact quiet 0 (by rw [Nat.pow_zero]; decide)
    · exact quiet i (Nat.lt_of_le_of_lt (pow_le_of_lt_length _ positive i inside) n.toNat_lt)

/-- A zero in the memory behind makes ten of one. -/
theorem stringToUint64_trailing_zero :
    stringToUint64 (fun _ => [0x30]) (uint64ToString 1 ⟨10, by decide⟩) ⟨10, by decide⟩ ≠ 1 := by
  rw [uint64ToString_eq, text_of_lt (by decide)]
  decide

end Esp8266.Source.Mesh
