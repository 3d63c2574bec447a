import Esp8266.Lib.Base64
import Esp8266.Source.Base64

/-!
# The encoder of libb64

It is the standard one with a line feed behind every 72 characters that are whole groups, if it
makes line feeds. Its state goes on from block to block, so that the blocks of `base64::encode`
are one encoding.
-/
set_option autoImplicit false

namespace Esp8266.Source.WebServer
open Esp8266.Lib.Base64 Esp8266.Source.WString

/-! ## The code as a whole -/

theorem base64EncodeValue_ofNat {n : Nat} (small : n < 64) :
    base64EncodeValue (UInt8.ofNat n) = char n := by
  have all : ∀ i : Fin 64, base64EncodeValue (UInt8.ofNat i.val) = char i.val := by
    unfold char
    rw [alphabet_ranges]
    decide
  exact all ⟨n, small⟩

theorem base64EncodeValue_eq {b : UInt8} {n : Nat} (value : b.toNat = n) (small : n < 64) :
    base64EncodeValue b = char n := by
  rw [← base64EncodeValue_ofNat small, ← value, UInt8.ofNat_toNat]

theorem low_mask (b : UInt8) (k : Nat) (m : UInt8) (mask : m.toNat = 2 ^ k - 1) :
    (b &&& m).toNat = b.toNat % 2 ^ k := by
  rw [UInt8.toNat_and, mask, Nat.and_two_pow_sub_one_eq_mod]

theorem high_mask (b : UInt8) (k : Nat) (m s : UInt8) (shift : s.toNat = k) (small : k < 8)
    (mask : m.toNat >>> k = 2 ^ (8 - k) - 1) :
    ((b &&& m) >>> s).toNat = b.toNat / 2 ^ k := by
  rw [UInt8.toNat_shiftRight, UInt8.toNat_and, shift, Nat.mod_eq_of_lt small,
    Nat.shiftRight_and_distrib, mask, Nat.and_two_pow_sub_one_eq_mod, Nat.shiftRight_eq_div_pow,
    Nat.mod_eq_of_lt]
  rw [Nat.div_lt_iff_lt_mul (Nat.two_pow_pos k), ← Nat.pow_add, Nat.sub_add_cancel (by omega)]
  exact b.toNat_lt

/-- The masks and shifts of the encoder as numbers. -/
theorem masks (b : UInt8) :
    ((b &&& 0xfc) >>> 2).toNat = b.toNat / 4 ∧ ((b &&& 0x03) <<< 4).toNat = b.toNat % 4 * 16 ∧
      ((b &&& 0xf0) >>> 4).toNat = b.toNat / 16 ∧ ((b &&& 0x0f) <<< 2).toNat = b.toNat % 16 * 4 ∧
      ((b &&& 0xc0) >>> 6).toNat = b.toNat / 64 ∧ (b &&& 0x3f).toNat = b.toNat % 64 := by
  refine ⟨high_mask b 2 0xfc 2 rfl (by decide) rfl, ?_,
    high_mask b 4 0xf0 4 rfl (by decide) rfl, ?_,
    high_mask b 6 0xc0 6 rfl (by decide) rfl, low_mask b 6 0x3f rfl⟩
  · rw [UInt8.toNat_shiftLeft, low_mask b 2 0x03 rfl, Nat.shiftLeft_eq]
    change b.toNat % 4 * 16 % 256 = _
    omega
  · rw [UInt8.toNat_shiftLeft, low_mask b 4 0x0f rfl, Nat.shiftLeft_eq]
    change b.toNat % 16 * 4 % 256 = _
    omega

theorem or_toNat (x y : UInt8) {k a b : Nat} (high : x.toNat = a * 2 ^ k) (low : y.toNat = b)
    (small : b < 2 ^ k) : (x ||| y).toNat = a * 2 ^ k + b := by
  rw [UInt8.toNat_or, high, low, Nat.mul_comm a, Nat.two_pow_add_eq_or_of_lt small]

section
variable (a b c : UInt8)

theorem first_toNat : ((a &&& 0xfc) >>> 2).toNat = a.toNat / 4 := (masks a).1

theorem second_alone_toNat : ((a &&& 0x03) <<< 4).toNat = a.toNat % 4 * 16 := (masks a).2.1

theorem third_alone_toNat : ((b &&& 0x0f) <<< 2).toNat = b.toNat % 16 * 4 := (masks b).2.2.2.1

theorem fourth_toNat : (c &&& 0x3f).toNat = c.toNat % 64 := (masks c).2.2.2.2.2

theorem second_toNat :
    ((a &&& 0x03) <<< 4 ||| (b &&& 0xf0) >>> 4).toNat = a.toNat % 4 * 16 + b.toNat / 16 := by
  have high : ((a &&& 0x03) <<< 4).toNat = a.toNat % 4 * 2 ^ 4 := second_alone_toNat a
  have low : ((b &&& 0xf0) >>> 4).toNat = b.toNat / 16 := (masks b).2.2.1
  exact or_toNat _ _ high low (by have := b.toNat_lt; omega)

theorem third_toNat :
    ((b &&& 0x0f) <<< 2 ||| (c &&& 0xc0) >>> 6).toNat = b.toNat % 16 * 4 + c.toNat / 64 := by
  have high : ((b &&& 0x0f) <<< 2).toNat = b.toNat % 16 * 2 ^ 2 := third_alone_toNat b
  have low : ((c &&& 0xc0) >>> 6).toNat = c.toNat / 64 := (masks c).2.2.2.2.1
  exact or_toNat _ _ high low (by have := c.toNat_lt; omega)

end

/-- The whole code from a state of the encoder on. -/
def codeFrom (plain : List UInt8) (state : Base64EncodeState) : List UInt8 :=
  (base64EncodeBlock plain state).1 ++ base64EncodeBlockend (base64EncodeBlock plain state).2

/-- One byte behind the groups. -/
theorem codeFrom_one (a result : UInt8) (count : Nat) (perLine : Int) :
    codeFrom [a] ⟨.stepA, result, count, perLine⟩ = encode [a] := by
  have a_lt := a.toNat_lt
  rw [codeFrom, base64EncodeBlock_stepA, base64EncodeBlock_nil, base64EncodeBlockend_stepB,
    base64EncodeValue_eq (first_toNat a) (by omega),
    base64EncodeValue_eq (second_alone_toNat a) (by omega)]
  rfl

/-- Two bytes behind the groups. -/
theorem codeFrom_two (a b result : UInt8) (count : Nat) (perLine : Int) :
    codeFrom [a, b] ⟨.stepA, result, count, perLine⟩ = encode [a, b] := by
  have a_lt := a.toNat_lt
  have b_lt := b.toNat_lt
  rw [codeFrom, base64EncodeBlock_stepA, base64EncodeBlock_stepB, base64EncodeBlock_nil,
    base64EncodeBlockend_stepC, base64EncodeValue_eq (first_toNat a) (by omega),
    base64EncodeValue_eq (second_toNat a b) (by omega),
    base64EncodeValue_eq (third_alone_toNat b) (by omega)]
  rfl

/-- Three bytes are a group of the encoding, and a line feed if the line is full. -/
theorem codeFrom_group (a b c : UInt8) (rest : List UInt8) (result : UInt8) (count : Nat)
    (perLine : Int) :
    codeFrom (a :: b :: c :: rest) ⟨.stepA, result, count, perLine⟩ =
      char (a.toNat / 4) :: char (a.toNat % 4 * 16 + b.toNat / 16) ::
        char (b.toNat % 16 * 4 + c.toNat / 64) :: char (c.toNat % 64) ::
        if count + 1 = 18 ∧ 0 < perLine then
          0x0a :: codeFrom rest ⟨.stepA, c &&& 0x3f, 0, perLine⟩
        else codeFrom rest ⟨.stepA, c &&& 0x3f, count + 1, perLine⟩ := by
  have a_lt := a.toNat_lt
  have b_lt := b.toNat_lt
  have c_lt := c.toNat_lt
  simp only [codeFrom, base64EncodeBlock_stepA, base64EncodeBlock_stepB, base64EncodeBlock_stepC]
  rw [base64EncodeValue_eq (first_toNat a) (by omega),
    base64EncodeValue_eq (second_toNat a b) (by omega),
    base64EncodeValue_eq (third_toNat b c) (by omega),
    base64EncodeValue_eq (fourth_toNat c) (by omega)]
  have line : base64CharsPerLine / 4 = 18 := rfl
  rw [line]
  by_cases breaks : count + 1 = 18 ∧ 0 < perLine
  · rw [if_pos breaks, decide_eq_true breaks]
    rfl
  · rw [if_neg breaks, decide_eq_false breaks]
    rfl

/-- The code is as long as the standard one, with a character more for each line that is full. -/
theorem length_codeFrom (plain : List UInt8) : ∀ (result : UInt8) (count : Nat), count < 18 →
    (codeFrom plain ⟨.stepA, result, count, base64CharsPerLine⟩).length =
      (encode plain).length + (count + plain.length / 3) / 18 := by
  induction plain using encode.induct with
  | case1 =>
    intro result count small
    change 0 = 0 + (count + 0 / 3) / 18
    omega
  | case2 a =>
    intro result count small
    rw [codeFrom_one, List.length_singleton]
    omega
  | case3 a b =>
    intro result count small
    rw [codeFrom_two, show [a, b].length = 2 from rfl]
    omega
  | case4 a b c rest ih =>
    intro result count small
    rw [codeFrom_group, encode]
    by_cases last : count + 1 = 18
    · rw [if_pos ⟨last, by decide⟩]
      simp only [List.length_cons, ih _ 0 (by omega)]
      omega
    · rw [if_neg fun breaks => last breaks.1]
      simp only [List.length_cons, ih _ (count + 1) (by omega)]
      omega

/-- Within a line the code is the standard one. -/
theorem codeFrom_encode (plain : List UInt8) : ∀ (result : UInt8) (count : Nat),
    count + plain.length / 3 < 18 →
      codeFrom plain ⟨.stepA, result, count, base64CharsPerLine⟩ = encode plain := by
  induction plain using encode.induct with
  | case1 => intro result count _; rfl
  | case2 a => exact fun result count _ => codeFrom_one a result count _
  | case3 a b => exact fun result count _ => codeFrom_two a b result count _
  | case4 a b c rest ih =>
    intro result count within
    simp only [List.length_cons] at within
    rw [codeFrom_group, if_neg (by omega), ih _ (count + 1) (by omega), encode]

/-- Without line feeds it is the standard one. -/
theorem codeFrom_nonewlines (plain : List UInt8) : ∀ (result : UInt8) (count : Nat),
    codeFrom plain ⟨.stepA, result, count, -1⟩ = encode plain := by
  induction plain using encode.induct with
  | case1 => intro result count; rfl
  | case2 a => exact fun result count => codeFrom_one a result count _
  | case3 a b => exact fun result count => codeFrom_two a b result count _
  | case4 a b c rest ih =>
    intro result count
    rw [codeFrom_group, if_neg fun breaks => absurd breaks.2 (by decide), ih, encode]

/-- A text with a line feed behind its first `room` characters and then behind each 72, as often
as there are lines. -/
def breakAfter (room : Nat) : Nat → List UInt8 → List UInt8
  | 0, text => text
  | lines + 1, text => text.take room ++ 0x0a :: breakAfter 72 lines (text.drop room)

/-- A block goes on where the one before it stopped. -/
theorem base64EncodeBlock_append (front back : List UInt8) : ∀ state : Base64EncodeState,
    base64EncodeBlock (front ++ back) state =
      ((base64EncodeBlock front state).1 ++
          (base64EncodeBlock back (base64EncodeBlock front state).2).1,
        (base64EncodeBlock back (base64EncodeBlock front state).2).2) := by
  induction front with
  | nil => intro state; rfl
  | cons fragment front ih =>
    intro state
    rcases state with ⟨step, result, stepcount, stepsnewline⟩
    cases step with
    | stepA => simp only [List.cons_append, base64EncodeBlock_stepA, ih]
    | stepB => simp only [List.cons_append, base64EncodeBlock_stepB, ih]
    | stepC =>
      simp only [List.cons_append, base64EncodeBlock_stepC, ih]
      split <;> rfl

/-- The encoder is between two groups, and in a line that is not full. -/
def Between (state : Base64EncodeState) : Prop :=
  state.step = .stepA ∧ (0 < state.stepsnewline → state.stepcount < 18)

/-- What a block of `plain` writes at most, and that whole groups lead from between two groups to
between two groups. -/
theorem base64EncodeBlock_length (plain : List UInt8) :
    ∀ state : Base64EncodeState, Between state →
      (base64EncodeBlock plain state).1.length ≤ 4 * (plain.length / 3) + plain.length % 3 +
          (if 0 < state.stepsnewline then (state.stepcount + plain.length / 3) / 18 else 0) ∧
        (plain.length % 3 = 0 → Between (base64EncodeBlock plain state).2) := by
  induction plain using encode.induct with
  | case1 => intro state between; exact ⟨Nat.zero_le _, fun _ => between⟩
  | case2 a =>
    intro state between
    rcases state with ⟨step, result, stepcount, stepsnewline⟩
    obtain ⟨rfl, -⟩ := between
    refine ⟨Nat.le_trans ?_ (Nat.le_add_right _ _), fun no => by simp at no⟩
    simp
  | case3 a b =>
    intro state between
    rcases state with ⟨step, result, stepcount, stepsnewline⟩
    obtain ⟨rfl, -⟩ := between
    refine ⟨Nat.le_trans ?_ (Nat.le_add_right _ _), fun no => by simp at no⟩
    simp
  | case4 a b c rest ih =>
    intro state between
    rcases state with ⟨step, result, stepcount, stepsnewline⟩
    obtain ⟨rfl, small⟩ := between
    have groups : (a :: b :: c :: rest).length / 3 = rest.length / 3 + 1 := by
      simp only [List.length_cons]
      omega
    have rest_mod : (a :: b :: c :: rest).length % 3 = rest.length % 3 := by
      simp only [List.length_cons]
      omega
    rw [groups, rest_mod]
    dsimp only at small ⊢
    simp only [base64EncodeBlock_stepA, base64EncodeBlock_stepB, base64EncodeBlock_stepC]
    by_cases breaks : stepcount + 1 = base64CharsPerLine / 4 ∧ 0 < stepsnewline
    · obtain ⟨few, between⟩ := ih ⟨.stepA, c &&& 0x3f, 0, stepsnewline⟩ ⟨rfl, fun _ => Nat.succ_pos 17⟩
      have full : stepcount + 1 = 18 := breaks.1
      rw [decide_eq_true breaks]
      dsimp only at few
      rw [if_pos breaks.2] at few ⊢
      simp only [if_true, List.length_cons]
      exact ⟨by omega, between⟩
    · obtain ⟨few, between⟩ := ih ⟨.stepA, c &&& 0x3f, stepcount + 1, stepsnewline⟩ ⟨rfl, fun lines => by
        have below := small lines
        have full : stepcount + 1 ≠ 18 := fun full => breaks ⟨full, lines⟩
        dsimp only
        omega⟩
      rw [decide_eq_false breaks]
      dsimp only at few
      simp only [Bool.false_eq_true, if_false, List.length_cons]
      refine ⟨?_, between⟩
      split
      · rename_i lines
        rw [if_pos lines] at few
        omega
      · rename_i none
        rw [if_neg none] at few
        omega

end Esp8266.Source.WebServer
