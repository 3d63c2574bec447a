import Mathlib.Data.List.Basic
import Mathlib.Data.Nat.Bitwise

/-!
# Bit-serial polynomial division

A feedback shift register of width `w`: each input bit is added to the top bit of the
register, the register moves up one place, and the polynomial is added when the sum was one.
The register is linear in state and input, and with an odd polynomial a single step can be
undone. That is all burst detection needs: a non-zero difference of at most `w` consecutive
bits leaves a non-zero difference in the register, and no number of equal bits clears it.
-/
set_option autoImplicit false

namespace Esp8266.Lib.ShiftRegister

variable {w : Nat}

/-- One bit enters the register. -/
def shift (poly state : BitVec w) (bit : Bool) : BitVec w :=
  if (state.msb ^^ bit) then (state <<< 1) ^^^ poly else state <<< 1

/-- A string of bits enters the register, first bit first. -/
def feed (poly : BitVec w) : BitVec w → List Bool → BitVec w
  | state, [] => state
  | state, bit :: rest => feed poly (shift poly state bit) rest

@[simp] theorem feed_nil (poly state : BitVec w) : feed poly state [] = state := rfl

@[simp] theorem feed_cons (poly state : BitVec w) (bit : Bool) (rest : List Bool) :
    feed poly state (bit :: rest) = feed poly (shift poly state bit) rest := rfl

theorem feed_append (poly : BitVec w) (xs ys : List Bool) :
    ∀ state, feed poly state (xs ++ ys) = feed poly (feed poly state xs) ys := by
  induction xs with
  | nil => intro state; rfl
  | cons x rest ih => intro state; exact ih (shift poly state x)

/-- The register is linear over exclusive or. -/
theorem shift_xor (poly s t : BitVec w) (a b : Bool) :
    shift poly (s ^^^ t) (a ^^ b) = shift poly s a ^^^ shift poly t b := by
  have poly_right : ∀ x y : BitVec w, (x ^^^ y) ^^^ poly = x ^^^ (y ^^^ poly) :=
    fun x y => BitVec.xor_assoc x y poly
  have poly_left : ∀ x y : BitVec w, (x ^^^ y) ^^^ poly = (x ^^^ poly) ^^^ y := by
    intro x y
    rw [poly_right, BitVec.xor_comm y, BitVec.xor_assoc]
  have poly_both : ∀ x y : BitVec w, (x ^^^ poly) ^^^ (y ^^^ poly) = x ^^^ y := by
    intro x y
    rw [← poly_left, BitVec.xor_assoc, BitVec.xor_assoc, BitVec.xor_self, BitVec.xor_zero]
  simp only [shift, BitVec.msb_xor, BitVec.shiftLeft_xor_distrib]
  cases s.msb <;> cases t.msb <;> cases a <;> cases b <;>
    simp [poly_left, poly_both]
  all_goals rw [← poly_right, poly_left]

/-- Feeding the difference of two strings of one length gives the difference of the
registers. -/
theorem feed_xor (poly : BitVec w) (xs ys : List Bool) (same : xs.length = ys.length) :
    ∀ s t, feed poly (s ^^^ t) (List.zipWith xor xs ys) = feed poly s xs ^^^ feed poly t ys := by
  induction xs generalizing ys with
  | nil =>
    intro s t
    cases ys with
    | nil => rfl
    | cons y rest => simp at same
  | cons x rest ih =>
    intro s t
    cases ys with
    | nil => simp at same
    | cons y others =>
      simp only [List.zipWith_cons_cons, feed_cons, shift_xor]
      exact ih others (by simpa using same) _ _

/-- With an odd polynomial a register that a step leaves with a clear low bit was only moved:
the bit that entered was the top bit. -/
theorem shift_low_clear (poly state : BitVec w) (bit : Bool)
    (odd : poly.getLsbD 0 = true) (clear : (shift poly state bit).getLsbD 0 = false) :
    state.msb = bit ∧ shift poly state bit = state <<< 1 := by
  by_cases taken : (state.msb ^^ bit) = true
  · have low : (shift poly state bit).getLsbD 0 = true := by
      simp [shift, taken, odd]
    rw [low] at clear
    cases clear
  · have equal : state.msb = bit := by
      cases hs : state.msb <;> cases bit <;> simp_all
    exact ⟨equal, by simp [shift, equal]⟩

/-- At most `w` bits that leave the register empty were its top bits, and the rest of it was
empty before. -/
theorem feed_eq_zero (poly : BitVec w) (odd : poly.getLsbD 0 = true) (bits : List Bool) :
    ∀ state, bits.length ≤ w → feed poly state bits = 0#w →
      (∀ i (h : i < bits.length), bits[i] = state.getMsbD i) ∧
      ∀ i, bits.length ≤ i → state.getMsbD i = false := by
  have positive : 0 < w := by
    by_contra none
    rw [BitVec.getLsbD_of_ge poly 0 (by omega)] at odd
    cases odd
  induction bits with
  | nil =>
    intro state _ zero
    rw [feed_nil] at zero
    subst zero
    exact ⟨fun i h => absurd h (Nat.not_lt_zero i), fun i _ => by simp⟩
  | cons bit rest ih =>
    intro state fits zero
    rw [feed_cons] at zero
    rw [List.length_cons] at fits
    obtain ⟨read, empty⟩ := ih (shift poly state bit) (by omega) zero
    have clear : (shift poly state bit).getLsbD 0 = false := by
      have last := empty (w - 1) (by omega)
      have bound : w - 1 < w := by omega
      simpa [BitVec.getMsbD, bound] using last
    obtain ⟨top, moved⟩ := shift_low_clear poly state bit odd clear
    have below : ∀ i, (state <<< 1).getMsbD i = state.getMsbD (i + 1) := by
      intro i
      rw [BitVec.getMsbD_shiftLeft]
    rw [moved] at read empty
    constructor
    · intro i h
      cases i with
      | zero => simpa [BitVec.msb] using top.symm
      | succ i =>
        rw [List.getElem_cons_succ, ← below]
        exact read i (by simpa using h)
    · intro i h
      cases i with
      | zero => simp at h
      | succ i =>
        rw [← below]
        exact empty i (by simpa using h)

/-- A burst no longer than the register is seen by an empty register. -/
theorem burst_seen (poly : BitVec w) (odd : poly.getLsbD 0 = true) (bits : List Bool)
    (fits : bits.length ≤ w) (zero : feed poly 0#w bits = 0#w) :
    ∀ bit ∈ bits, bit = false := by
  intro bit member
  obtain ⟨i, h, rfl⟩ := List.mem_iff_getElem.mp member
  rw [(feed_eq_zero poly odd bits 0#w fits zero).1 i h]
  simp

/-- Equal bits that follow never clear a difference. -/
theorem feed_false_eq_zero (poly : BitVec w) (odd : poly.getLsbD 0 = true) (n : Nat) :
    ∀ state, feed poly state (List.replicate n false) = 0#w → state = 0#w := by
  have positive : 0 < w := by
    by_contra none
    rw [BitVec.getLsbD_of_ge poly 0 (by omega)] at odd
    cases odd
  induction n with
  | zero => intro state zero; exact zero
  | succ n ih =>
    intro state zero
    rw [List.replicate_succ, feed_cons] at zero
    have stepZero := ih _ zero
    have one : feed poly state [false] = 0#w := stepZero
    obtain ⟨top, rest⟩ := feed_eq_zero poly odd [false] state positive one
    apply BitVec.eq_of_getMsbD_eq
    intro i _
    cases i with
    | zero => simpa using (top 0 (by simp)).symm
    | succ i => simpa using rest (i + 1) (by simp)

/-- Feeding no difference at all leaves an empty register empty. -/
theorem feed_false_zero (poly : BitVec w) (n : Nat) :
    feed poly 0#w (List.replicate n false) = 0#w := by
  induction n with
  | zero => rfl
  | succ n ih =>
    rw [List.replicate_succ, feed_cons]
    simpa [shift] using ih

theorem zipWith_xor_self (xs : List Bool) :
    List.zipWith xor xs xs = List.replicate xs.length false := by
  induction xs with
  | nil => rfl
  | cons x rest ih => simp [List.replicate_succ]

/-- **Burst detection.** Two strings that agree before and after a window of at most `w` bits
and leave the same register agree in the window too. -/
theorem burst_detected (poly state : BitVec w) (odd : poly.getLsbD 0 = true)
    (before xs ys after : List Bool) (same : xs.length = ys.length) (fits : xs.length ≤ w)
    (equal : feed poly state (before ++ xs ++ after) = feed poly state (before ++ ys ++ after)) :
    xs = ys := by
  have difference : feed poly 0#w (List.zipWith xor (before ++ xs ++ after)
      (before ++ ys ++ after)) = 0#w := by
    have linear := feed_xor poly (before ++ xs ++ after) (before ++ ys ++ after)
      (by simp [same]) state state
    rw [BitVec.xor_self] at linear
    rw [linear, equal, BitVec.xor_self]
  rw [List.zipWith_append (by simp [same]), List.zipWith_append rfl, zipWith_xor_self,
    zipWith_xor_self, feed_append, feed_append, feed_false_zero] at difference
  have window := feed_false_eq_zero poly odd _ _ difference
  have quiet := burst_seen poly odd _ (by simp [same] at *; omega) window
  apply List.ext_getElem same
  intro i hx hy
  have inside : i < (List.zipWith xor xs ys).length := by simp; omega
  have bit := quiet (List.zipWith xor xs ys)[i] (List.getElem_mem inside)
  simpa using bit

/-- Burst detection by position: a difference confined to `w` consecutive places is seen. -/
theorem burst_detected_at (poly state : BitVec w) (odd : poly.getLsbD 0 = true)
    (xs ys : List Bool) (k : Nat) (same : xs.length = ys.length)
    (confined : ∀ i, xs[i]? ≠ ys[i]? → k ≤ i ∧ i < k + w)
    (equal : feed poly state xs = feed poly state ys) : xs = ys := by
  have agree : ∀ i, (i < k ∨ k + w ≤ i) → xs[i]? = ys[i]? := by
    intro i outside
    by_contra differ
    have := confined i differ
    omega
  have before : xs.take k = ys.take k := by
    apply List.ext_getElem?
    intro i
    rw [List.getElem?_take, List.getElem?_take]
    split
    · exact agree i (by omega)
    · rfl
  have after : xs.drop (k + w) = ys.drop (k + w) := by
    apply List.ext_getElem?
    intro i
    rw [List.getElem?_drop, List.getElem?_drop]
    exact agree _ (by omega)
  have split_at : ∀ zs : List Bool,
      zs = zs.take k ++ (zs.drop k).take w ++ zs.drop (k + w) := by
    intro zs
    rw [List.append_assoc, ← List.drop_drop, List.take_append_drop, List.take_append_drop]
  rw [split_at xs, split_at ys, before, after] at equal
  have window := burst_detected poly state odd _ _ _ _ (by simp [same])
    (List.length_take_le _ _) equal
  rw [split_at xs, split_at ys, before, after, window]

end Esp8266.Lib.ShiftRegister
