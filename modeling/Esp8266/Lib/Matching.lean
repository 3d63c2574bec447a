import Mathlib.Data.List.Basic

/-!
# Matchers with one index

A matcher reads a text once and keeps only how much of a pattern it has seen last. Where the text
departs from the pattern it starts afresh, and either tries the element that departs again as the
first one, or drops it. It attempts to match at some places of the text, finds the pattern where
it stands at one of these, and misses it elsewhere.
-/
set_option autoImplicit false

namespace Esp8266.Lib.Matching

variable {α : Type*} [DecidableEq α]

/-- How far a text begins like a pattern. -/
def agree : List α → List α → Nat
  | a :: pattern, b :: text => if a = b then agree pattern text + 1 else 0
  | _, _ => 0

/-- From one attempt to the next, after `k` elements that match. -/
def jump (again : Bool) (k : Nat) : Nat := if again then max 1 k else k + 1

/-- The places of a text where an attempt begins. -/
inductive Tried (again : Bool) (pattern : List α) : List α → Nat → Prop
  | here (text : List α) : Tried again pattern text 0
  | later {text : List α} {i : Nat} (more : text ≠ [])
      (rest : Tried again pattern (text.drop (jump again (agree pattern text))) i) :
      Tried again pattern text (jump again (agree pattern text) + i)

/-- One element is read after `j` elements of the pattern. -/
def advance (again : Bool) (pattern : List α) (j : Nat) (a : α) : Nat :=
  if pattern[j]? = some a then j + 1
  else if again ∧ pattern[0]? = some a then 1
  else 0

/-- The number of elements up to the first match. -/
def hit (again : Bool) (pattern : List α) : Nat → List α → Option Nat
  | _, [] => none
  | j, a :: text =>
    if pattern.length ≤ advance again pattern j a then some 1
    else (hit again pattern (advance again pattern j a) text).map (· + 1)

/-! ## Prefixes -/

theorem agree_eq_length_iff {pattern text : List α} :
    agree pattern text = pattern.length ↔ pattern <+: text := by
  induction pattern generalizing text with
  | nil => exact iff_of_true rfl (List.nil_prefix)
  | cons a pattern ih =>
    cases text with
    | nil =>
      refine iff_of_false (fun same => ?_) fun le => ?_
      · exact absurd same.symm (Nat.succ_ne_zero _)
      · exact absurd (List.prefix_nil.1 le) (List.cons_ne_nil a pattern)
    | cons b text =>
      rw [List.cons_prefix_cons, agree]
      by_cases same : a = b
      · rw [if_pos same, List.length_cons, Nat.add_right_cancel_iff, ih]
        exact (and_iff_right same).symm
      · rw [if_neg same]
        exact iff_of_false (Nat.succ_ne_zero _).symm fun both => same both.1

/-- The element behind what agrees departs from the pattern. -/
theorem departs {pattern text : List α} {a : α} {rest : List α}
    (behind : text.drop (agree pattern text) = a :: rest) :
    pattern[agree pattern text]? ≠ some a := by
  induction pattern generalizing text with
  | nil => exact (Option.some_ne_none a).symm
  | cons b pattern ih =>
    cases text with
    | nil => exact absurd behind (List.cons_ne_nil a rest).symm
    | cons c text =>
      rw [agree] at behind ⊢
      by_cases same : b = c
      · rw [if_pos same] at behind ⊢
        exact ih behind
      · rw [if_neg same] at behind ⊢
        obtain ⟨rfl, -⟩ := List.cons_eq_cons.1 behind
        exact fun first => same (Option.some.inj first)

/-! ## Attempts -/

variable {again : Bool} {pattern : List α}

/-- What agrees with the pattern is read through. -/
theorem hit_run (j : Nat) (below : j < pattern.length) (text : List α) :
    hit again pattern j text =
      if agree (pattern.drop j) text = pattern.length - j then some (pattern.length - j)
      else (hit again pattern (j + agree (pattern.drop j) text)
        (text.drop (agree (pattern.drop j) text))).map (· + agree (pattern.drop j) text) := by
  induction text generalizing j with
  | nil =>
    have none_agree : agree (pattern.drop j) ([] : List α) = 0 := by
      cases pattern.drop j <;> rfl
    rw [none_agree, if_neg (by omega)]
    rfl
  | cons a text ih =>
    have split : pattern.drop j = pattern[j] :: pattern.drop (j + 1) :=
      List.drop_eq_getElem_cons below
    by_cases same : pattern[j] = a
    · have next : advance again pattern j a = j + 1 :=
        if_pos ((List.getElem?_eq_getElem below).trans (congrArg some same))
      have longer : agree (pattern.drop j) (a :: text) = agree (pattern.drop (j + 1)) text + 1 := by
        rw [split, agree, if_pos same]
      rw [hit, next, longer, List.drop_succ_cons]
      by_cases last : pattern.length ≤ j + 1
      · have empty : pattern.drop (j + 1) = [] := List.drop_eq_nil_of_le last
        have none_agree : agree ([] : List α) text = 0 := rfl
        rw [if_pos last, empty, none_agree, if_pos (by omega),
          show pattern.length - j = 1 by omega]
      · rw [if_neg last, ih (j + 1) (by omega)]
        by_cases whole : agree (pattern.drop (j + 1)) text = pattern.length - (j + 1)
        · rw [if_pos whole, if_pos (by omega)]
          exact congrArg some (show pattern.length - (j + 1) + 1 = pattern.length - j by omega)
        · rw [if_neg whole, if_neg (by omega), Option.map_map, Nat.add_right_comm j 1]
          rfl
    · have none_agree : agree (pattern.drop j) (a :: text) = 0 := by
        rw [split, agree, if_neg same]
      rw [none_agree, if_neg (by omega)]
      exact Option.map_id'.symm

/-- An attempt succeeds, or the next one begins after the jump. -/
theorem hit_attempt (some_pattern : pattern ≠ []) (text : List α) :
    hit again pattern 0 text =
      if agree pattern text = pattern.length then some pattern.length
      else (hit again pattern 0 (text.drop (jump again (agree pattern text)))).map
        (· + jump again (agree pattern text)) := by
  rw [hit_run 0 (List.length_pos_of_ne_nil some_pattern), List.drop_zero, Nat.sub_zero,
    Nat.zero_add]
  by_cases whole : agree pattern text = pattern.length
  · rw [if_pos whole, if_pos whole]
  rw [if_neg whole, if_neg whole]
  generalize counted : agree pattern text = k
  cases behind : text.drop k with
  | nil =>
    have empty : text.drop (jump again k) = [] := by
      rw [List.drop_eq_nil_iff] at behind ⊢
      unfold jump
      split <;> omega
    rw [empty]
    rfl
  | cons a rest =>
    have differs : pattern[k]? ≠ some a := counted ▸ departs (counted.symm ▸ behind)
    have after : text.drop (k + 1) = rest := by
      rw [← List.drop_drop, behind]
      rfl
    have short : ¬ pattern.length ≤ 0 := Nat.not_le.2 (List.length_pos_of_ne_nil some_pattern)
    cases again with
    | false =>
      have dropped : advance false pattern k a = 0 := by
        rw [advance, if_neg differs, if_neg fun both => Bool.false_ne_true both.1]
      rw [jump, if_neg Bool.false_ne_true, after, hit, dropped, if_neg short, Option.map_map]
      exact congrArg (Option.map · _) (funext fun n => Nat.add_right_comm n 1 k)
    | true =>
      cases k with
      | zero =>
        have dropped : advance true pattern 0 a = 0 := by
          rw [advance, if_neg differs, if_neg fun both => differs both.2]
        rw [jump, if_pos rfl, Nat.max_eq_left (Nat.zero_le 1), after, hit, dropped, if_neg short,
          Option.map_map]
        rfl
      | succ k =>
        have tried : advance true pattern (k + 1) a = advance true pattern 0 a := by
          by_cases first : pattern[0]? = some a
          · rw [advance, if_neg differs, if_pos ⟨rfl, first⟩, advance, if_pos first]
          · rw [advance, if_neg differs, if_neg fun both => first both.2, advance, if_neg first,
              if_neg fun both => first both.2]
        rw [jump, if_pos rfl, Nat.max_eq_right (Nat.succ_le_succ (Nat.zero_le k)), behind, hit,
          tried]
        rfl

/-! ## What is found -/

theorem hit_pos {j n : Nat} {text : List α} (found : hit again pattern j text = some n) :
    1 ≤ n := by
  cases text with
  | nil => exact absurd found.symm (Option.some_ne_none n)
  | cons a rest =>
    rw [hit] at found
    split at found
    · exact Nat.le_of_eq (Option.some.inj found)
    · obtain ⟨m, -, rfl⟩ := Option.map_eq_some_iff.1 found
      exact Nat.le_add_left 1 m

theorem jump_pos (again : Bool) (k : Nat) : 0 < jump again k := by
  unfold jump
  split <;> omega

/-- A match ends behind the pattern, at a place where an attempt began. -/
theorem tried_of_hit (some_pattern : pattern ≠ []) {text : List α} {n : Nat}
    (found : hit again pattern 0 text = some n) :
    ∃ i, Tried again pattern text i ∧ pattern <+: text.drop i ∧ n = i + pattern.length := by
  induction counted : text.length using Nat.strongRecOn generalizing text n with
  | ind size ih =>
    rw [hit_attempt some_pattern] at found
    by_cases whole : agree pattern text = pattern.length
    · rw [if_pos whole] at found
      exact ⟨0, .here text, agree_eq_length_iff.1 whole,
        (Option.some.inj found).symm.trans (Nat.zero_add _).symm⟩
    · rw [if_neg whole] at found
      obtain ⟨m, later, rfl⟩ := Option.map_eq_some_iff.1 found
      have more : text ≠ [] := by
        rintro rfl
        rw [List.drop_nil] at later
        exact absurd later.symm (Option.some_ne_none m)
      have shorter : (text.drop (jump again (agree pattern text))).length < size := by
        have := jump_pos again (agree pattern text)
        have := List.length_pos_of_ne_nil more
        rw [List.length_drop, ← counted]
        omega
      obtain ⟨i, tried, stands, rfl⟩ := ih _ shorter later rfl
      refine ⟨_, .later more tried, ?_, ?_⟩
      · rwa [List.drop_drop] at stands
      · omega

/-- What stands where an attempt begins is found, or something before it. -/
theorem hit_of_tried (some_pattern : pattern ≠ []) {text : List α} {i : Nat}
    (tried : Tried again pattern text i) (stands : pattern <+: text.drop i) :
    ∃ n ≤ i + pattern.length, hit again pattern 0 text = some n := by
  induction tried with
  | here text =>
    refine ⟨pattern.length, Nat.le_add_left _ _, ?_⟩
    rw [List.drop_zero] at stands
    rw [hit_attempt some_pattern, if_pos (agree_eq_length_iff.2 stands)]
  | later more rest ih =>
    rename_i text i
    rw [hit_attempt some_pattern]
    by_cases whole : agree pattern text = pattern.length
    · exact ⟨pattern.length, Nat.le_add_left _ _, if_pos whole⟩
    · rw [← List.drop_drop] at stands
      obtain ⟨n, before, found⟩ := ih stands
      rw [if_neg whole, found]
      exact ⟨n + jump again (agree pattern text), by omega, rfl⟩

end Esp8266.Lib.Matching
