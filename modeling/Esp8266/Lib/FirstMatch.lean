import Mathlib.Data.List.Basic

/-!
# Changing the first match

A list whose first element that satisfies `p` is found by its index and changed there.
-/
set_option autoImplicit false

namespace Esp8266.Lib.FirstMatch

variable {α β : Type} {p p' : α → Bool} {f : α → α}

/-- A part that the change leaves as it is. -/
theorem map_modify {g : α → β} {l : List α} {i : Nat}
    (same : ∀ a, l[i]? = some a → g (f a) = g a) : (l.modify i f).map g = l.map g := by
  apply List.ext_getElem?
  intro j
  rw [List.getElem?_map, List.getElem?_map, List.getElem?_modify]
  by_cases here : i = j
  · subst here
    cases at_i : l[i]? with
    | none => rfl
    | some a => simp [same a at_i]
  · simp [here]

theorem find?_of_findIdx? {l : List α} {i : Nat} (found : l.findIdx? p = some i) :
    ∃ a, l[i]? = some a ∧ p a = true ∧ l.find? p = some a := by
  induction l generalizing i with
  | nil => cases found
  | cons a l ih =>
    rw [List.findIdx?_cons] at found
    by_cases first : p a = true
    · rw [if_pos first, Option.some.injEq] at found
      subst found
      exact ⟨a, rfl, first, List.find?_cons_of_pos first⟩
    · rw [if_neg first] at found
      obtain ⟨j, later, rfl⟩ := Option.map_eq_some_iff.mp found
      obtain ⟨b, at_j, holds, finds⟩ := ih later
      exact ⟨b, at_j, holds, by rw [List.find?_cons_of_neg first, finds]⟩

theorem find?_of_findIdx?_none {l : List α} (missing : l.findIdx? p = none) :
    l.find? p = none := by
  rw [List.find?_eq_none]
  intro a mem
  have := List.findIdx?_eq_none_iff.mp missing a mem
  rw [this]
  decide

/-- What is found of the changed list by the same condition. -/
theorem find?_modify_same {l : List α} {i : Nat} (found : l.findIdx? p = some i)
    (keeps : ∀ a, p a = true → p (f a) = true) :
    (l.modify i f).find? p = (l.find? p).map f := by
  induction l generalizing i with
  | nil => cases found
  | cons a l ih =>
    rw [List.findIdx?_cons] at found
    by_cases first : p a = true
    · rw [if_pos first, Option.some.injEq] at found
      subst found
      rw [List.find?_cons_of_pos first]
      exact List.find?_cons_of_pos (keeps a first)
    · rw [if_neg first] at found
      obtain ⟨j, later, rfl⟩ := Option.map_eq_some_iff.mp found
      rw [List.modify_succ_cons, List.find?_cons_of_neg first, List.find?_cons_of_neg first]
      exact ih later

/-- What is found of the changed list by a condition of no element that satisfies `p`. -/
theorem find?_modify_other {l : List α} {i : Nat} (found : l.findIdx? p = some i)
    (keeps : ∀ a, p a = true → p (f a) = true) (apart : ∀ a, p a = true → p' a = false) :
    (l.modify i f).find? p' = l.find? p' := by
  induction l generalizing i with
  | nil => cases found
  | cons a l ih =>
    rw [List.findIdx?_cons] at found
    by_cases first : p a = true
    · rw [if_pos first, Option.some.injEq] at found
      subst found
      have changed : ¬ p' (f a) = true := by rw [apart _ (keeps a first)]; decide
      have before : ¬ p' a = true := by rw [apart a first]; decide
      rw [List.modify_zero_cons, List.find?_cons_of_neg changed, List.find?_cons_of_neg before]
    · rw [if_neg first] at found
      obtain ⟨j, later, rfl⟩ := Option.map_eq_some_iff.mp found
      rw [List.modify_succ_cons, List.find?_cons, List.find?_cons, ih later]

end Esp8266.Lib.FirstMatch
