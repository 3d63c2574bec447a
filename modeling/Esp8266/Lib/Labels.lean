import Mathlib.Data.List.Basic

/-!
# Names in labels

A name on the wire is its labels, each behind a byte with its length, and a zero behind the last.
-/
set_option autoImplicit false

namespace Esp8266.Lib.Labels

/-- What a length byte that is not zero can announce. -/
def IsLabel (label : List UInt8) : Prop := 0 < label.length ∧ label.length < 256

/-- The labels on the wire, without the zero behind them. -/
def wire (labels : List (List UInt8)) : List UInt8 :=
  labels.flatMap fun label => UInt8.ofNat label.length :: label

@[simp] theorem wire_nil : wire [] = [] := rfl

theorem wire_cons (label : List UInt8) (labels : List (List UInt8)) :
    wire (label :: labels) = UInt8.ofNat label.length :: (label ++ wire labels) := by
  rw [wire, List.flatMap_cons]
  rfl

theorem toNat_length {label : List UInt8} (isLabel : IsLabel label) :
    (UInt8.ofNat label.length).toNat = label.length :=
  UInt8.toNat_ofNat_of_lt isLabel.2

theorem length_ne_zero {label : List UInt8} (isLabel : IsLabel label) :
    UInt8.ofNat label.length ≠ 0 := by
  intro zero
  have same := congrArg UInt8.toNat zero
  rw [toNat_length isLabel] at same
  exact Nat.ne_of_gt isLabel.1 same

/-- The labels of a name can be read off it, up to where no label is in front. -/
theorem wire_unique {labels : List (List UInt8)} :
    ∀ {labels' : List (List UInt8)} {rest behind : List UInt8},
      (∀ label ∈ labels, IsLabel label) → (∀ label ∈ labels', IsLabel label) →
      (∀ label more, IsLabel label → rest ≠ UInt8.ofNat label.length :: (label ++ more)) →
      wire labels ++ rest = wire labels' ++ 0 :: behind →
      labels = labels' ∧ rest = 0 :: behind := by
  induction labels with
  | nil =>
    intro labels' rest behind _ all' stuck same
    cases labels' with
    | nil => exact ⟨rfl, same⟩
    | cons label labels' =>
      rw [wire_cons, List.cons_append, List.append_assoc] at same
      exact absurd same (stuck label _ (all' _ List.mem_cons_self))
  | cons label labels ih =>
    intro labels' rest behind all all' stuck same
    cases labels' with
    | nil =>
      rw [wire_cons] at same
      exact absurd (List.cons.inj same).1 (length_ne_zero (all _ List.mem_cons_self))
    | cons label' labels' =>
      rw [wire_cons, wire_cons, List.cons_append, List.cons_append, List.append_assoc,
        List.append_assoc] at same
      obtain ⟨lengths, texts⟩ := List.cons.inj same
      have length : label.length = label'.length := by
        rw [← toNat_length (all _ List.mem_cons_self), lengths,
          toNat_length (all' _ List.mem_cons_self)]
      obtain ⟨rfl, following⟩ := List.append_inj texts length
      obtain ⟨rfl, rfl⟩ := ih (fun label mem => all label (List.mem_cons_of_mem _ mem))
        (fun label mem => all' label (List.mem_cons_of_mem _ mem)) stuck following
      exact ⟨rfl, rfl⟩

end Esp8266.Lib.Labels
