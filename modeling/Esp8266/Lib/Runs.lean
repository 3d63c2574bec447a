import Mathlib.Data.List.Basic

/-!
# Runs of a component

A component answers each request from its state and moves to the next one. What one request
preserves, a run preserves; two components that answer alike and stay related answer a whole
run alike.
-/
set_option autoImplicit false

namespace Esp8266.Lib.Runs

variable {ι σ σ' ο : Type*}

/-- Answer the requests in order. -/
def run (step : ι → σ → ο × σ) : List ι → σ → List ο × σ
  | [], state => ([], state)
  | request :: rest, state =>
    let (answer, next) := step request state
    let (answers, last) := run step rest next
    (answer :: answers, last)

/-- The state after a run. -/
def after (step : ι → σ → ο × σ) (requests : List ι) (state : σ) : σ :=
  (run step requests state).2

@[simp] theorem after_nil (step : ι → σ → ο × σ) (state : σ) : after step [] state = state := rfl

@[simp] theorem after_cons (step : ι → σ → ο × σ) (request : ι) (rest : List ι) (state : σ) :
    after step (request :: rest) state = after step rest (step request state).2 := rfl

theorem after_append (step : ι → σ → ο × σ) (xs ys : List ι) :
    ∀ state, after step (xs ++ ys) state = after step ys (after step xs state) := by
  induction xs with
  | nil => intro state; rfl
  | cons x rest ih => intro state; exact ih (step x state).2

/-- Every request of the run is made in a state that admits it. -/
def Admits (step : ι → σ → ο × σ) (guard : ι → σ → Prop) : List ι → σ → Prop
  | [], _ => True
  | request :: rest, state => guard request state ∧ Admits step guard rest (step request state).2

instance decidableAdmits (step : ι → σ → ο × σ) (guard : ι → σ → Prop)
    [∀ request state, Decidable (guard request state)] :
    ∀ requests state, Decidable (Admits step guard requests state)
  | [], _ => inferInstanceAs (Decidable True)
  | request :: rest, state =>
    have := decidableAdmits step guard rest (step request state).2
    inferInstanceAs (Decidable (_ ∧ _))

/-- The invariant rule, for requests made where the guard holds. -/
theorem after_invariant {step : ι → σ → ο × σ} {guard : ι → σ → Prop} {invariant : σ → Prop}
    (preserves : ∀ request state, guard request state → invariant state →
      invariant (step request state).2) (requests : List ι) :
    ∀ state, Admits step guard requests state → invariant state →
      invariant (after step requests state) := by
  induction requests with
  | nil => intro state _ initial; exact initial
  | cons request rest ih =>
    intro state admits initial
    exact ih _ admits.2 (preserves request state admits.1 initial)

/-- The invariant rule, for requests of every kind. -/
theorem after_preserves {step : ι → σ → ο × σ} {invariant : σ → Prop}
    (preserves : ∀ request state, invariant state → invariant (step request state).2)
    (requests : List ι) :
    ∀ state, invariant state → invariant (after step requests state) := by
  induction requests with
  | nil => intro state initial; exact initial
  | cons request rest ih => intro state initial; exact ih _ (preserves request state initial)

/-- Where a step made outside of the guard shows at once, the runs in which it never shows are
those made within the guard. -/
theorem always_iff_admits {step : ι → σ → ο × σ} {guard : ι → σ → Prop} {invariant good : σ → Prop}
    (preserves : ∀ request state, guard request state → invariant state →
      invariant (step request state).2) (fine : ∀ state, invariant state → good state)
    (shows : ∀ request state, ¬guard request state → invariant state →
      ¬good (step request state).2) (requests : List ι) :
    ∀ state, invariant state →
      ((∀ front, front <+: requests → good (after step front state)) ↔
        Admits step guard requests state) := by
  induction requests with
  | nil =>
    intro state initial
    refine iff_of_true (fun front isFront => ?_) trivial
    rw [List.prefix_nil.1 isFront]
    exact fine state initial
  | cons request rest ih =>
    intro state initial
    constructor
    · intro always
      have admitted : guard request state := by
        by_contra refused
        exact shows request state refused initial
          (always [request] ⟨rest, rfl⟩)
      refine ⟨admitted, (ih _ (preserves request state admitted initial)).1 ?_⟩
      intro front isFront
      exact always (request :: front) ((List.prefix_cons_inj request).2 isFront)
    · intro admits front isFront
      cases front with
      | nil => exact fine state initial
      | cons first front =>
        obtain ⟨rfl, isFront'⟩ := List.cons_prefix_cons.1 isFront
        exact (ih _ (preserves first state admits.1 initial)).2 admits.2 front isFront'

/-- What holds of every answer given in a state of the invariant holds of all answers of a run. -/
theorem run_answers {step : ι → σ → ο × σ} {invariant : σ → Prop} {answered : ο → Prop}
    (preserves : ∀ request state, invariant state →
      answered (step request state).1 ∧ invariant (step request state).2) (requests : List ι) :
    ∀ state, invariant state → ∀ answer ∈ (run step requests state).1, answered answer := by
  induction requests with
  | nil => intro state _ answer member; exact absurd member List.not_mem_nil
  | cons request rest ih =>
    intro state initial answer member
    obtain ⟨first, next⟩ := preserves request state initial
    rcases List.mem_cons.1 member with rfl | later
    · exact first
    · exact ih _ next answer later

/-- Two components side by side. -/
def both (step : ι → σ → ο × σ) (step' : ι → σ' → ο × σ') (request : ι) (s : σ × σ') :
    (ο × ο) × σ × σ' :=
  (((step request s.1).1, (step' request s.2).1), (step request s.1).2, (step' request s.2).2)

theorem after_both (step : ι → σ → ο × σ) (step' : ι → σ' → ο × σ') (requests : List ι) :
    ∀ s : σ × σ', after (both step step') requests s =
      (after step requests s.1, after step' requests s.2) := by
  induction requests with
  | nil => intro s; rfl
  | cons request rest ih => intro s; exact ih _

theorem admits_both (step : ι → σ → ο × σ) (step' : ι → σ' → ο × σ') (guard : ι → σ → Prop)
    (requests : List ι) :
    ∀ s : σ × σ', Admits (both step step') (fun request s => guard request s.1) requests s ↔
      Admits step guard requests s.1 := by
  induction requests with
  | nil => intro s; exact Iff.rfl
  | cons request rest ih => intro s; exact and_congr_right fun _ => ih _

/-! ## Refinement -/

variable {α : Type*}

/-- What a specification allows a component to answer, request after request. -/
inductive Allows (spec : ι → ο → α → α → Prop) : List ι → List ο → α → α → Prop where
  | nil {a : α} : Allows spec [] [] a a
  | cons {request : ι} {rest : List ι} {answer : ο} {answers : List ο} {a b c : α}
      (first : spec request answer a b) (later : Allows spec rest answers b c) :
      Allows spec (request :: rest) (answer :: answers) a c

/-- The simulation rule for a specification: every admitted step of the component, from a state
related to one of the specification, is a step that the specification allows. -/
theorem run_allowed {step : ι → σ → ο × σ} {guard : ι → σ → Prop} {spec : ι → ο → α → α → Prop}
    {related : σ → α → Prop}
    (simulates : ∀ request state a, guard request state → related state a →
      ∃ b, spec request (step request state).1 a b ∧ related (step request state).2 b)
    (requests : List ι) :
    ∀ state a, Admits step guard requests state → related state a →
      ∃ b, Allows spec requests (run step requests state).1 a b ∧
        related (after step requests state) b := by
  induction requests with
  | nil => intro state a _ initial; exact ⟨a, .nil, initial⟩
  | cons request rest ih =>
    intro state a admits initial
    obtain ⟨b, first, next⟩ := simulates request state a admits.1 initial
    obtain ⟨c, later, last⟩ := ih _ b admits.2 next
    exact ⟨c, .cons first later, last⟩

/-- A guard that does not look at the state. -/
theorem admits_of_forall (step : ι → σ → ο × σ) {guard : ι → Prop} (requests : List ι) :
    ∀ state, (∀ request ∈ requests, guard request) →
      Admits step (fun request _ => guard request) requests state := by
  induction requests with
  | nil => intro _ _; trivial
  | cons request rest ih =>
    intro state guarded
    exact ⟨guarded request List.mem_cons_self,
      ih _ (fun r member => guarded r (List.mem_cons_of_mem request member))⟩

end Esp8266.Lib.Runs
