import Mathlib.Data.List.Basic

/-!
# Programs that a reset may end

A program works on a state. It returns, or a reset ends it where it is; what a reset finds is a
state too. A triple tells what holds in either case.
-/
set_option autoImplicit false

namespace Esp8266.Lib.Resets

variable {σ α β : Type}

inductive Outcome (σ α : Type) where
  | reset (s : σ)
  | returned (a : α) (s : σ)

def Program (σ α : Type) := σ → Outcome σ α

namespace Program

/-- One program behind another. -/
def andThen (m : Program σ α) (f : α → Program σ β) : Program σ β := fun s =>
  match m s with
  | .reset s => .reset s
  | .returned a s => f a s

instance : Monad (Program σ) where
  pure a := fun s => .returned a s
  bind := andThen

/-- From `s`, the program is reset in a state of the first kind or returns in one of the second. -/
def Ends (m : Program σ α) (s : σ) (atReset : σ → Prop) (post : α → σ → Prop) : Prop :=
  match m s with
  | .reset s => atReset s
  | .returned a s => post a s

theorem ends_pure {a : α} {s : σ} {atReset : σ → Prop} {post : α → σ → Prop} (holds : post a s) :
    Ends (pure a) s atReset post := holds

theorem ends_bind {m : Program σ α} {f : α → Program σ β} {s : σ} {atReset : σ → Prop}
    {post : β → σ → Prop} (ends : m.Ends s atReset fun a s => (f a).Ends s atReset post) :
    (m >>= f).Ends s atReset post := by
  unfold Ends at ends ⊢
  show match andThen m f s with
    | .reset s => atReset s
    | .returned a s => post a s
  unfold andThen
  cases run : m s with
  | reset s => rwa [run] at ends
  | returned a s => rwa [run] at ends

theorem Ends.weaken {m : Program σ α} {s : σ} {atReset atReset' : σ → Prop}
    {post post' : α → σ → Prop} (ends : m.Ends s atReset post) (reset : ∀ s, atReset s → atReset' s)
    (returns : ∀ a s, post a s → post' a s) : m.Ends s atReset' post' := by
  unfold Ends at ends ⊢
  cases run : m s with
  | reset s =>
    rw [run] at ends
    exact reset s ends
  | returned a s =>
    rw [run] at ends
    exact returns a s ends

/-- Where no reset comes, the program returns. -/
theorem Ends.returns {m : Program σ α} {s : σ} {post : α → σ → Prop}
    (ends : m.Ends s (fun _ => False) post) : ∃ a s', m s = .returned a s' ∧ post a s' := by
  unfold Ends at ends
  cases run : m s with
  | reset s =>
    rw [run] at ends
    exact ends.elim
  | returned a s' =>
    rw [run] at ends
    exact ⟨a, s', rfl, ends⟩

end Program

end Esp8266.Lib.Resets
