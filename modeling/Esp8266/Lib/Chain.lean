import Mathlib.Data.List.Basic

/-!
# Chains of cells

Cells that point to one another, from a first one to a last one that points to nothing. What is
stored elsewhere leaves a chain as it is, a chain grows at its end or in front, and a cell can be
taken out of it.
-/
set_option autoImplicit false

namespace Esp8266.Lib

variable {α : Type*}

/-- `cells` are those met from `start` on. -/
def Chain (next : α → Option α) : Option α → List α → Prop
  | start, [] => start = none
  | start, a :: cells => start = some a ∧ Chain next (next a) cells

namespace Chain

theorem head {next : α → Option α} {start : Option α} {cells : List α}
    (chain : Chain next start cells) : start = cells.head? := by
  cases cells with
  | nil => exact chain
  | cons a cells => exact chain.1

/-- Cells outside a chain do not matter to it. -/
theorem frame {next next' : α → Option α} {cells : List α} : ∀ {start : Option α},
    Chain next start cells → (∀ a ∈ cells, next' a = next a) → Chain next' start cells := by
  induction cells with
  | nil => intro start chain _; exact chain
  | cons a cells ih =>
    intro start chain same
    refine ⟨chain.1, ?_⟩
    rw [same a List.mem_cons_self]
    exact ih chain.2 fun b inside => same b (List.mem_cons_of_mem a inside)

/-- A cell behind the last one, which points to it now. -/
theorem concat {next next' : α → Option α} {last new : α} {cells : List α} :
    ∀ {start : Option α}, Chain next start (cells ++ [last]) → (∀ a ∈ cells, next' a = next a) →
      next' last = some new → next' new = none →
      Chain next' start (cells ++ [last] ++ [new]) := by
  induction cells with
  | nil =>
    intro start chain _ points ends
    refine ⟨chain.1, ?_⟩
    rw [points]
    exact ⟨rfl, ends⟩
  | cons a cells ih =>
    intro start chain same points ends
    refine ⟨chain.1, ?_⟩
    rw [same a List.mem_cons_self]
    exact ih chain.2 (fun b inside => same b (List.mem_cons_of_mem a inside)) points ends

/-- What follows a cell. -/
theorem drop {next : α → Option α} {a : α} {back : List α} (front : List α) :
    ∀ {start : Option α}, Chain next start (front ++ a :: back) → Chain next (next a) back := by
  induction front with
  | nil =>
    intro start chain
    exact chain.2
  | cons b front ih =>
    intro start chain
    exact ih chain.2

/-- A cell is taken out: the one before it points to the one after it. -/
theorem bypass {next next' : α → Option α} {before a : α} {back : List α} (front : List α) :
    ∀ {start : Option α}, Chain next start (front ++ before :: a :: back) →
      (∀ b ∈ front ++ back, next' b = next b) → next' before = next a →
      Chain next' start (front ++ before :: back) := by
  induction front with
  | nil =>
    intro start chain same points
    refine ⟨chain.1, ?_⟩
    rw [points]
    exact chain.2.2.frame same
  | cons b front ih =>
    intro start chain same points
    refine ⟨chain.1, ?_⟩
    rw [same b List.mem_cons_self]
    exact ih chain.2 (fun c inside => same c (List.mem_cons_of_mem b inside)) points

end Chain

end Esp8266.Lib
