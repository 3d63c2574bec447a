import Mathlib.Data.List.Basic

/-!
# Programs that read a stream

A program works on a state and on what has arrived of a stream. It comes to its end with what is
left of the stream, waits where nothing is left, or ends in a fault. A program that takes `n`
elements reads these and no others, whatever they are.
-/
set_option autoImplicit false

namespace Esp8266.Lib.Reading

variable {σ ι α β : Type}

inductive Outcome (σ ι α : Type) where
  | fault
  | waits
  | done (a : α) (s : σ) (left : List ι)

def Program (σ ι α : Type) := σ → List ι → Outcome σ ι α

namespace Program

/-- One program behind another. -/
def andThen (m : Program σ ι α) (f : α → Program σ ι β) : Program σ ι β := fun s input =>
  match m s input with
  | .fault => .fault
  | .waits => .waits
  | .done a s left => f a s left

instance : Monad (Program σ ι) where
  pure a := fun s input => .done a s input
  bind := andThen

/-- The next element. -/
def next : Program σ ι ι
  | _, [] => .waits
  | s, x :: left => .done x s left

def get : Program σ ι σ := fun s input => .done s s input

def modify (f : σ → σ) : Program σ ι Unit := fun s input => .done () (f s) input

/-- An access that has to be inside. -/
def access (inside : Prop) [Decidable inside] : Program σ ι Unit := fun s input =>
  if inside then .done () s input else .fault

theorem bind_done {m : Program σ ι α} {f : α → Program σ ι β} {s s' : σ} {input left : List ι}
    {a : α} (ends : m s input = .done a s' left) : (m >>= f) s input = f a s' left := by
  show andThen m f s input = _
  rw [andThen, ends]

theorem get_bind (f : σ → Program σ ι β) (s : σ) (input : List ι) :
    (get >>= f) s input = f s s input := rfl

theorem bind_waits {m : Program σ ι α} {f : α → Program σ ι β} {s : σ} {input : List ι}
    (waits : m s input = .waits) : (m >>= f) s input = .waits := by
  show andThen m f s input = _
  rw [andThen, waits]

theorem bind_fault {m : Program σ ι α} {f : α → Program σ ι β} {s : σ} {input : List ι}
    (fault : m s input = .fault) : (m >>= f) s input = .fault := by
  show andThen m f s input = _
  rw [andThen, fault]

/-- Programs that run alike here do so in front of another. -/
theorem bind_alike {m m' : Program σ ι α} {s : σ} {input : List ι} (alike : m s input = m' s input)
    (f : α → Program σ ι β) : (m >>= f) s input = (m' >>= f) s input := by
  show andThen m f s input = andThen m' f s input
  rw [andThen, andThen, alike]

/-- The program reads `n` elements, is free of faults and ends with a value like this. -/
def Gives (m : Program σ ι α) (n : Nat) (post : α → Prop) : Prop :=
  ∀ s input, if input.length < n then m s input = .waits
    else ∃ a s', post a ∧ m s input = .done a s' (input.drop n)

/-- The program reads `n` elements and is free of faults. -/
abbrev Takes (m : Program σ ι α) (n : Nat) : Prop := m.Gives n fun _ => True

/-- The program ends in a fault. -/
def Faults (m : Program σ ι α) : Prop := ∀ s input, m s input = .fault

section

variable {m : Program σ ι α} {f : α → Program σ ι β} {n k : Nat} {post : α → Prop}
  {post' : β → Prop}

theorem Gives.waits (gives : m.Gives n post) {input : List ι} (short : input.length < n) (s : σ) :
    m s input = .waits := by
  have spec := gives s input
  rwa [if_pos short] at spec

theorem Gives.done (gives : m.Gives n post) {input : List ι} (enough : n ≤ input.length) (s : σ) :
    ∃ a s', post a ∧ m s input = .done a s' (input.drop n) := by
  have spec := gives s input
  rwa [if_neg (Nat.not_lt.2 enough)] at spec

theorem gives_quiet {post : α → Prop}
    (ends : ∀ s input, ∃ a s', post a ∧ m s input = .done a s' input) : m.Gives 0 post := by
  intro s input
  rw [if_neg (Nat.not_lt_zero _)]
  exact ends s input

theorem gives_pure {a : α} (holds : post a) : (pure a : Program σ ι α).Gives 0 post :=
  gives_quiet fun s _ => ⟨a, s, holds, rfl⟩

theorem takes_pure (a : α) : (pure a : Program σ ι α).Takes 0 := gives_pure trivial

theorem takes_get : (get : Program σ ι σ).Takes 0 := gives_quiet fun s _ => ⟨s, s, trivial, rfl⟩

theorem takes_modify (g : σ → σ) : (modify g : Program σ ι Unit).Takes 0 :=
  gives_quiet fun s _ => ⟨(), g s, trivial, rfl⟩

theorem takes_access {inside : Prop} [Decidable inside] (fine : inside) :
    (access inside : Program σ ι Unit).Takes 0 :=
  gives_quiet fun s _ => ⟨(), s, trivial, if_pos fine⟩

theorem faults_access {inside : Prop} [Decidable inside] (outside : ¬inside) :
    (access inside : Program σ ι Unit).Faults :=
  fun _ _ => if_neg outside

theorem takes_next : (next : Program σ ι ι).Takes 1 := by
  intro s input
  cases input with
  | nil => rfl
  | cons x left =>
    rw [if_neg (by rw [List.length_cons]; omega)]
    exact ⟨x, s, trivial, rfl⟩

/-- One program behind another takes what both take. -/
theorem gives_bind (first : m.Gives n post) (behind : ∀ a, post a → (f a).Gives k post') :
    (m >>= f).Gives (n + k) post' := by
  intro s input
  rcases Nat.lt_or_ge input.length n with short | enough
  · rw [if_pos (by omega)]
    exact bind_waits (first.waits short s)
  · obtain ⟨a, s', holds, ends⟩ := first.done enough s
    rw [bind_done ends]
    have rest := behind a holds s' (input.drop n)
    rw [List.length_drop] at rest
    split
    · rwa [if_pos (by omega)] at rest
    · rwa [if_neg (by omega), List.drop_drop] at rest

/-- A program that reads nothing, in front of another. -/
theorem gives_then (first : m.Gives 0 post) (behind : ∀ a, post a → (f a).Gives k post') :
    (m >>= f).Gives k post' := by
  have both := gives_bind first behind
  rwa [Nat.zero_add] at both

/-- One more element, in front of another program. -/
theorem gives_next {f : ι → Program σ ι β} (behind : ∀ x, (f x).Gives k post') :
    (next >>= f).Gives (k + 1) post' := by
  have both := gives_bind takes_next fun x _ => behind x
  rwa [Nat.add_comm] at both

theorem faults_bind (first : m.Gives 0 post) (behind : ∀ a, post a → (f a).Faults) :
    (m >>= f).Faults := by
  intro s input
  obtain ⟨a, s', holds, ends⟩ := first.done (Nat.zero_le _) s
  rw [bind_done ends]
  exact behind a holds s' _

theorem Faults.bind (faults : m.Faults) : (m >>= f).Faults :=
  fun s input => bind_fault (faults s input)

theorem gives_ite {p : Prop} [Decidable p] {m m' : Program σ ι α} (yes : m.Gives n post)
    (no : m'.Gives n post) : (if p then m else m').Gives n post := by
  split
  · exact yes
  · exact no

end

end Program

end Esp8266.Lib.Reading
