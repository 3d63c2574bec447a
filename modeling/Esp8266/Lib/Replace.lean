import Mathlib.Data.List.Infix

/-!
# Replacing the occurrences of a list

Occurrences of `p` are replaced by `r` from left to right, which is what is meant, or each position
is tried from right to left, over what has been replaced behind it. When `r` is longer than `p` the
two differ as soon as a position that is not that of an occurrence is taken for one.
-/
set_option autoImplicit false

namespace Esp8266.Lib.Replace

variable {α : Type} [DecidableEq α]

section
variable (p r : List α)

/-- From left to right, behind some elements that belong to the last occurrence. -/
def replaceFrom : Nat → List α → List α
  | _, [] => []
  | skip + 1, _ :: s => replaceFrom skip s
  | 0, c :: s =>
    if p <+: c :: s then r ++ replaceFrom (p.length - 1) s else c :: replaceFrom 0 s

/-- The occurrences that do not overlap are replaced from left to right. -/
def replaceAll (s : List α) : List α := replaceFrom p r 0 s

/-- A position, in front of what has been done. -/
def step (c : α) (t : List α) : List α :=
  if p <+: c :: t then r ++ (c :: t).drop p.length else c :: t

/-- The positions of a part are tried from right to left, in front of what has been done. -/
def replaceBack (a t : List α) : List α := a.foldr (step p r) t

/-- No position is taken for an occurrence, except those of the occurrences from left to right, in
front of what these give. -/
inductive Settled : List α → Prop where
  | nil : Settled []
  | found {s : List α} (quiet : ∀ k, 0 < k → k < p.length → ¬p <+: p.drop k ++ replaceAll p r s)
    (rest : Settled s) : Settled (p ++ s)
  | other {c : α} {s : List α} (absent : ¬p <+: c :: s) (quiet : ¬p <+: c :: replaceAll p r s)
    (rest : Settled s) : Settled (c :: s)

end

variable {p r : List α}

/-! ## From left to right -/

theorem replaceFrom_drop (n : Nat) (s : List α) :
    replaceFrom p r n s = replaceAll p r (s.drop n) := by
  induction n generalizing s with
  | zero => rfl
  | succ n ih =>
    cases s with
    | nil => rfl
    | cons c s => exact ih s

theorem replaceAll_append (nonempty : p ≠ []) (s : List α) :
    replaceAll p r (p ++ s) = r ++ replaceAll p r s := by
  obtain ⟨c, tail, rfl⟩ := List.exists_cons_of_ne_nil nonempty
  rw [replaceAll, List.cons_append, replaceFrom, ← List.cons_append,
    if_pos (List.prefix_append _ _), replaceFrom_drop, List.length_cons, Nat.add_sub_cancel,
    List.drop_left]

theorem replaceAll_cons {c : α} {s : List α} (absent : ¬p <+: c :: s) :
    replaceAll p r (c :: s) = c :: replaceAll p r s := by
  rw [replaceAll, replaceFrom, if_neg absent]
  rfl

/-- A property of the lists that an occurrence, and an element without one, in front keep. -/
theorem replace_induction {P : List α → Prop} (nonempty : p ≠ []) (nil : P [])
    (found : ∀ s, P s → P (p ++ s)) (other : ∀ c s, ¬p <+: c :: s → P s → P (c :: s))
    (s : List α) : P s := by
  induction h : s.length using Nat.strongRecOn generalizing s with
  | ind n ih =>
    cases s with
    | nil => exact nil
    | cons c s =>
      by_cases here : p <+: c :: s
      · obtain ⟨rest, split⟩ := here
        rw [← split]
        refine found rest (ih rest.length ?_ rest rfl)
        rw [← h, ← split, List.length_append]
        have := List.length_pos_iff.2 nonempty
        omega
      · exact other c s here (ih s.length (by rw [← h]; exact Nat.lt_succ_self _) s rfl)

/-- Up to the first occurrence the list stays. -/
theorem replaceAll_skip (front s : List α)
    (absent : ∀ k < front.length, ¬p <+: (front ++ s).drop k) :
    replaceAll p r (front ++ s) = front ++ replaceAll p r s := by
  induction front with
  | nil => rfl
  | cons c front ih =>
    have first : ¬p <+: c :: (front ++ s) := absent 0 (Nat.zero_lt_succ _)
    have later := ih fun k inside => absent (k + 1) (Nat.succ_lt_succ inside)
    rw [List.cons_append, replaceAll_cons first, later]
    rfl

/-- Nothing gets shorter when `r` is longer, and the same length is the same list. -/
theorem length_le_replaceAll (nonempty : p ≠ []) (grow : p.length < r.length) (s : List α) :
    s.length ≤ (replaceAll p r s).length := by
  induction s using replace_induction nonempty with
  | nil => exact Nat.le_refl 0
  | found s ih =>
    rw [replaceAll_append nonempty, List.length_append, List.length_append]
    omega
  | other c s absent ih =>
    rw [replaceAll_cons absent]
    exact Nat.succ_le_succ ih

theorem length_replaceAll_le_length (nonempty : p ≠ []) (short : r.length ≤ p.length)
    (s : List α) : (replaceAll p r s).length ≤ s.length := by
  induction s using replace_induction nonempty with
  | nil => exact Nat.le_refl 0
  | found s ih =>
    rw [replaceAll_append nonempty, List.length_append, List.length_append]
    omega
  | other c s absent ih =>
    rw [replaceAll_cons absent]
    exact Nat.succ_le_succ ih

theorem length_replaceAll_eq (nonempty : p ≠ []) (same : r.length = p.length) (s : List α) :
    (replaceAll p r s).length = s.length := by
  induction s using replace_induction nonempty with
  | nil => rfl
  | found s ih => rw [replaceAll_append nonempty, List.length_append, List.length_append, ih, same]
  | other c s absent ih => rw [replaceAll_cons absent, List.length_cons, List.length_cons, ih]

theorem absent_of_length_replaceAll (nonempty : p ≠ []) (grow : p.length < r.length) (s : List α)
    (same : (replaceAll p r s).length = s.length) : ∀ k < s.length, ¬p <+: s.drop k := by
  induction s using replace_induction nonempty with
  | nil => exact fun k inside => absurd inside (Nat.not_lt_zero k)
  | found s ih =>
    have longer := length_le_replaceAll nonempty grow s
    rw [replaceAll_append nonempty, List.length_append, List.length_append] at same
    omega
  | other c s absent ih =>
    rw [replaceAll_cons absent] at same
    intro k inside
    cases k with
    | zero => exact absent
    | succ k => exact ih (Nat.succ.inj same) k (Nat.lt_of_succ_lt_succ inside)

theorem mem_replaceAll (nonempty : p ≠ []) {s : List α} {c : α} (mem : c ∈ replaceAll p r s) :
    c ∈ s ∨ c ∈ r := by
  induction s using replace_induction nonempty with
  | nil => cases mem
  | found s ih =>
    rw [replaceAll_append nonempty, List.mem_append] at mem
    rcases mem with new | later
    · exact Or.inr new
    · exact (ih later).imp_left (List.mem_append_right p)
  | other d s absent ih =>
    rw [replaceAll_cons absent, List.mem_cons] at mem
    rcases mem with rfl | later
    · exact Or.inl List.mem_cons_self
    · exact (ih later).imp_left (List.mem_cons_of_mem d)

/-- Every element becomes one copy of `r` at most. -/
theorem length_replaceAll_le_mul (nonempty : p ≠ []) (positive : 0 < r.length) (s : List α) :
    (replaceAll p r s).length ≤ s.length * r.length := by
  induction s using replace_induction nonempty with
  | nil => exact Nat.zero_le _
  | found s ih =>
    have one : r.length ≤ p.length * r.length :=
      Nat.le_mul_of_pos_left _ (List.length_pos_iff.2 nonempty)
    rw [replaceAll_append nonempty, List.length_append, List.length_append, Nat.add_mul]
    omega
  | other c s absent ih =>
    rw [replaceAll_cons absent, List.length_cons, List.length_cons, Nat.succ_mul]
    omega

/-! ## From right to left -/

/-- No position of a part is taken. -/
def Quiet (p a t : List α) : Prop := ∀ k < a.length, ¬p <+: a.drop k ++ t

theorem replaceBack_append (a b t : List α) :
    replaceBack p r (a ++ b) t = replaceBack p r a (replaceBack p r b t) := List.foldr_append

theorem replaceBack_cons (c : α) (a t : List α) :
    replaceBack p r (c :: a) t = replaceBack p r [c] (replaceBack p r a t) := rfl

theorem replaceBack_quiet {a t : List α} (quiet : Quiet p a t) : replaceBack p r a t = a ++ t := by
  induction a with
  | nil => rfl
  | cons c a ih =>
    have rest := ih fun k inside => quiet (k + 1) (Nat.succ_lt_succ inside)
    rw [replaceBack, List.foldr_cons]
    change step p r c (replaceBack p r a t) = _
    have first : ¬p <+: c :: (a ++ t) := quiet 0 (Nat.zero_lt_succ _)
    rw [rest, step, if_neg first]
    rfl

/-- The pattern itself, when only its own position is taken. -/
theorem replaceBack_pattern (nonempty : p ≠ []) {t : List α}
    (quiet : ∀ k, 0 < k → k < p.length → ¬p <+: p.drop k ++ t) :
    replaceBack p r p t = r ++ t := by
  obtain ⟨c, tail, split⟩ := List.exists_cons_of_ne_nil nonempty
  have behind : Quiet p tail t := by
    intro k inside
    have absent := quiet (k + 1) (Nat.zero_lt_succ k) (by rw [split]; exact Nat.succ_lt_succ inside)
    rwa [split, List.drop_succ_cons, ← split] at absent
  have here : p <+: c :: (tail ++ t) := by
    rw [split]
    exact List.prefix_append _ _
  calc replaceBack p r p t
      _ = step p r c (replaceBack p r tail t) := congrArg (fun a => replaceBack p r a t) split
      _ = r ++ (c :: (tail ++ t)).drop p.length := by
        rw [replaceBack_quiet behind, step, if_pos here]
      _ = r ++ t := by rw [split, ← List.cons_append, List.drop_left]

/-- The last position that is taken is the first one to be replaced. -/
theorem replaceBack_last {a t : List α} {k : Nat} (inside : k < a.length)
    (behind : Quiet p (a.drop (k + 1)) t) (here : p <+: a.drop k ++ t) :
    replaceBack p r a t = replaceBack p r (a.take k) (r ++ (a.drop k ++ t).drop p.length) := by
  have front : a.drop k = a[k] :: a.drop (k + 1) := List.drop_eq_getElem_cons inside
  conv_lhs => rw [← List.take_append_drop k a, replaceBack_append]
  rw [front, List.cons_append] at here ⊢
  rw [replaceBack_cons, replaceBack_quiet behind]
  exact congrArg (replaceBack p r (a.take k)) (if_pos here)

theorem exists_last {a t : List α} (taken : ¬Quiet p a t) :
    ∃ k < a.length, Quiet p (a.drop (k + 1)) t ∧ p <+: a.drop k ++ t := by
  induction a with
  | nil => exact absurd (fun k inside => absurd inside (Nat.not_lt_zero k)) taken
  | cons c a ih =>
    by_cases quiet : Quiet p a t
    · have here : p <+: c :: a ++ t := by
        by_contra absent
        refine taken fun k inside => ?_
        cases k with
        | zero => exact absent
        | succ k => exact quiet k (Nat.lt_of_succ_lt_succ inside)
      exact ⟨0, Nat.zero_lt_succ _, quiet, here⟩
    · obtain ⟨k, inside, behind, here⟩ := ih quiet
      exact ⟨k + 1, Nat.succ_lt_succ inside, behind, here⟩

/-- When a position is taken, there is a last one. -/
theorem replaceBack_taken {a t : List α} (taken : ¬Quiet p a t) :
    ∃ k < a.length, Quiet p (a.drop (k + 1)) t ∧ p <+: a.drop k ++ t ∧
      replaceBack p r a t =
        replaceBack p r (a.take k) (r ++ (a.drop k ++ t).drop p.length) := by
  obtain ⟨k, inside, behind, here⟩ := exists_last taken
  exact ⟨k, inside, behind, here, replaceBack_last inside behind here⟩

section
variable (grow : p.length < r.length)
include grow

/-- Nothing gets shorter, and where a position is taken, longer by the difference at least. -/
theorem length_le_replaceBack (a t : List α) :
    a.length + t.length ≤ (replaceBack p r a t).length := by
  induction h : a.length using Nat.strongRecOn generalizing a t with
  | ind n ih =>
    by_cases quiet : Quiet p a t
    · rw [replaceBack_quiet quiet, List.length_append, h]
    · obtain ⟨k, inside, _, here, same⟩ := replaceBack_taken (r := r) quiet
      have rest := ih k (by omega) (a.take k) (r ++ (a.drop k ++ t).drop p.length)
        (by rw [List.length_take]; omega)
      have long := here.length_le
      simp only [List.length_append, List.length_drop] at rest long
      rw [same]
      omega

theorem length_lt_replaceBack {a t : List α} (taken : ¬Quiet p a t) :
    a.length + t.length < (replaceBack p r a t).length := by
  obtain ⟨k, inside, _, here, same⟩ := replaceBack_taken (r := r) taken
  have rest := length_le_replaceBack grow (a.take k) (r ++ (a.drop k ++ t).drop p.length)
  have long := here.length_le
  simp only [List.length_append, List.length_drop, List.length_take] at rest long
  rw [same]
  omega

theorem length_replaceBack_pattern (nonempty : p ≠ []) (t : List α) :
    r.length + t.length ≤ (replaceBack p r p t).length := by
  have taken : ¬Quiet p p t := fun quiet =>
    quiet 0 (List.length_pos_iff.2 nonempty) (List.prefix_append _ _)
  obtain ⟨k, inside, _, here, same⟩ := replaceBack_taken (r := r) taken
  have rest := length_le_replaceBack grow (p.take k) (r ++ (p.drop k ++ t).drop p.length)
  have long := here.length_le
  simp only [List.length_append, List.length_drop, List.length_take] at rest long
  rw [same]
  omega

/-- From right to left at least as much is replaced. -/
theorem length_replaceAll_le (nonempty : p ≠ []) (s : List α) :
    (replaceAll p r s).length ≤ (replaceBack p r s []).length := by
  induction s using replace_induction nonempty with
  | nil => exact Nat.le_refl 0
  | found s ih =>
    have pattern := length_replaceBack_pattern grow nonempty (replaceBack p r s [])
    rw [replaceAll_append nonempty, replaceBack_append, List.length_append]
    omega
  | other c s absent ih =>
    have single := length_le_replaceBack grow [c] (replaceBack p r s [])
    rw [replaceAll_cons absent, replaceBack_cons, List.length_cons]
    rw [List.length_singleton] at single
    omega

end

/-! ## When both agree -/

omit [DecidableEq α] in
/-- Of two lists with the same period the shorter one begins the longer one. -/
theorem prefix_of_period {q x y : List α} (nonempty : q ≠ []) (px : x <+: q ++ x)
    (py : y <+: q ++ y) (short : x.length ≤ y.length) : x <+: y := by
  induction h : x.length using Nat.strongRecOn generalizing x y with
  | ind n ih =>
    have positive := List.length_pos_iff.2 nonempty
    by_cases small : x.length ≤ q.length
    · have front : x <+: q := List.prefix_of_prefix_length_le px (List.prefix_append _ _) small
      exact List.prefix_of_prefix_length_le (front.trans (List.prefix_append _ _)) py short
    · have qx : q <+: x := List.prefix_of_prefix_length_le (List.prefix_append _ _) px (by omega)
      have qy : q <+: y := List.prefix_of_prefix_length_le (List.prefix_append _ _) py (by omega)
      obtain ⟨x', rfl⟩ := qx
      obtain ⟨y', rfl⟩ := qy
      rw [List.prefix_append_right_inj] at px py ⊢
      simp only [List.length_append] at short h
      exact ih x'.length (by omega) px py (by omega) rfl

/-- A pattern in front of `t` gives `r` in front of as much only where just its own position is
taken: another one would make `r` begin with the pattern, so that the first one is taken too. -/
theorem quiet_of_replaceBack (grow : p.length < r.length) (nonempty : p ≠ []) {t u : List α}
    (same : replaceBack p r p t = r ++ u) (length : u.length = t.length) :
    u = t ∧ ∀ k, 0 < k → k < p.length → ¬p <+: p.drop k ++ t := by
  have taken : ¬Quiet p p t := fun quiet =>
    quiet 0 (List.length_pos_iff.2 nonempty) (List.prefix_append _ _)
  obtain ⟨k, inside, behind, here, back⟩ := replaceBack_taken (r := r) taken
  have long := here.length_le
  have front : Quiet p (p.take k) (r ++ (p.drop k ++ t).drop p.length) := by
    by_contra again
    have more := length_lt_replaceBack grow again
    rw [← back, same] at more
    simp only [List.length_append, List.length_drop, List.length_take] at more long
    omega
  rw [back, replaceBack_quiet front] at same
  rcases Nat.eq_zero_or_pos k with rfl | later
  · rw [List.take_zero, List.nil_append, List.drop_zero, List.drop_left,
      List.append_cancel_left_eq] at same
    refine ⟨same.symm, fun k positive small => ?_⟩
    have quiet := behind (k - 1) (by rw [List.length_drop]; omega)
    rwa [List.drop_drop, show 0 + 1 + (k - 1) = k by omega] at quiet
  · exfalso
    have period : p.take k ≠ [] := by
      intro empty
      have := congrArg List.length empty
      rw [List.length_take, List.length_nil] at this
      omega
    have replaced : r <+: p.take k ++ r := by
      refine List.prefix_of_prefix_length_le (List.prefix_append r u) ?_ (by simp)
      rw [← same, ← List.append_assoc]
      exact List.prefix_append _ _
    have tail : p.drop k <+: p :=
      List.prefix_of_prefix_length_le (List.prefix_append _ _) here (by simp)
    have pattern : p <+: p.take k ++ p := by
      conv_lhs => rw [← List.take_append_drop k p]
      exact (List.prefix_append_right_inj _).2 tail
    have begins : p <+: r := prefix_of_period period pattern replaced (Nat.le_of_lt grow)
    refine front 0 (by rw [List.length_take]; omega) ?_
    rw [List.drop_zero]
    conv_lhs => rw [← List.take_append_drop k p]
    exact (List.prefix_append_right_inj _).2 (tail.trans (begins.trans (List.prefix_append _ _)))

/-- Right to left is left to right, if and only if no other position is taken. -/
theorem replaceBack_eq_iff (grow : p.length < r.length) (nonempty : p ≠ []) (s : List α) :
    replaceBack p r s [] = replaceAll p r s ↔ Settled p r s := by
  constructor
  · intro same
    induction s using replace_induction nonempty with
    | nil => exact .nil
    | found s ih =>
      rw [replaceBack_append, replaceAll_append nonempty] at same
      have lower := length_replaceAll_le grow nonempty s
      have pattern := length_replaceBack_pattern grow nonempty (replaceBack p r s [])
      rw [same, List.length_append] at pattern
      obtain ⟨rest, quiet⟩ := quiet_of_replaceBack grow nonempty same (by omega)
      rw [← rest] at quiet
      exact .found quiet (ih rest.symm)
    | other c s absent ih =>
      rw [replaceAll_cons absent, replaceBack_cons] at same
      have lower := length_replaceAll_le grow nonempty s
      have quiet : Quiet p [c] (replaceBack p r s []) := by
        by_contra taken
        have more := length_lt_replaceBack grow taken
        rw [same] at more
        simp only [List.length_cons, List.length_nil] at more
        omega
      rw [replaceBack_quiet quiet] at same
      have rest : replaceBack p r s [] = replaceAll p r s := (List.cons.inj same).2
      have here := quiet 0 (Nat.zero_lt_succ _)
      rw [rest] at here
      exact .other absent here (ih rest)
  · intro settled
    induction settled with
    | nil => rfl
    | found quiet _ ih =>
      rw [replaceBack_append, ih, replaceAll_append nonempty, replaceBack_pattern nonempty quiet]
    | other absent quiet _ ih =>
      rw [replaceBack_cons, ih, replaceAll_cons absent]
      refine replaceBack_quiet fun k inside => ?_
      obtain rfl : k = 0 := Nat.lt_one_iff.1 inside
      exact quiet

end Esp8266.Lib.Replace
