import Mathlib.Data.List.Nodup

/-!
# Doubly linked rings

Nodes that are linked in both directions, from a root over a list of nodes back to the root. A node
is taken out of the ring, replaced by another one or put in front by redirecting the two links that
meet there; all other links stay.
-/
set_option autoImplicit false

namespace Esp8266.Lib

variable {α : Type*}

/-- From `a` over `nodes` to `b`, each node with the next one in both directions. -/
def Linked (next prev : α → α) : α → List α → α → Prop
  | a, [], b => next a = b ∧ prev b = a
  | a, x :: nodes, b => next a = x ∧ prev x = a ∧ Linked next prev x nodes b

namespace Linked

variable {next prev next' prev' : α → α} {a b c d : α} {xs ys : List α}

theorem append_iff :
    Linked next prev a (xs ++ c :: ys) b ↔ Linked next prev a xs c ∧ Linked next prev c ys b := by
  induction xs generalizing a with
  | nil => exact and_assoc.symm
  | cons x xs ih =>
    change _ ∧ _ ∧ Linked next prev x (xs ++ c :: ys) b ↔ _
    rw [ih, ← and_assoc, ← and_assoc]
    exact Iff.of_eq (by rw [Linked, and_assoc (a := next a = x)])

theorem congr (linked : Linked next prev a xs b) (ahead : ∀ x ∈ a :: xs, next' x = next x)
    (back : ∀ x ∈ xs ++ [b], prev' x = prev x) : Linked next' prev' a xs b := by
  induction xs generalizing a with
  | nil => exact ⟨(ahead a List.mem_cons_self).trans linked.1,
      (back b List.mem_cons_self).trans linked.2⟩
  | cons x xs ih =>
    obtain ⟨first, second, rest⟩ := linked
    exact ⟨(ahead a List.mem_cons_self).trans first, (back x List.mem_cons_self).trans second,
      ih rest (fun y member => ahead y (List.mem_cons_of_mem a member))
        fun y member => back y (List.mem_cons_of_mem x member)⟩

theorem prev_end (linked : Linked next prev a xs b) : prev b = xs.getLastD a := by
  induction xs generalizing a with
  | nil => exact linked.2
  | cons x xs ih => rw [List.getLastD_cons]; exact ih linked.2.2

theorem next_start (linked : Linked next prev a xs b) : next a = xs.headD b := by
  cases xs with
  | nil => exact linked.1
  | cons x xs => exact linked.1

/-- What follows the last node of a path may be linked anew. -/
theorem extend (linked : Linked next prev a xs c) (nodup : (a :: xs).Nodup)
    (ahead : ∀ x ∈ a :: xs, x ≠ xs.getLastD a → next' x = next x)
    (back : ∀ x ∈ xs, prev' x = prev x) (rest : Linked next' prev' (xs.getLastD a) ys b) :
    Linked next' prev' a (xs ++ ys) b := by
  induction xs generalizing a with
  | nil => exact rest
  | cons x xs ih =>
    rw [List.getLastD_cons] at rest ahead
    obtain ⟨first, second, others⟩ := linked
    obtain ⟨fresh, nodup⟩ := List.nodup_cons.1 nodup
    refine ⟨?_, (back x List.mem_cons_self).trans second, ih others nodup (fun y member =>
      ahead y (List.mem_cons_of_mem a member)) (fun y member =>
        back y (List.mem_cons_of_mem x member)) rest⟩
    have different : a ≠ xs.getLastD x := by
      intro same
      exact fresh (same ▸ List.getLastD_mem_cons)
    exact (ahead a List.mem_cons_self different).trans first

/-- What precedes the first node of a path may be linked anew. -/
theorem restart (linked : Linked next prev a ys b) (nodup : (ys ++ [b]).Nodup)
    (ahead : ∀ x ∈ ys, next' x = next x)
    (back : ∀ x ∈ ys ++ [b], x ≠ ys.headD b → prev' x = prev x)
    (forth : next' c = ys.headD b) (home : prev' (ys.headD b) = c) :
    Linked next' prev' c ys b := by
  cases ys with
  | nil => exact ⟨forth, home⟩
  | cons y ys =>
    refine ⟨forth, home, linked.2.2.congr ahead fun x member => ?_⟩
    refine back x (List.mem_cons_of_mem y member) fun same => ?_
    rw [same] at member
    exact (List.nodup_cons.1 nodup).1 member

end Linked

/-- A ring of different nodes. -/
structure LinkedRing (next prev : α → α) (root : α) (nodes : List α) : Prop where
  linked : Linked next prev root nodes root
  nodup : (root :: nodes).Nodup

namespace LinkedRing

variable {next prev next' prev' : α → α} {root c d : α} {xs ys : List α}

theorem next_root (ring : LinkedRing next prev root xs) : next root = xs.headD root :=
  ring.linked.next_start

/-- The neighbours of a node. -/
theorem around (ring : LinkedRing next prev root (xs ++ c :: ys)) :
    prev c = xs.getLastD root ∧ next c = ys.headD root := by
  obtain ⟨front, behind⟩ := Linked.append_iff.1 ring.linked
  exact ⟨front.prev_end, behind.next_start⟩

/-- The nodes but one, with the root. -/
theorem nodup_others (ring : LinkedRing next prev root (xs ++ c :: ys)) :
    (root :: (xs ++ ys)).Nodup :=
  ring.nodup.sublist (.cons_cons root ((List.sublist_cons_self c ys).append_left xs))

theorem nodup_front (ring : LinkedRing next prev root (xs ++ ys)) : (root :: xs).Nodup :=
  ring.nodup.sublist (.cons_cons root (List.sublist_append_left xs ys))

theorem nodup_back (ring : LinkedRing next prev root (xs ++ ys)) : (ys ++ [root]).Nodup :=
  (List.perm_append_singleton root ys).symm.nodup
    (ring.nodup.sublist (.cons_cons root (List.sublist_append_right xs ys)))

/-- The last node in front of a place is none of those behind it. -/
theorem ne_last (nodup : (root :: xs ++ ys).Nodup) {x : α} (member : x ∈ ys) :
    x ≠ xs.getLastD root := by
  rintro rfl
  exact List.disjoint_of_nodup_append nodup List.getLastD_mem_cons member

/-- The first node behind a place is none of those in front of it. -/
theorem ne_first (nodup : (root :: xs ++ ys).Nodup) {x : α} (member : x ∈ xs) :
    x ≠ ys.headD root := by
  rintro rfl
  obtain ⟨not_root, nodup⟩ := List.nodup_cons.1 nodup
  cases ys with
  | nil => exact not_root (List.mem_append_left [] member)
  | cons y ys => exact List.disjoint_of_nodup_append nodup member List.mem_cons_self

variable [DecidableEq α]

/-- Take a node out. -/
theorem unlink (ring : LinkedRing next prev root (xs ++ c :: ys)) :
    LinkedRing (Function.update next (prev c) (next c)) (Function.update prev (next c) (prev c))
      root (xs ++ ys) := by
  obtain ⟨before, after⟩ := ring.around
  obtain ⟨front, behind⟩ := Linked.append_iff.1 ring.linked
  have others := ring.nodup_others
  rw [before, after]
  refine ⟨front.extend ring.nodup_front (fun x _ different => ?_) (fun x member => ?_)
    (behind.restart ?_ (fun x member => ?_) (fun x _ different => ?_)
      ?_ ?_), others⟩
  · exact Function.update_of_ne different _ _
  · exact Function.update_of_ne (ne_first others member) _ _
  · exact (nodup_back ring).sublist (List.sublist_cons_self c (ys ++ [root]))
  · exact Function.update_of_ne (ne_last others member) _ _
  · exact Function.update_of_ne different _ _
  · exact Function.update_self _ _ _
  · exact Function.update_self _ _ _

/-- Put another node in the place of one. -/
theorem replace (ring : LinkedRing next prev root (xs ++ c :: ys))
    (fresh : d ∉ root :: (xs ++ ys)) :
    LinkedRing (Function.update (Function.update next (prev c) d) d (next c))
      (Function.update (Function.update prev d (prev c)) (next c) d) root (xs ++ d :: ys) := by
  obtain ⟨before, after⟩ := ring.around
  obtain ⟨front, behind⟩ := Linked.append_iff.1 ring.linked
  have others := ring.nodup_others
  have different : ∀ x ∈ root :: (xs ++ ys), x ≠ d := fun x member same => fresh (same ▸ member)
  have last_mem : xs.getLastD root ∈ root :: (xs ++ ys) :=
    (List.sublist_append_left (root :: xs) ys).subset List.getLastD_mem_cons
  have first_mem : ys.headD root ∈ root :: (xs ++ ys) := by
    cases ys with
    | nil => exact List.mem_cons_self
    | cons y ys => exact List.mem_cons_of_mem root (List.mem_append_right xs List.mem_cons_self)
  have in_back : ∀ x ∈ ys ++ [root], x ∈ root :: (xs ++ ys) := by
    intro x member
    rcases List.mem_append.1 member with inside | last
    · exact List.mem_cons_of_mem root (List.mem_append_right xs inside)
    · rw [List.mem_singleton.1 last]
      exact List.mem_cons_self
  rw [before, after]
  refine ⟨@Linked.extend α _ _ _ _ root root c xs (d :: ys) front ring.nodup_front (fun x member other => ?_)
    (fun x member => ?_) ⟨?_, ?_, behind.restart ?_ (fun x member => ?_)
      (fun x member other => ?_) ?_ ?_⟩, ?_⟩
  · rw [Function.update_of_ne (different x (List.mem_append_left ys member)),
      Function.update_of_ne other]
  · have inside := List.mem_cons_of_mem root (List.mem_append_left ys member)
    rw [Function.update_of_ne (ne_first others member),
      Function.update_of_ne (different x inside)]
  · rw [Function.update_of_ne (different _ last_mem), Function.update_self]
  · rw [Function.update_of_ne (different _ first_mem).symm, Function.update_self]
  · exact (nodup_back ring).sublist (List.sublist_cons_self c (ys ++ [root]))
  · have inside := List.mem_cons_of_mem root (List.mem_append_right xs member)
    rw [Function.update_of_ne (different x inside),
      Function.update_of_ne (ne_last others member)]
  · rw [Function.update_of_ne other, Function.update_of_ne (different x (in_back x member))]
  · rw [Function.update_self]
  · rw [Function.update_self]
  · have nodup : (d :: (root :: xs ++ ys)).Nodup := List.nodup_cons.2 ⟨fresh, others⟩
    exact (@List.perm_middle α d (root :: xs) ys).symm.nodup nodup

/-- Put a node in front. -/
theorem pushFront (ring : LinkedRing next prev root xs) (fresh : c ∉ root :: xs) :
    LinkedRing (Function.update (Function.update next c (next root)) root c)
      (Function.update (Function.update prev (next root) c) c root) root (c :: xs) := by
  have different : ∀ x ∈ root :: xs, x ≠ c := fun x member same => fresh (same ▸ member)
  have not_root : c ≠ root := (different root List.mem_cons_self).symm
  have first_mem : xs.headD root ∈ root :: xs := by
    cases xs with
    | nil => exact List.mem_cons_self
    | cons x xs => exact List.mem_cons_of_mem root List.mem_cons_self
  have nodup : (xs ++ [root]).Nodup := (List.perm_append_singleton root xs).symm.nodup ring.nodup
  rw [ring.next_root]
  refine ⟨⟨?_, ?_, ring.linked.restart nodup (fun x member => ?_) (fun x member other => ?_)
    ?_ ?_⟩, ?_⟩
  · exact Function.update_self _ _ _
  · exact Function.update_self _ _ _
  · have inside := List.mem_cons_of_mem root member
    have other : x ≠ root := @ne_last α root [] xs ring.nodup x member
    rw [Function.update_of_ne other, Function.update_of_ne (different x inside)]
  · have inside : x ∈ root :: xs := (List.perm_append_singleton root xs).subset member
    rw [Function.update_of_ne (different x inside), Function.update_of_ne other]
  · rw [Function.update_of_ne not_root, Function.update_self]
  · rw [Function.update_of_ne (different _ first_mem), Function.update_self]
  · refine (List.Perm.swap root c xs).nodup ?_
    exact List.nodup_cons.2 ⟨fresh, ring.nodup⟩

end LinkedRing

end Esp8266.Lib
