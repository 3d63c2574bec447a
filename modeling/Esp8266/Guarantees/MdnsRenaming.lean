import Esp8266.Source.MdnsRenaming
import Mathlib.Data.List.Induction
import Mathlib.Data.List.Nodup
import Mathlib.Data.List.TakeWhile
import Mathlib.Logic.Function.Iterate

/-!
# Names behind conflicts

Each round of `indexDomain` gives a name that is new: the index counts up, and where it wraps, or
where there is none, the name gets longer. `setHostname` releases the old name before it looks at
the new one, so that the first name that is too long leaves none.
-/
set_option autoImplicit false

namespace Esp8266.Source.Mdns
open Esp8266.Lib.Decimal Esp8266.Source.WString

/-! ## Indices -/

def dash : UInt8 := 0x2d

theorem isPrefixOf_dash (s : WString) (i : Nat) :
    [dash].isPrefixOf (s.drop i) = true ↔ s[i]? = some dash := by
  rw [← List.head?_drop]
  cases s.drop i with
  | nil => exact iff_of_false Bool.false_ne_true (Option.some_ne_none _).symm
  | cons c rest =>
    rw [List.isPrefixOf, List.head?_cons, Option.some.injEq, Bool.and_eq_true, beq_iff_eq]
    exact ⟨fun both => both.1.symm, fun same => ⟨same.symm, rfl⟩⟩

theorem strrstr_some {front behind : WString} (solid : dash ∉ behind) :
    strrstr (front ++ dash :: behind) [dash] = some front.length := by
  have length : (front ++ dash :: behind).length = front.length + (behind.length + 1) := by
    rw [List.length_append, List.length_cons]
  rw [strrstr, if_pos ⟨by simp, by simp, by rw [length, List.length_singleton]; omega⟩]
  refine List.find?_eq_some_iff_append.mpr ⟨(isPrefixOf_dash _ _).mpr (by simp),
    ((List.range behind.length).map (front.length + 1 + ·)).reverse,
    (List.range front.length).reverse, ?_, ?_⟩
  · have places : (front ++ dash :: behind).length - [dash].length + 1 =
        front.length + 1 + behind.length := by
      rw [length, List.length_singleton]
      omega
    rw [places, List.range_add, List.reverse_append, List.range_succ, List.reverse_append]
    rfl
  · intro i mem
    obtain ⟨k, -, rfl⟩ := List.mem_map.mp (List.mem_reverse.mp mem)
    rw [Bool.not_eq_true_eq_eq_false, Bool.eq_false_iff]
    intro found
    have at' := (isPrefixOf_dash _ _).mp found
    rw [List.getElem?_append_right (by omega), show front.length + 1 + k - front.length = k + 1 by
      omega, List.getElem?_cons_succ] at at'
    exact solid (List.mem_of_getElem? at')

theorem strrstr_none {s : WString} (solid : dash ∉ s) : strrstr s [dash] = none := by
  rw [strrstr]
  split
  · refine List.find?_eq_none.mpr fun i _ found => solid ?_
    exact List.mem_of_getElem? ((isPrefixOf_dash s i).mp found)
  · rfl

/-- A text has a last dash, or none. -/
theorem last_dash (s : WString) :
    dash ∉ s ∨ ∃ front behind, s = front ++ dash :: behind ∧ dash ∉ behind := by
  induction s with
  | nil => exact .inl List.not_mem_nil
  | cons c s ih =>
    rcases ih with solid | ⟨front, behind, rfl, solid⟩
    · by_cases first : c = dash
      · exact .inr ⟨[], s, by rw [first]; rfl, solid⟩
      · refine .inl fun mem => ?_
        exact (List.mem_cons.mp mem).elim (fun same => first same.symm) solid
    · exact .inr ⟨c :: front, behind, rfl, solid⟩

/-! ## strtoul -/

theorem value_append_digit (digits : List UInt8) (c : UInt8) :
    value (digits ++ [c]) = 10 * value digits + (c.toNat - 0x30) := by
  rw [value, value, List.foldl_append]
  rfl

theorem value_lt {digits : List UInt8} (all : ∀ c ∈ digits, IsDigit c) :
    value digits < 10 ^ digits.length := by
  induction digits using List.reverseRecOn with
  | nil => exact Nat.one_pos
  | append_singleton digits c ih =>
    have less := ih fun d mem => all d (List.mem_append_left _ mem)
    have digit := (all c (List.mem_append_right _ (List.mem_singleton_self c))).2
    have nine : c.toNat ≤ 0x39 := UInt8.le_iff_toNat_le.mp digit
    rw [value_append_digit, List.length_append, List.length_singleton, Nat.pow_succ]
    omega

/-- A value that is read without a sign has no more digits than are read. -/
theorem unsignedDigits_lt {s t : WString} (some : (unsignedDigits false s t).1 ≠ 0) :
    (unsignedDigits false s t).1 < 2 ^ 32 ∧ (unsignedDigits false s t).1 < 10 ^ t.length := by
  have all : ∀ c ∈ t.takeWhile fun c => IsDigit c, IsDigit c := fun c mem => by
    have every := List.all_takeWhile (p := fun c => decide (IsDigit c)) (l := t)
    exact of_decide_eq_true (List.all_eq_true.mp every c mem)
  have less := value_lt all
  have shorter : 10 ^ (t.takeWhile fun c => IsDigit c).length ≤ 10 ^ t.length :=
    Nat.pow_le_pow_right (by decide) (List.takeWhile_sublist _).length_le
  rw [unsignedDigits] at some ⊢
  split at some
  · exact absurd rfl some
  · rename_i digits
    rw [if_neg digits]
    simp only [Bool.false_eq_true, if_false]
    split <;> omega

theorem strtoul_lt {s : WString} (solid : dash ∉ s) (some : (strtoul s).1 ≠ 0) :
    (strtoul s).1 < 2 ^ 32 ∧ (strtoul s).1 < 10 ^ s.length := by
  have shorter : (s.dropWhile fun c => IsSpace c).length ≤ s.length :=
    (List.dropWhile_sublist _).length_le
  have within : ∀ {t : WString}, t.length ≤ s.length → 10 ^ t.length ≤ 10 ^ s.length :=
    fun le => Nat.pow_le_pow_right (by decide) le
  rw [strtoul] at some ⊢
  split at some
  · rename_i t sign
    have mem : dash ∈ s.dropWhile fun c => IsSpace c := by
      rw [sign]
      exact List.mem_cons_self
    exact absurd ((List.dropWhile_sublist _).subset mem) solid
  · rename_i t sign
    rw [sign] at shorter
    have := unsignedDigits_lt some
    have := within (Nat.le_of_succ_le shorter)
    omega
  · have := unsignedDigits_lt some
    have := within shorter
    omega

theorem strtoul_decimal {n : Nat} (small : n < 2 ^ 32) : strtoul (decimal n) = (n, []) := by
  have digits : ∀ c ∈ decimal n, decide (IsDigit c) = true := fun c mem =>
    decide_eq_true (isDigit_of_mem_decimal mem)
  have whole : (decimal n).takeWhile (fun c => IsDigit c) = decimal n :=
    List.takeWhile_eq_self_iff.mpr digits
  have read : unsignedDigits false (decimal n) (decimal n) = (n, []) := by
    rw [unsignedDigits, whole, if_neg (decimal_ne_nil n), value_decimal]
    simp only
    rw [if_neg (Nat.not_le_of_lt small), List.drop_length]
    rfl
  obtain ⟨c, rest, cons⟩ := List.exists_cons_of_ne_nil (decimal_ne_nil n)
  have digit : IsDigit c := isDigit_of_mem_decimal (cons ▸ List.mem_cons_self)
  have low : 0x30 ≤ c.toNat := UInt8.le_iff_toNat_le.mp digit.1
  have solid : ¬ IsSpace c := by
    rintro (rfl | ⟨-, le⟩)
    · exact absurd low (by decide)
    · have : c.toNat ≤ 0x0d := UInt8.le_iff_toNat_le.mp le
      omega
  have front : (decimal n).dropWhile (fun c => IsSpace c) = decimal n := by
    rw [cons]
    exact List.dropWhile_cons_of_neg (by simpa using solid)
  rw [strtoul, front]
  split
  · rename_i sign
    obtain rfl := (List.cons.inj (cons.symm.trans sign)).1
    exact absurd low (by decide)
  · rename_i sign
    obtain rfl := (List.cons.inj (cons.symm.trans sign)).1
    exact absurd low (by decide)
  · exact read

/-! ## Rounds of indexDomain -/

/-- What stands in front of an index, with the divider, and the index. -/
def indexed (s : WString) : Option (WString × Nat) :=
  match strrstr s [dash] with
  | some found =>
    let (ulIndex, pEnd) := strtoul (s.drop (found + 1))
    if ulIndex ≠ 0 ∧ pEnd = [] then some (s.take (found + 1), ulIndex) else none
  | none => none

/-- A round of `indexDomain` with its default arguments. -/
def next (s : WString) : WString := indexDomain (some s) none none

theorem next_eq (s : WString) :
    next s = match indexed s with
      | some (front, index) => front ++ decimal ((index + 1) % 2 ^ 32)
      | none => s ++ [dash] ++ decimal 2 := by
  rw [next, indexDomain, indexed]
  have divider : (none : Option WString).getD (ofString "-") = [dash] := rfl
  simp only [divider, List.length_singleton]
  cases strrstr s [dash] with
  | none => rfl
  | some found =>
    simp only
    split
    · rfl
    · rfl

/-- What is found in a name with an index: the index has a dash in front of it, and no more digits
than there is place for behind that. -/
theorem indexed_some {s front : WString} {index : Nat} (found : indexed s = some (front, index)) :
    0 < index ∧ index < 2 ^ 32 ∧ (∃ q, front = q ++ [dash]) ∧
      ∃ behind, s = front ++ behind ∧ dash ∉ behind ∧ index < 10 ^ behind.length := by
  rcases last_dash s with solid | ⟨q, behind, rfl, solid⟩
  · rw [indexed, strrstr_none solid] at found
    cases found
  · have split : q ++ dash :: behind = q ++ [dash] ++ behind := by
      rw [List.append_assoc]
      rfl
    have place : (q ++ [dash]).length = q.length + 1 := by
      rw [List.length_append, List.length_singleton]
    rw [indexed, strrstr_some solid] at found
    simp only at found
    rw [split, ← place, List.drop_left, List.take_left] at found
    split at found
    · rename_i valid
      obtain ⟨rfl, rfl⟩ := Prod.mk.inj (Option.some.inj found)
      obtain ⟨bound, digits⟩ := strtoul_lt solid valid.1
      exact ⟨Nat.pos_of_ne_zero valid.1, bound, ⟨q, rfl⟩, behind, split, solid, digits⟩
    · cases found

theorem dash_not_mem_decimal (n : Nat) : dash ∉ decimal n := by
  intro mem
  have low := (isDigit_of_mem_decimal mem).1
  exact absurd low (by decide)

theorem indexed_decimal (q : WString) {n : Nat} (small : n < 2 ^ 32) :
    indexed (q ++ [dash] ++ decimal n) = if n = 0 then none else some (q ++ [dash], n) := by
  have place : (q ++ [dash]).length = q.length + 1 := by
    rw [List.length_append, List.length_singleton]
  have found : strrstr (q ++ [dash] ++ decimal n) [dash] = some q.length := by
    rw [List.append_assoc]
    exact strrstr_some (dash_not_mem_decimal n)
  rw [indexed, found]
  simp only
  rw [← place, List.drop_left, List.take_left, strtoul_decimal small]
  by_cases zero : n = 0
  · rw [if_pos zero, if_neg (fun both => both.1 zero)]
  · rw [if_neg zero, if_pos ⟨zero, rfl⟩]

/-! ## New names -/

/-- How far a name is: dashes first, then the index; one without index comes behind all that have
one. -/
def rank (s : WString) : Nat :=
  s.count dash * (2 ^ 32 + 1) + ((indexed s).map (·.2)).getD (2 ^ 32)

theorem rank_decimal (q : WString) {n : Nat} (small : n < 2 ^ 32) :
    rank (q ++ [dash] ++ decimal n) =
      (q.count dash + 1) * (2 ^ 32 + 1) + if n = 0 then 2 ^ 32 else n := by
  have count : (q ++ [dash] ++ decimal n).count dash = q.count dash + 1 := by
    rw [List.count_append, List.count_append,
      List.count_eq_zero_of_not_mem (dash_not_mem_decimal n), List.count_singleton_self]
  rw [rank, count, indexed_decimal q small]
  by_cases zero : n = 0
  · rw [if_pos zero, if_pos zero]
    rfl
  · rw [if_neg zero, if_neg zero]
    rfl

/-- Each round goes on. -/
theorem rank_lt_next (s : WString) : rank s < rank (next s) := by
  rw [next_eq]
  cases found : indexed s with
  | none =>
    simp only
    rw [rank_decimal s (by decide), rank, found, Option.map_none, Option.getD_none,
      if_neg (by decide)]
    omega
  | some at' =>
    obtain ⟨front, index⟩ := at'
    obtain ⟨positive, bound, ⟨q, rfl⟩, behind, whole, solid, -⟩ := indexed_some found
    have count : s.count dash = q.count dash + 1 := by
      rw [whole, List.count_append, List.count_append, List.count_eq_zero_of_not_mem solid,
        List.count_singleton_self]
    have mine : rank s = (q.count dash + 1) * (2 ^ 32 + 1) + index := by
      rw [rank, count, found]
      rfl
    simp only
    rw [mine, rank_decimal q (Nat.mod_lt _ (by decide))]
    split <;> omega

theorem rank_lt_iterate (s : WString) (k : Nat) : rank s < rank (next^[k + 1] s) := by
  induction k with
  | zero => exact rank_lt_next s
  | succ k ih =>
    rw [Function.iterate_succ_apply']
    exact ih.trans (rank_lt_next _)

/-! ## Short names -/

/-- The names of so many rounds fit in a label. -/
def Fit (n : Nat) (s : WString) : Prop := ∀ k, k < n → (next^[k + 1] s).length ≤ 63

theorem fit_add {m : Nat} {s : WString} (first : Fit m s) (n : Nat) :
    Fit n s ↔ n ≤ m ∨ Fit (n - m) (next^[m] s) := by
  constructor
  · intro fit
    by_cases before : n ≤ m
    · exact .inl before
    · refine .inr fun k less => ?_
      rw [← Function.iterate_add_apply, Nat.add_right_comm]
      exact fit (k + m) (by omega)
  · rintro (before | behind) k less
    · exact first k (by omega)
    · by_cases early : k < m
      · exact first k early
      · have later := behind (k - m) (by omega)
        rw [← Function.iterate_add_apply] at later
        rwa [show k - m + 1 + m = k + 1 by omega] at later

/-- The rounds that are left behind an index, with so many characters for its digits. -/
def indexRounds (w v : Nat) : Nat :=
  if w < 10 then 10 ^ w - 1 - v else (2 ^ 32 - 1 - v) + 2 + indexRounds (w - 2) 2
termination_by w

/-- The rounds of a name in which it fits in a label. -/
def roundsLeft (s : WString) : Nat :=
  match indexed s with
  | some (front, index) => indexRounds (63 - front.length) index
  | none => if s.length ≤ 61 then 1 + indexRounds (62 - s.length) 2 else 0

theorem iterate_decimal (q : WString) {v : Nat} (positive : 0 < v) (k : Nat) :
    v + k < 2 ^ 32 →
      next^[k] (q ++ [dash] ++ decimal v) = q ++ [dash] ++ decimal (v + k) := by
  induction k with
  | zero => intro _; rfl
  | succ k ih =>
    intro small
    rw [Function.iterate_succ_apply', ih (by omega), next_eq, indexed_decimal q (by omega),
      if_neg (by omega)]
    simp only
    rw [Nat.mod_eq_of_lt (by omega), Nat.add_assoc]

theorem length_decimal_gt {n k : Nat} (positive : 0 < k) (large : 10 ^ k ≤ n) :
    k < (decimal n).length := by
  rw [decimal, List.length_map, ← Nat.not_le, Nat.length_toDigits_le_iff (by decide) positive]
  exact Nat.not_lt_of_le large

/-- The rounds behind an index. -/
theorem fit_decimal (w : Nat) : ∀ {q : WString} {v : Nat} (n : Nat), (q ++ [dash]).length + w = 63 →
    0 < v → v < 2 ^ 32 → v < 10 ^ w →
      (Fit n (q ++ [dash] ++ decimal v) ↔ n ≤ indexRounds w v) := by
  induction w using Nat.strongRecOn with
  | ind w ih =>
    intro q v n place positive bound digits
    have some : 0 < w := by
      by_contra none
      rw [Nat.eq_zero_of_not_pos none] at digits
      omega
    rw [indexRounds]
    by_cases few : w < 10
    · have below : 10 ^ w ≤ 10 ^ 9 := Nat.pow_le_pow_right (by decide) (by omega)
      rw [if_pos few]
      constructor
      · intro fit
        by_contra more
        have long := fit (10 ^ w - v - 1) (by omega)
        rw [iterate_decimal q positive _ (by omega), List.length_append] at long
        have := length_decimal_gt some (show 10 ^ w ≤ v + (10 ^ w - v - 1 + 1) by omega)
        omega
      · intro within k less
        rw [iterate_decimal q positive _ (by omega), List.length_append]
        have := length_decimal_le some (show v + (k + 1) < 10 ^ w by omega)
        omega
    · rw [if_neg few]
      have early : Fit (2 ^ 32 - 1 - v) (q ++ [dash] ++ decimal v) := by
        intro k less
        rw [iterate_decimal q positive _ (by omega), List.length_append]
        have := length_decimal_le (by decide : 0 < 10)
          (show v + (k + 1) < 10 ^ 10 by omega)
        omega
      have last : next^[2 ^ 32 - 1 - v] (q ++ [dash] ++ decimal v) =
          q ++ [dash] ++ decimal (2 ^ 32 - 1) := by
        have sum : v + (2 ^ 32 - 1 - v) = 2 ^ 32 - 1 := by omega
        rw [iterate_decimal q positive _ (by omega), sum]
      have zero : next (q ++ [dash] ++ decimal (2 ^ 32 - 1)) = q ++ [dash] ++ decimal 0 := by
        rw [next_eq, indexed_decimal q (by decide), if_neg (by decide)]
        rfl
      have longer : next (q ++ [dash] ++ decimal 0) =
          q ++ [dash] ++ decimal 0 ++ [dash] ++ decimal 2 := by
        rw [next_eq, indexed_decimal q (by decide), if_pos rfl]
      have one : (decimal 0).length = 1 := rfl
      have length : (q ++ [dash] ++ decimal 0 ++ [dash]).length = (q ++ [dash]).length + 2 := by
        rw [List.length_append, List.length_append, one, List.length_singleton]
      have two : Fit 2 (q ++ [dash] ++ decimal (2 ^ 32 - 1)) := by
        intro k less
        rcases (by omega : k = 0 ∨ k = 1) with rfl | rfl
        · change (next _).length ≤ 63
          rw [zero, List.length_append, one]
          omega
        · change (next (next _)).length ≤ 63
          rw [zero, longer, List.length_append, length]
          have := length_decimal_le (by decide : 0 < 1) (by decide : 2 < 10 ^ 1)
          omega
      have wide : 10 ^ 1 ≤ 10 ^ (w - 2) := Nat.pow_le_pow_right (by decide) (by omega)
      have rest := ih (w - 2) (by omega) (q := q ++ [dash] ++ decimal 0) (v := 2)
        (n - (2 ^ 32 - 1 - v) - 2) (by rw [length]; omega) (by decide) (by decide) (by omega)
      rw [fit_add early, last, fit_add two]
      change _ ∨ _ ∨ Fit _ (next (next _)) ↔ _
      rw [zero, longer, rest]
      omega

/-! ## Rounds with setHostname -/

namespace Responder

variable (r : Responder)

theorem hostname_renameAuto (finishing : Option Owner) (name : Option WString) (i : Nat) :
    (renameAuto finishing name i r).hostname = r.hostname := by
  rw [renameAuto, withService]
  split
  · split <;> rfl
  · rfl

theorem hostname_setHostname (finishing : Option Owner) (name : Option WString) :
    (setHostname finishing name r).hostname = hostname? name := by
  have kept : ∀ is : List Nat, (is.foldr (renameAuto finishing name)
      (renameHost finishing name r)).hostname = hostname? name := by
    intro is
    induction is with
    | nil => rfl
    | cons i is ih => exact (hostname_renameAuto _ finishing name i).trans ih
  rw [setHostname]
  split
  · exact kept _
  · rfl

/-- A name that is refused changes nothing but the name of the host. -/
theorem services_setHostname {name : Option WString} (refused : hostname? name = none)
    (finishing : Option Owner) :
    (setHostname finishing name r).services = r.services := by
  have none : (renameHost finishing name r).hostname.isSome = false := by
    rw [renameHost, refused]
    rfl
  rw [setHostname, if_neg (by rw [none]; exact Bool.false_ne_true)]
  rfl

end Responder

/-- A name that a host can begin with. -/
structure FirstName where
  text : WString
  some : text ≠ []
  short : text.length ≤ 63
  plain : 0 ∉ text

theorem not_mem_next {s : WString} (plain : 0 ∉ s) : 0 ∉ next s := by
  have digits : ∀ n, 0 ∉ decimal n := fun n mem =>
    absurd (isDigit_of_mem_decimal mem).1 (by decide)
  rw [next_eq]
  cases found : indexed s with
  | none =>
    intro mem
    rcases List.mem_append.mp mem with mem | mem
    · rcases List.mem_append.mp mem with mem | mem
      · exact plain mem
      · exact absurd (List.mem_singleton.mp mem) (by decide)
    · exact digits _ mem
  | some at' =>
    obtain ⟨front, index⟩ := at'
    obtain ⟨-, -, -, behind, rfl, -⟩ := indexed_some found
    intro mem
    rcases List.mem_append.mp mem with mem | mem
    · exact plain (List.mem_append_left _ mem)
    · exact digits _ mem

/-- What is said of rounds: each gives a name, of at most 63 characters and other than all those
before. -/
def Renamed (name : FirstName) (r : Responder) (rounds : List (Option Owner)) : Prop :=
  ∃ names : List WString, (r.rename name.text rounds).map (·.map (·.1)) = names.map some ∧
    (∀ s ∈ names, s.length ≤ 63) ∧ (name.text :: names).Nodup

/-- What is said of an argument that is refused: `setHostname` returns false, and the names of the
host and of the services are as before. -/
def Kept (r : Responder) (finishing : Option Owner) (argument : Option WString) : Prop :=
  Responder.hostname? argument = none →
    Responder.setHostnameResult argument = false ∧
      (r.setHostname finishing argument).hostname = r.hostname ∧
      (r.setHostname finishing argument).services.map (·.name) = r.services.map (·.name)

theorem kept_iff (r : Responder) (finishing : Option Owner) (argument : Option WString) :
    Kept r finishing argument ↔ (Responder.hostname? argument = none → r.hostname = none) := by
  refine forall_congr' fun refused => ?_
  rw [Responder.setHostnameResult, Responder.hostname_setHostname,
    Responder.services_setHostname r refused, refused]
  exact ⟨fun right => right.2.1.symm, fun gone => ⟨rfl, gone.symm, rfl⟩⟩

/-- The names behind the rounds, with none for one that is refused. -/
theorem rename_eq (rounds : List (Option Owner)) : ∀ (s : WString) (r : Responder), 0 ∉ s →
    (r.rename s rounds).map (·.map (·.1)) =
      (List.range rounds.length).map fun k =>
        if (next^[k + 1] s).length ≤ 63 then some (next^[k + 1] s) else none := by
  induction rounds with
  | nil => intro s r _; rfl
  | cons finishing rounds ih =>
    intro s r plain
    have new := not_mem_next plain
    have rest := ih (next s) (r.setHostname finishing (some (next s))) new
    have admitted : (Responder.hostname? (some (next s))).map (·.1) =
        if (next s).length ≤ 63 then some (next s) else none := by
      simp only [Responder.hostname?, cstr_of_not_mem new]
      split <;> rfl
    rw [Responder.rename, List.map_cons, List.length_cons, List.range_succ_eq_map, List.map_cons,
      List.map_map, Responder.hostname_setHostname]
    refine congrArg₂ List.cons admitted ?_
    rw [show indexDomain (some s) none none = next s from rfl, rest]
    rfl

theorem fit_iff {s : WString} (short : s.length ≤ 63) (n : Nat) : Fit n s ↔ n ≤ roundsLeft s := by
  rw [roundsLeft]
  cases found : indexed s with
  | none =>
    have first : next s = s ++ [dash] ++ decimal 2 := by
      rw [next_eq, found]
    have one : (decimal 2).length = 1 := rfl
    have length : (s ++ [dash]).length = s.length + 1 := by
      rw [List.length_append, List.length_singleton]
    simp only
    by_cases room : s.length ≤ 61
    · have fits : Fit 1 s := by
        intro k less
        obtain rfl : k = 0 := by omega
        change (next s).length ≤ 63
        rw [first, List.length_append, length, one]
        omega
      have wide : 10 ^ 1 ≤ 10 ^ (62 - s.length) := Nat.pow_le_pow_right (by decide) (by omega)
      rw [if_pos room, fit_add fits]
      change _ ∨ Fit _ (next s) ↔ _
      rw [first, fit_decimal (62 - s.length) (n - 1) (by rw [length]; omega) (by decide) (by decide)
        (by omega)]
      omega
    · rw [if_neg room]
      constructor
      · intro fit
        by_contra more
        have long := fit 0 (by omega)
        change (next s).length ≤ 63 at long
        rw [first, List.length_append, length, one] at long
        omega
      · intro zero k less
        omega
  | some at' =>
    obtain ⟨front, index⟩ := at'
    obtain ⟨positive, bound, ⟨q, rfl⟩, behind, whole, -, digits⟩ := indexed_some found
    have same : next s = next (q ++ [dash] ++ decimal index) := by
      rw [next_eq, next_eq, found, indexed_decimal q bound, if_neg (Nat.ne_of_gt positive)]
    have successors : Fit n s ↔ Fit n (q ++ [dash] ++ decimal index) := by
      refine forall_congr' fun k => ?_
      rw [Function.iterate_succ_apply, Function.iterate_succ_apply, same]
    have lengths := congrArg List.length whole
    rw [List.length_append] at lengths
    have wide : 10 ^ behind.length ≤ 10 ^ (63 - (q ++ [dash]).length) :=
      Nat.pow_le_pow_right (by decide) (by omega)
    rw [successors]
    exact fit_decimal _ n (by omega) positive bound (Nat.lt_of_lt_of_le digits wide)

theorem renamed_iff_fit (name : FirstName) (r : Responder) (rounds : List (Option Owner)) :
    Renamed name r rounds ↔ Fit rounds.length name.text := by
  rw [Renamed, rename_eq rounds name.text r name.plain]
  constructor
  · rintro ⟨names, all, -⟩ k less
    have entry := congrArg (fun l => l[k]?) all
    simp only [List.getElem?_map, List.getElem?_range less, Option.map_some] at entry
    by_contra long
    rw [if_neg long] at entry
    generalize names[k]? = found at entry
    cases found with
    | none => cases entry
    | some s => cases entry
  · intro fit
    refine ⟨(List.range rounds.length).map fun k => next^[k + 1] name.text, ?_, ?_, ?_⟩
    · rw [List.map_map]
      refine List.map_congr_left fun k mem => ?_
      exact if_pos (fit k (List.mem_range.mp mem))
    · intro s mem
      obtain ⟨k, less, rfl⟩ := List.mem_map.mp mem
      exact fit k (List.mem_range.mp less)
    · have apart : ∀ i j, next^[i] name.text = next^[j] name.text → i = j := by
        have ahead : ∀ i d, next^[i] name.text ≠ next^[i + (d + 1)] name.text := by
          intro i d same
          have more := rank_lt_iterate (next^[i] name.text) d
          rw [← Function.iterate_add_apply, Nat.add_comm, ← same] at more
          exact Nat.lt_irrefl _ more
        intro i j same
        rcases Nat.lt_trichotomy i j with less | equal | less
        · obtain ⟨d, rfl⟩ := Nat.exists_eq_add_of_lt less
          exact absurd same (ahead i d)
        · exact equal
        · obtain ⟨d, rfl⟩ := Nat.exists_eq_add_of_lt less
          exact absurd same.symm (ahead j d)
      rw [List.nodup_cons]
      constructor
      · intro mem
        obtain ⟨k, -, same⟩ := List.mem_map.mp mem
        exact absurd (apart (k + 1) 0 same) (Nat.succ_ne_zero k)
      · refine List.Nodup.map_on (fun i _ j _ same => ?_) List.nodup_range
        exact Nat.succ.inj (apart (i + 1) (j + 1) same)

theorem renamed_iff (name : FirstName) (r : Responder) (rounds : List (Option Owner)) :
    Renamed name r rounds ↔ rounds.length ≤ roundsLeft name.text :=
  (renamed_iff_fit name r rounds).trans (fit_iff name.short _)

/-- **Renaming.** So many rounds give new names and a refused argument is without effect if the
names fit in a label that long and the host has no name to lose, and only then. -/
theorem renaming_kept (name : FirstName) (r : Responder) (rounds : List (Option Owner))
    (finishing : Option Owner) (argument : Option WString) :
    (Renamed name r rounds ∧ Kept r finishing argument) ↔
      (rounds.length ≤ roundsLeft name.text ∧
        (Responder.hostname? argument = none → r.hostname = none)) := by
  rw [renamed_iff, kept_iff]

/-- The name of 62 characters and the index behind it are too long, and no name is left. -/
theorem renaming_kept_long :
    ¬ ∀ (name : FirstName) (r : Responder) (rounds : List (Option Owner))
      (finishing : Option Owner) (argument : Option WString),
      Renamed name r rounds ∧ Kept r finishing argument := by
  intro all
  let long : FirstName :=
    ⟨List.replicate 62 0x61, by decide, by decide, by decide⟩
  have rounds := (renamed_iff long ⟨none, .new, [], false, 0, [], [], [], []⟩ [none]).mp
    (all _ _ _ none none).1
  have plain : indexed long.text = none := by
    rw [indexed, strrstr_none (by decide)]
  rw [roundsLeft, plain] at rounds
  exact absurd rounds (by decide)

end Esp8266.Source.Mdns
