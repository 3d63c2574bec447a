import Mathlib.Algebra.BigOperators.Group.List.Basic
import Mathlib.Data.List.Chain
import Mathlib.Data.List.Induction
import Mathlib.Data.List.Nodup
import Mathlib.Tactic.Ring

/-!
# Segments side by side

A range that is divided into segments, each of them free or in use. Segments of one division are
equal or apart; a segment is replaced by others that fill its place, and what stands in front of it
and behind it stays.
-/
set_option autoImplicit false

namespace Esp8266.Lib

structure Segment where
  start : Nat
  size : Nat
  free : Bool
  deriving DecidableEq, Repr

namespace Segment

/-- The first address behind the segment. -/
def stop (s : Segment) : Nat := s.start + s.size

/-- The segment, in use or free. -/
def mark (free : Bool) (s : Segment) : Segment := { s with free }

@[simp] theorem mark_start (free : Bool) (s : Segment) : (s.mark free).start = s.start := rfl
@[simp] theorem mark_size (free : Bool) (s : Segment) : (s.mark free).size = s.size := rfl
@[simp] theorem mark_stop (free : Bool) (s : Segment) : (s.mark free).stop = s.stop := rfl
@[simp] theorem mark_free (free : Bool) (s : Segment) : (s.mark free).free = free := rfl

end Segment

/-- The segments fill the range from `low` up to `high`. -/
def Tiles : Nat → List Segment → Nat → Prop
  | low, [], high => low = high
  | low, s :: rest, high => s.start = low ∧ 0 < s.size ∧ Tiles s.stop rest high

namespace Tiles

variable {low high : Nat} {s t : Segment} {segs pre mid post : List Segment}

theorem le (tiles : Tiles low segs high) : low ≤ high := by
  induction segs generalizing low with
  | nil => exact Nat.le_of_eq tiles
  | cons s rest ih =>
    obtain ⟨rfl, -, rest⟩ := tiles
    exact Nat.le_trans (Nat.le_add_right _ _) (ih rest)

theorem append_iff : Tiles low (pre ++ post) high ↔ ∃ seam, Tiles low pre seam ∧
    Tiles seam post high := by
  induction pre generalizing low with
  | nil => exact ⟨fun tiles => ⟨low, rfl, tiles⟩, by rintro ⟨_, rfl, tiles⟩; exact tiles⟩
  | cons s pre ih =>
    constructor
    · rintro ⟨start, size, rest⟩
      obtain ⟨seam, front, behind⟩ := ih.1 rest
      exact ⟨seam, ⟨start, size, front⟩, behind⟩
    · rintro ⟨seam, ⟨start, size, front⟩, behind⟩
      exact ⟨start, size, ih.2 ⟨seam, front, behind⟩⟩

/-- What stands in front of a segment, and what behind. -/
theorem around (tiles : Tiles low (pre ++ s :: post) high) :
    Tiles low pre s.start ∧ 0 < s.size ∧ Tiles s.stop post high := by
  obtain ⟨seam, front, start, size, behind⟩ := append_iff.1 tiles
  exact ⟨start ▸ front, size, behind⟩

theorem bounds (tiles : Tiles low segs high) (member : s ∈ segs) :
    low ≤ s.start ∧ 0 < s.size ∧ s.stop ≤ high := by
  obtain ⟨pre, post, rfl⟩ := List.append_of_mem member
  obtain ⟨front, size, behind⟩ := tiles.around
  exact ⟨front.le, size, behind.le⟩

/-- Two segments are one, or apart. -/
theorem apart (tiles : Tiles low segs high) (member : s ∈ segs) (member' : t ∈ segs) :
    s = t ∨ s.stop ≤ t.start ∨ t.stop ≤ s.start := by
  obtain ⟨pre, post, rfl⟩ := List.append_of_mem member
  obtain ⟨front, -, behind⟩ := tiles.around
  rcases List.mem_append.1 member' with before | there
  · exact .inr (.inr (front.bounds before).2.2)
  · rcases List.mem_cons.1 there with rfl | after
    · exact .inl rfl
    · exact .inr (.inl (behind.bounds after).1)

theorem eq_of_start (tiles : Tiles low segs high) (member : s ∈ segs) (member' : t ∈ segs)
    (same : s.start = t.start) : s = t := by
  have size := (tiles.bounds member).2.1
  have size' := (tiles.bounds member').2.1
  rcases tiles.apart member member' with equal | before | after
  · exact equal
  · unfold Segment.stop at before
    omega
  · unfold Segment.stop at after
    omega

/-- No segment occurs twice. -/
theorem nodup (tiles : Tiles low segs high) : segs.Nodup := by
  induction segs generalizing low with
  | nil => exact List.nodup_nil
  | cons s rest ih =>
    obtain ⟨rfl, size, tiles⟩ := tiles
    refine List.nodup_cons.2 ⟨fun member => ?_, ih tiles⟩
    have bound := (tiles.bounds member).1
    unfold Segment.stop at bound
    omega

/-- A segment is preceded by another, unless it is the first. -/
theorem exists_before (tiles : Tiles low (pre ++ s :: post) high) (later : low ≠ s.start) :
    ∃ pre' t, pre = pre' ++ [t] ∧ t.stop = s.start := by
  obtain ⟨front, -, -⟩ := tiles.around
  rcases List.eq_nil_or_concat pre with rfl | ⟨pre', t, rfl⟩
  · exact absurd front later
  · rw [List.concat_eq_append] at front ⊢
    obtain ⟨-, -, last⟩ := front.around
    exact ⟨pre', t, rfl, last⟩

end Tiles

/-! ## Selections and sums -/

/-- The segments in use. -/
def usedOf (segs : List Segment) : List Segment := segs.filter (!·.free)

/-- The free segments. -/
def freeOf (segs : List Segment) : List Segment := segs.filter (·.free)

/-- The sizes together. -/
def sizes (segs : List Segment) : Nat := (segs.map (·.size)).sum

def squares (segs : List Segment) : Nat := (segs.map fun s => s.size * s.size).sum

/-- The largest size. -/
def largest (segs : List Segment) : Nat := segs.foldl (fun most s => max most s.size) 0

/-- Where the free segments begin. -/
def freeStarts (segs : List Segment) : List Nat := (freeOf segs).map (·.start)

/-- The sizes of the free segments together. -/
def freeSize (segs : List Segment) : Nat := sizes (freeOf segs)

/-- No free segment follows a free one. -/
def Coalesced (segs : List Segment) : Prop :=
  segs.IsChain fun s t => ¬ (s.free = true ∧ t.free = true)

section
variable {low high : Nat} {s : Segment} {segs pre mid post : List Segment}

theorem freeStarts_append : freeStarts (pre ++ post) = freeStarts pre ++ freeStarts post := by
  simp [freeStarts, freeOf]

theorem freeStarts_cons_used (used : s.free = false) : freeStarts (s :: post) = freeStarts post := by
  simp [freeStarts, freeOf, used]

theorem freeStarts_cons_free (free : s.free = true) :
    freeStarts (s :: post) = s.start :: freeStarts post := by
  simp [freeStarts, freeOf, free]

theorem mem_freeStarts {b : Nat} :
    b ∈ freeStarts segs ↔ ∃ s ∈ segs, s.free = true ∧ s.start = b := by
  simp [freeStarts, freeOf, and_assoc]

theorem freeSize_append : freeSize (pre ++ post) = freeSize pre + freeSize post := by
  simp [freeSize, sizes, freeOf]

theorem freeSize_cons_used (used : s.free = false) : freeSize (s :: post) = freeSize post := by
  simp [freeSize, sizes, freeOf, used]

theorem freeSize_cons_free (free : s.free = true) :
    freeSize (s :: post) = s.size + freeSize post := by
  simp [freeSize, sizes, freeOf, free]

theorem freeSize_around_used (used : s.free = false) :
    freeSize (pre ++ s :: post) = freeSize pre + freeSize post := by
  rw [freeSize_append, freeSize_cons_used used]

theorem freeSize_around_free (free : s.free = true) :
    freeSize (pre ++ s :: post) = freeSize pre + (s.size + freeSize post) := by
  rw [freeSize_append, freeSize_cons_free free]

/-- The free segments are no more than the range holds. -/
theorem Tiles.freeSize_le (tiles : Tiles low segs high) : low + freeSize segs ≤ high := by
  induction segs generalizing low with
  | nil => exact Nat.le_of_eq tiles
  | cons s rest ih =>
    obtain ⟨rfl, -, rest⟩ := tiles
    have bound := ih rest
    unfold Segment.stop at bound
    cases free : s.free with
    | true => rw [freeSize_cons_free free]; omega
    | false => rw [freeSize_cons_used free]; omega

/-- There are no more free segments than free places. -/
theorem Tiles.length_freeStarts_le (tiles : Tiles low segs high) :
    (freeStarts segs).length ≤ freeSize segs := by
  induction segs generalizing low with
  | nil => exact Nat.zero_le _
  | cons s rest ih =>
    obtain ⟨-, size, tiles⟩ := tiles
    have bound := ih tiles
    cases free : s.free with
    | false => rwa [freeStarts_cons_used free, freeSize_cons_used free]
    | true =>
      rw [freeStarts_cons_free free, freeSize_cons_free free, List.length_cons]
      omega

/-- A segment between the others. -/
theorem coalesced_around : Coalesced (pre ++ s :: post) ↔ Coalesced pre ∧ Coalesced post ∧
    (∀ a ∈ pre.getLast?, ¬ (a.free = true ∧ s.free = true)) ∧
    ∀ b ∈ post.head?, ¬ (s.free = true ∧ b.free = true) := by
  rw [Coalesced, List.isChain_append, List.isChain_cons]
  constructor
  · rintro ⟨front, ⟨next, behind⟩, last⟩
    exact ⟨front, behind, fun a member => last a member s rfl, next⟩
  · rintro ⟨front, behind, last, next⟩
    refine ⟨front, ⟨next, behind⟩, fun a member b head => ?_⟩
    obtain rfl : s = b := by simpa using head
    exact last a member

end

section
variable {low high : Nat} {s : Segment} {segs pre post : List Segment}

theorem usedOf_append : usedOf (pre ++ post) = usedOf pre ++ usedOf post :=
  List.filter_append pre post

theorem usedOf_cons_used (used : s.free = false) : usedOf (s :: post) = s :: usedOf post := by
  simp [usedOf, used]

theorem usedOf_cons_free (free : s.free = true) : usedOf (s :: post) = usedOf post := by
  simp [usedOf, free]

theorem mem_usedOf : s ∈ usedOf segs ↔ s ∈ segs ∧ s.free = false := by
  simp [usedOf]

theorem Tiles.length_le (tiles : Tiles low segs high) : low + segs.length ≤ high := by
  induction segs generalizing low with
  | nil => exact Nat.le_of_eq tiles
  | cons s rest ih =>
    obtain ⟨rfl, size, tiles⟩ := tiles
    have bound := ih tiles
    unfold Segment.stop at bound
    rw [List.length_cons]
    omega

theorem Tiles.sizes_eq (tiles : Tiles low segs high) : low + sizes segs = high := by
  induction segs generalizing low with
  | nil => exact tiles
  | cons s rest ih =>
    obtain ⟨rfl, -, tiles⟩ := tiles
    rw [← ih tiles, sizes, List.map_cons, List.sum_cons, sizes, Segment.stop, Nat.add_assoc]

theorem sizes_append (pre post : List Segment) : sizes (pre ++ post) = sizes pre + sizes post := by
  rw [sizes, List.map_append, List.sum_append_nat, sizes, sizes]

theorem squares_append (pre post : List Segment) :
    squares (pre ++ post) = squares pre + squares post := by
  rw [squares, List.map_append, List.sum_append_nat, squares, squares]

/-- What is in use and what is free make the whole. -/
theorem sizes_used_free : sizes (usedOf segs) + sizes (freeOf segs) = sizes segs := by
  induction segs with
  | nil => rfl
  | cons s rest ih =>
    cases free : s.free <;>
      simp only [usedOf, freeOf, sizes, List.filter_cons, free, Bool.not_true, Bool.not_false,
        Bool.false_eq_true, if_true, if_false, List.map_cons, List.sum_cons] at ih ⊢ <;> omega

theorem squares_le : squares segs ≤ sizes segs * sizes segs := by
  induction segs with
  | nil => exact Nat.le_refl 0
  | cons s rest ih =>
    rw [squares, List.map_cons, List.sum_cons, sizes, List.map_cons, List.sum_cons]
    calc s.size * s.size + squares rest
        ≤ s.size * s.size + sizes rest * sizes rest := Nat.add_le_add_left ih _
      _ ≤ s.size * s.size + sizes rest * sizes rest + 2 * (s.size * sizes rest) :=
          Nat.le_add_right _ _
      _ = (s.size + sizes rest) * (s.size + sizes rest) := by ring

theorem largest_concat : largest (segs ++ [s]) =
    if largest segs < s.size then s.size else largest segs := by
  rw [largest, List.foldl_append, List.foldl_cons, List.foldl_nil, ← largest]
  split <;> omega

end

end Esp8266.Lib
