import Mathlib.Data.List.Nodup
import Mathlib.Logic.Function.Basic

/-!
# Ring buffers

An array of `size` cells with a read and a write position. One cell stays free, so that equal
positions mean an empty ring. Each operation is described by what it does to `contents`, the
elements from the oldest on, and callers never look at the positions.
-/
set_option autoImplicit false

namespace Esp8266.Lib

structure Ring (α : Type*) where
  size : Nat
  rpos : Nat
  wpos : Nat
  buffer : Nat → α

namespace Ring

variable {α : Type*}

/-- The number of elements held. -/
def used (r : Ring α) : Nat :=
  if r.wpos < r.rpos then (r.wpos + r.size) - r.rpos else r.wpos - r.rpos

/-- The elements held, oldest first. -/
def contents (r : Ring α) : List α :=
  (List.range r.used).map fun i => r.buffer ((r.rpos + i) % r.size)

structure Sound (r : Ring α) : Prop where
  rpos_lt : r.rpos < r.size
  wpos_lt : r.wpos < r.size

/-- Store an element at the write position. -/
def push (x : α) (r : Ring α) : Ring α :=
  { r with
    buffer := fun i => if i = r.wpos then x else r.buffer i
    wpos := (r.wpos + 1) % r.size }

/-- Give up the `n` oldest elements. -/
def advance (n : Nat) (r : Ring α) : Ring α := { r with rpos := (r.rpos + n) % r.size }

/-- `n` cells from the read position on, as one copy takes them. -/
def linear (r : Ring α) (n : Nat) : List α := (List.range n).map fun i => r.buffer (r.rpos + i)

/-- Store the elements in order. -/
def pushAll (xs : List α) (r : Ring α) : Ring α := xs.foldl (fun r x => r.push x) r

/-- The elements `xs` over those from position `p` on. -/
def overlay (p : Nat) (xs : List α) (buffer : Nat → α) : Nat → α :=
  fun i => if p ≤ i then xs.getD (i - p) (buffer i) else buffer i

@[simp] theorem push_size (x : α) (r : Ring α) : (r.push x).size = r.size := rfl
@[simp] theorem advance_size (n : Nat) (r : Ring α) : (r.advance n).size = r.size := rfl

@[simp] theorem length_contents (r : Ring α) : r.contents.length = r.used := by
  simp [contents]

@[simp] theorem length_linear (r : Ring α) (n : Nat) : (r.linear n).length = n := by
  simp [linear]

/-- A position that has gone round at most once. -/
theorem wrap {a size : Nat} (h : a < 2 * size) :
    a % size = if a < size then a else a - size := by
  split
  · exact Nat.mod_eq_of_lt ‹_›
  · rw [Nat.mod_eq_sub_mod (by omega), Nat.mod_eq_of_lt (by omega)]

theorem Sound.used_lt {r : Ring α} (sound : r.Sound) : r.used < r.size := by
  have rpos := sound.rpos_lt
  have wpos := sound.wpos_lt
  unfold used
  split <;> omega

/-- The write position is `used` cells behind the read position. -/
theorem Sound.wpos_eq {r : Ring α} (sound : r.Sound) : (r.rpos + r.used) % r.size = r.wpos := by
  have rpos := sound.rpos_lt
  have wpos := sound.wpos_lt
  unfold used
  split
  · rw [wrap (by omega), if_neg (by omega)]
    omega
  · rw [wrap (by omega), if_pos (by omega)]
    omega

/-- No other number of cells leads there. -/
theorem Sound.used_unique {r : Ring α} (sound : r.Sound) {n : Nat} (few : n < r.size)
    (reaches : (r.rpos + n) % r.size = r.wpos) : r.used = n := by
  have rpos := sound.rpos_lt
  have wpos := sound.wpos_lt
  rw [wrap (by omega)] at reaches
  unfold used
  split at reaches <;> split <;> omega

/-- The test for a full ring. -/
theorem Sound.full_iff {r : Ring α} (sound : r.Sound) :
    (r.wpos + 1) % r.size = r.rpos ↔ r.used + 1 = r.size := by
  have rpos := sound.rpos_lt
  have wpos := sound.wpos_lt
  rw [wrap (by omega)]
  unfold used
  split <;> split <;> omega

theorem Sound.push {r : Ring α} (sound : r.Sound) (x : α) : (r.push x).Sound :=
  ⟨sound.rpos_lt, Nat.mod_lt _ (Nat.lt_of_le_of_lt (Nat.zero_le _) sound.rpos_lt)⟩

theorem Sound.advance {r : Ring α} (sound : r.Sound) (n : Nat) : (r.advance n).Sound :=
  ⟨Nat.mod_lt _ (Nat.lt_of_le_of_lt (Nat.zero_le _) sound.rpos_lt), sound.wpos_lt⟩

theorem Sound.used_push {r : Ring α} (sound : r.Sound) (room : r.used + 1 < r.size) (x : α) :
    (r.push x).used = r.used + 1 := by
  apply (sound.push x).used_unique room
  calc (r.rpos + (r.used + 1)) % r.size
      = ((r.rpos + r.used) % r.size + 1) % r.size := by rw [Nat.mod_add_mod, Nat.add_assoc]
    _ = (r.wpos + 1) % r.size := by rw [sound.wpos_eq]

/-- Storing an element appends it, unless the ring is full. -/
theorem Sound.contents_push {r : Ring α} (sound : r.Sound) (room : r.used + 1 < r.size) (x : α) :
    (r.push x).contents = r.contents ++ [x] := by
  have at_end := sound.wpos_eq
  have rpos := sound.rpos_lt
  unfold contents
  rw [sound.used_push room, List.range_succ, List.map_append]
  congr 1
  · apply List.map_congr_left
    intro i member
    have inside := List.mem_range.mp member
    have apart : (r.rpos + i) % r.size ≠ r.wpos := by
      intro reaches
      have same := sound.used_unique (by omega) reaches
      omega
    exact if_neg apart
  · rw [List.map_singleton]
    exact congrArg (fun y => [y]) (if_pos at_end)

theorem Sound.used_advance {r : Ring α} (sound : r.Sound) {n : Nat} (held : n ≤ r.used) :
    (r.advance n).used = r.used - n := by
  have few := sound.used_lt
  apply (sound.advance n).used_unique (Nat.lt_of_le_of_lt (Nat.sub_le _ _) few)
  calc ((r.rpos + n) % r.size + (r.used - n)) % r.size
      = (r.rpos + r.used) % r.size := by
        rw [Nat.mod_add_mod, Nat.add_assoc, Nat.add_sub_cancel' held]
    _ = r.wpos := sound.wpos_eq

/-- Giving up the oldest elements drops them. -/
theorem Sound.contents_advance {r : Ring α} (sound : r.Sound) {n : Nat} (held : n ≤ r.used) :
    (r.advance n).contents = r.contents.drop n := by
  apply List.ext_getElem
  · rw [length_contents, List.length_drop, length_contents, sound.used_advance held]
  · intro i h h'
    simp [contents, Ring.advance, Nat.add_assoc]

/-- A copy that does not pass the end of the array takes the oldest elements. -/
theorem linear_eq {r : Ring α} {n : Nat} (held : n ≤ r.used) (straight : r.rpos + n ≤ r.size) :
    r.linear n = r.contents.take n := by
  apply List.ext_getElem
  · rw [length_linear, List.length_take, length_contents]
    omega
  · intro i h h'
    have inside : r.rpos + i < r.size := by
      rw [length_linear] at h
      omega
    simp [linear, contents, Nat.mod_eq_of_lt inside]

@[simp] theorem pushAll_nil (r : Ring α) : r.pushAll [] = r := rfl

@[simp] theorem pushAll_cons (x : α) (xs : List α) (r : Ring α) :
    r.pushAll (x :: xs) = (r.push x).pushAll xs := rfl

theorem pushAll_append (xs ys : List α) (r : Ring α) :
    r.pushAll (xs ++ ys) = (r.pushAll xs).pushAll ys := List.foldl_append

@[simp] theorem pushAll_size (xs : List α) (r : Ring α) : (r.pushAll xs).size = r.size := by
  induction xs generalizing r with
  | nil => rfl
  | cons x xs ih => exact ih (r.push x)

theorem Sound.pushAll {r : Ring α} (sound : r.Sound) (xs : List α) : (r.pushAll xs).Sound := by
  induction xs generalizing r with
  | nil => exact sound
  | cons x xs ih => exact ih (sound.push x)

theorem Sound.contents_pushAll {r : Ring α} (sound : r.Sound) (xs : List α)
    (room : r.used + xs.length < r.size) : (r.pushAll xs).contents = r.contents ++ xs := by
  induction xs generalizing r with
  | nil => exact (List.append_nil _).symm
  | cons x xs ih =>
    rw [List.length_cons] at room
    have first : r.used + 1 < r.size := by omega
    have rest : (r.push x).used + xs.length < (r.push x).size := by
      rw [sound.used_push first, push_size]
      omega
    rw [pushAll_cons, ih (sound.push x) rest, sound.contents_push first, List.append_assoc,
      List.singleton_append]

@[simp] theorem overlay_nil (p : Nat) (buffer : Nat → α) : overlay p [] buffer = buffer := by
  funext i
  simp [overlay]

theorem overlay_cons (p : Nat) (x : α) (xs : List α) (buffer : Nat → α) :
    overlay p (x :: xs) buffer = overlay (p + 1) xs fun i => if i = p then x else buffer i := by
  funext i
  simp only [overlay]
  rcases Nat.lt_trichotomy i p with before | rfl | behind
  · rw [if_neg (by omega), if_neg (by omega), if_neg (by omega)]
  · rw [if_pos (Nat.le_refl i), if_neg (by omega), if_pos rfl, Nat.sub_self]
    rfl
  · rw [if_pos (by omega), if_pos (by omega), if_neg (by omega),
      show i - p = (i - (p + 1)) + 1 by omega]
    rfl

theorem overlay_inside {p i : Nat} {xs : List α} (above : p ≤ i) (below : i - p < xs.length)
    (buffer : Nat → α) : overlay p xs buffer i = xs[i - p] := by
  rw [overlay, if_pos above]
  exact (List.getElem_eq_getD _).symm

theorem overlay_outside {p i : Nat} {xs : List α} (apart : i < p ∨ p + xs.length ≤ i)
    (buffer : Nat → α) : overlay p xs buffer i = buffer i := by
  unfold overlay
  split
  · rw [List.getD_eq_getElem?_getD, List.getElem?_eq_none (by omega)]
    rfl
  · rfl

/-- Nothing changes where the elements are there already. -/
theorem overlay_self {p : Nat} {xs : List α} {buffer : Nat → α}
    (there : ∀ i (below : i < xs.length), buffer (p + i) = xs[i]) :
    overlay p xs buffer = buffer := by
  funext i
  by_cases within : p ≤ i ∧ i < p + xs.length
  · rw [overlay_inside within.1 (by omega), ← there (i - p) (by omega),
      Nat.add_sub_cancel' within.1]
  · exact overlay_outside (by omega) buffer

/-- Elements that do not pass the end of the array are stored by one copy. -/
theorem Sound.pushAll_straight {r : Ring α} (sound : r.Sound) (xs : List α)
    (straight : r.wpos + xs.length ≤ r.size) :
    r.pushAll xs = { r with
      buffer := overlay r.wpos xs r.buffer
      wpos := (r.wpos + xs.length) % r.size } := by
  induction xs generalizing r with
  | nil =>
    rw [overlay_nil, List.length_nil, Nat.add_zero, Nat.mod_eq_of_lt sound.wpos_lt]
    rfl
  | cons x xs ih =>
    rw [List.length_cons] at straight
    rw [pushAll_cons, overlay_cons, List.length_cons]
    by_cases last : xs = []
    · rw [last, overlay_nil]
      rfl
    · have more := List.length_pos_iff.2 last
      have next : (r.push x).wpos = r.wpos + 1 := Nat.mod_eq_of_lt (by omega)
      have rest : (r.push x).wpos + xs.length ≤ (r.push x).size := by
        rw [next, push_size]
        omega
      rw [ih (sound.push x) rest, next, push_size, Nat.add_right_comm r.wpos 1, Nat.add_assoc]
      rfl

theorem Sound.advance_zero {r : Ring α} (sound : r.Sound) : r.advance 0 = r := by
  rw [Ring.advance, Nat.add_zero, Nat.mod_eq_of_lt sound.rpos_lt]

theorem advance_advance (m n : Nat) (r : Ring α) :
    (r.advance m).advance n = r.advance (m + n) := by
  simp only [Ring.advance, Nat.mod_add_mod, Nat.add_assoc]

theorem Sound.head_eq {r : Ring α} (sound : r.Sound) (some : r.used ≠ 0) :
    r.contents = r.buffer r.rpos :: r.contents.tail := by
  have one := linear_eq (show 1 ≤ r.used by omega) (show _ ≤ _ from sound.rpos_lt)
  have head : r.linear 1 = [r.buffer r.rpos] := rfl
  rw [← List.take_append_drop 1 r.contents, ← one, head]
  simp

/-! ## Cells -/

/-- `n` cells from a position on. -/
def slots (size pos n : Nat) : List Nat := (List.range n).map fun i => (pos + i) % size

@[simp] theorem length_slots (size pos n : Nat) : (slots size pos n).length = n := by simp [slots]

theorem slots_add (size pos m n : Nat) :
    slots size pos (m + n) = slots size pos m ++ slots size ((pos + m) % size) n := by
  simp [slots, List.range_add, Function.comp_def, Nat.add_assoc]

theorem slots_straight {size pos n : Nat} (straight : pos + n ≤ size) :
    slots size pos n = (List.range n).map (pos + ·) := by
  apply List.map_congr_left
  intro i member
  have inside := List.mem_range.1 member
  exact Nat.mod_eq_of_lt (by omega)

/-- The cells of one round differ. -/
theorem nodup_slots {size pos n : Nat} (inside : pos < size) (round : n ≤ size) :
    (slots size pos n).Nodup := by
  apply List.Nodup.map_on _ List.nodup_range
  intro i first j second same
  have low := List.mem_range.1 first
  have high := List.mem_range.1 second
  rw [wrap (by omega), wrap (by omega)] at same
  split at same <;> split at same <;> omega

/-- The cells of one call are not those of the next one. -/
theorem slots_apart {size pos m n i j : Nat} (inside : pos < size) (round : m + n ≤ size)
    (first : i ∈ slots size pos m) (second : j ∈ slots size ((pos + m) % size) n) : i ≠ j := by
  have apart := nodup_slots inside round
  rw [slots_add] at apart
  exact (List.nodup_append.1 apart).2.2 i first j second

theorem contents_eq (r : Ring α) : r.contents = (slots r.size r.rpos r.used).map r.buffer := by
  simp [contents, slots, Function.comp_def]

/-- The oldest elements. -/
theorem take_contents {r : Ring α} {n : Nat} (held : n ≤ r.used) :
    r.contents.take n = (slots r.size r.rpos n).map r.buffer := by
  rw [contents_eq, show r.used = n + (r.used - n) by omega, slots_add, List.map_append]
  apply List.take_left'
  simp

/-- A store outside of the cells held changes no element. -/
theorem contents_update {r : Ring α} {i : Nat} (x : α) (free : i ∉ slots r.size r.rpos r.used) :
    { r with buffer := Function.update r.buffer i x }.contents = r.contents := by
  rw [contents_eq, contents_eq]
  apply List.map_congr_left
  intro j held
  apply Function.update_of_ne
  rintro rfl
  exact free held

theorem Sound.used_extend {r : Ring α} (sound : r.Sound) {n : Nat} (room : r.used + n < r.size) :
    { r with wpos := (r.wpos + n) % r.size }.used = r.used + n := by
  have moved : { r with wpos := (r.wpos + n) % r.size }.Sound :=
    ⟨sound.rpos_lt, Nat.mod_lt _ (Nat.lt_of_le_of_lt (Nat.zero_le _) sound.rpos_lt)⟩
  apply moved.used_unique room
  rw [← Nat.add_assoc, ← sound.wpos_eq]
  exact (Nat.mod_add_mod _ _ _).symm

/-- Moving the write position over stored cells appends what they hold. -/
theorem Sound.contents_extend {r : Ring α} (sound : r.Sound) {n : Nat}
    (room : r.used + n < r.size) :
    { r with wpos := (r.wpos + n) % r.size }.contents =
      r.contents ++ (slots r.size r.wpos n).map r.buffer := by
  rw [contents_eq, sound.used_extend room, slots_add, List.map_append, sound.wpos_eq, contents_eq]

end Ring

end Esp8266.Lib
