import Esp8266.Lib.Runs
import Esp8266.Source.Cbuf

/-!
# `cbuf` is a bounded queue of bytes

A buffer is a ring of `Lib.Ring`, and each call is one operation of the ring. The ring stands for
a plain list with a limit, `Fifo`, so that a run of calls on the buffer answers like the list.
-/
set_option autoImplicit false

namespace Esp8266.Source.Cbuf
open Esp8266.Lib

/-! ## The queue that the buffer stands for -/

/-- A queue that holds at most `size - 1` bytes. -/
structure Fifo where
  size : Nat
  held : List UInt8

namespace Fifo

def room (f : Fifo) : Nat := f.size - 1 - f.held.length

/-- What a call adds at the end. -/
def given : Call → Fifo → List UInt8
  | .writeChar c, f => [c].take f.room
  | .write src, f => src.take f.room
  | _, _ => []

/-- How many bytes a call takes from the front. -/
def takes : Call → Fifo → Nat
  | .readChar, f => min 1 f.held.length
  | .read size, f => min size f.held.length
  | .remove size, f => min size f.held.length
  | .flush, f => f.held.length
  | _, _ => 0

def taken (request : Call) (f : Fifo) : List UInt8 := f.held.take (takes request f)

/-- A new size applies unless it is too small or memory runs out. -/
def resized (granted : Bool) (newSize : Nat) (f : Fifo) : Nat :=
  if newSize ≤ f.held.length ∨ !granted then f.size else newSize

def sizeAfter : Call → Fifo → Nat
  | .resize granted newSize, f => f.resized granted newSize
  | .resizeAdd granted addSize, f => f.resized granted ((f.size + addSize) % 2 ^ 32)
  | _, f => f.size

def answer : Call → Fifo → Answer
  | .writeChar c, f => .count (given (.writeChar c) f).length
  | .write src, f => .count (given (.write src) f).length
  | .readChar, f => .char f.held.head?
  | .read size, f => .bytes (f.held.take size)
  | .peekChar, f => .char f.held.head?
  | .peek size, f => .bytes (f.held.take size)
  | .remove size, f => .count (f.held.length - size)
  | .flush, _ => .done
  | .resize granted newSize, f => .count (sizeAfter (.resize granted newSize) f)
  | .resizeAdd granted addSize, f => .count (sizeAfter (.resizeAdd granted addSize) f)

def call (request : Call) (f : Fifo) : Answer × Fifo :=
  (answer request f, ⟨sizeAfter request f, f.held.drop (takes request f) ++ given request f⟩)

/-- The bytes added by a run of calls. -/
def givenBy : List Call → Fifo → List UInt8
  | [], _ => []
  | request :: rest, f => given request f ++ givenBy rest (call request f).2

/-- The bytes taken by a run of calls. -/
def takenBy : List Call → Fifo → List UInt8
  | [], _ => []
  | request :: rest, f => taken request f ++ takenBy rest (call request f).2

/-- A call takes only what was held before it. -/
theorem conserves (request : Call) (f : Fifo) :
    f.held ++ given request f = taken request f ++ (call request f).2.held := by
  simp only [taken, call]
  rw [← List.append_assoc, List.take_append_drop]

/-- No byte is lost, doubled or overtaken. -/
theorem conserves_run (requests : List Call) (f : Fifo) :
    f.held ++ givenBy requests f = takenBy requests f ++ (Runs.after call requests f).held := by
  induction requests generalizing f with
  | nil => simp [givenBy, takenBy]
  | cons request rest ih =>
    calc f.held ++ (given request f ++ givenBy rest (call request f).2)
        = taken request f ++ ((call request f).2.held ++ givenBy rest (call request f).2) := by
          rw [← List.append_assoc, conserves, List.append_assoc]
      _ = taken request f ++ takenBy rest (call request f).2 ++ _ := by
          rw [ih, List.append_assoc]
          rfl

end Fifo

/-! ## The buffer as a ring -/

def ofRing (r : Lib.Ring UInt8) : Cbuf := ⟨r.size, r.buffer, r.size, r.rpos, r.wpos⟩

def ring (b : Cbuf) : Lib.Ring UInt8 := ⟨b._size, b._begin, b._end, b._buf⟩

/-- The bytes stored, oldest first. -/
def contents (b : Cbuf) : List UInt8 := b.ring.contents

@[simp] theorem ring_ofRing (r : Lib.Ring UInt8) : (ofRing r).ring = r := rfl

@[simp] theorem contents_ofRing (r : Lib.Ring UInt8) : (ofRing r).contents = r.contents := rfl

variable {r : Lib.Ring UInt8}

/-- A pointer that is moved on by at most the distance to the end. -/
theorem wrapIfBufend_ofRing {p : Nat} (inside : p ≤ r.size) :
    (ofRing r).wrapIfBufend p = p % r.size := by
  show (if p = r.size then 0 else p) = p % r.size
  split
  · rename_i last
    rw [last, Nat.mod_self]
  · exact (Nat.mod_eq_of_lt (by omega)).symm

/-- A copy from the oldest byte on that stops at the end of the allocation. -/
theorem load_straight {n : Nat} (held : n ≤ r.used) (straight : r.rpos + n ≤ r.size) :
    (ofRing r).load r.rpos n = some (r.contents.take n) := by
  rw [← Ring.linear_eq held straight]
  exact if_pos straight

theorem store_end (b : Cbuf) (p e : Nat) (bytes : List UInt8) :
    store p bytes { b with _end := e } =
      (store p bytes b).map fun b => { b with _end := e } := by
  unfold store
  split <;> rfl

section OneCall

variable (sound : r.Sound)
include sound

theorem available_ofRing : (ofRing r).available = r.used := by
  have rpos := sound.rpos_lt
  have wpos := sound.wpos_lt
  show (if r.wpos ≥ r.rpos then r.wpos - r.rpos else r.size - (r.rpos - r.wpos)) = r.used
  unfold Ring.used
  split <;> split <;> omega

theorem room_ofRing : (ofRing r).room = r.size - 1 - r.used := by
  have rpos := sound.rpos_lt
  have wpos := sound.wpos_lt
  show (if r.wpos ≥ r.rpos then r.size - (r.wpos - r.rpos) - 1 else r.rpos - r.wpos - 1) = _
  unfold Ring.used
  split <;> split <;> omega

theorem empty_ofRing : (ofRing r).empty = decide (r.used = 0) := by
  have rpos := sound.rpos_lt
  have wpos := sound.wpos_lt
  simp only [empty, ofRing, Ring.used]
  apply decide_eq_decide.2
  split <;> omega

theorem full_ofRing : (ofRing r).full = decide (r.used + 1 = r.size) := by
  have wpos := sound.wpos_lt
  unfold full
  rw [show (ofRing r)._end = r.wpos from rfl, wrapIfBufend_ofRing wpos]
  exact decide_eq_decide.2 sound.full_iff

theorem byteAt_begin : (ofRing r).byteAt (ofRing r)._begin = some (r.buffer r.rpos) :=
  if_pos sound.rpos_lt

theorem peekChar_ofRing : (ofRing r).peekChar = some r.contents.head? := by
  unfold peekChar
  rw [empty_ofRing sound, byteAt_begin sound]
  by_cases nothing : r.used = 0
  · rw [decide_eq_true nothing, List.length_eq_zero_iff.1 (r.length_contents.trans nothing)]
    rfl
  · rw [decide_eq_false nothing, sound.head_eq nothing]
    rfl

theorem readChar_ofRing : (ofRing r).readChar =
    some (r.contents.head?, ofRing (r.advance (min 1 r.used))) := by
  unfold readChar
  rw [empty_ofRing sound, byteAt_begin sound]
  by_cases nothing : r.used = 0
  · rw [decide_eq_true nothing, List.length_eq_zero_iff.1 (r.length_contents.trans nothing),
      nothing, Nat.min_zero, sound.advance_zero]
    rfl
  · have moved : (ofRing r).wrapIfBufend ((ofRing r)._begin + 1) = (r.rpos + 1) % r.size :=
      wrapIfBufend_ofRing sound.rpos_lt
    rw [decide_eq_false nothing, sound.head_eq nothing, Nat.min_eq_left (by omega), moved]
    rfl

/-- A copy that passes the end of the allocation is made in two parts. -/
theorem load_wrapped {n : Nat} (held : n ≤ r.used) (passes : r.size < r.rpos + n) :
    (ofRing r).load r.rpos (r.size - r.rpos) = some (r.contents.take (r.size - r.rpos)) ∧
      (ofRing r).load 0 (n - (r.size - r.rpos)) =
        some ((r.contents.drop (r.size - r.rpos)).take (n - (r.size - r.rpos))) := by
  have rpos := sound.rpos_lt
  have few := sound.used_lt
  refine ⟨load_straight (by omega) (by omega), ?_⟩
  have turned : (r.advance (r.size - r.rpos)).rpos = 0 := by
    show (r.rpos + (r.size - r.rpos)) % r.size = 0
    rw [Nat.add_sub_cancel' (Nat.le_of_lt rpos), Nat.mod_self]
  have left := sound.used_advance (show r.size - r.rpos ≤ r.used by omega)
  have rest := load_straight (show n - (r.size - r.rpos) ≤ (r.advance (r.size - r.rpos)).used by
    omega) (by rw [turned, Ring.advance_size]; omega)
  rw [turned, sound.contents_advance (by omega)] at rest
  exact rest

/-- What is taken at once without passing the end. -/
theorem straight_of_not_wrapped {n : Nat} (held : n ≤ r.used)
    (straight : ¬(r.wpos < r.rpos ∧ n > r.size - r.rpos)) : r.rpos + n ≤ r.size := by
  have rpos := sound.rpos_lt
  have wpos := sound.wpos_lt
  unfold Ring.used at held
  split at held <;> omega

theorem peek_ofRing (size : Nat) : (ofRing r).peek size = some (r.contents.take size) := by
  have held := Nat.min_le_right size r.used
  have whole : r.contents.take size = r.contents.take (min size r.used) := by
    rw [List.take_eq_take_min, r.length_contents]
  unfold peek
  rw [available_ofRing sound, whole]
  show (if r.wpos < r.rpos ∧ min size r.used > r.size - r.rpos then _ else _) = _
  split
  · rename_i passes
    obtain ⟨top, rest⟩ := load_wrapped sound held (by have := passes.2; omega)
    show ((ofRing r).load r.rpos (r.size - r.rpos) >>= _) = _
    rw [top]
    show ((ofRing r).load 0 (min size r.used - (r.size - r.rpos)) >>= _) = _
    rw [rest]
    show some _ = some _
    rw [← List.take_add, Nat.add_sub_cancel' (Nat.le_of_lt passes.2)]
  · rename_i straight
    exact load_straight held (straight_of_not_wrapped sound held straight)

/-- The read pointer of a copy in two parts. -/
theorem moved_wrapped {n : Nat} (held : n ≤ r.used) (passes : n > r.size - r.rpos) :
    (ofRing r).wrapIfBufend (0 + (n - (r.size - r.rpos))) = (r.rpos + n) % r.size := by
  have rpos := sound.rpos_lt
  have few := sound.used_lt
  rw [wrapIfBufend_ofRing (by omega), Ring.wrap (by omega), Ring.wrap (by omega)]
  split <;> split <;> omega

theorem read_ofRing (size : Nat) : (ofRing r).read size =
    some (r.contents.take size, ofRing (r.advance (min size r.used))) := by
  have rpos := sound.rpos_lt
  have few := sound.used_lt
  have held := Nat.min_le_right size r.used
  have whole : r.contents.take size = r.contents.take (min size r.used) := by
    rw [List.take_eq_take_min, r.length_contents]
  unfold read
  rw [available_ofRing sound, whole]
  show (if r.wpos < r.rpos ∧ min size r.used > r.size - r.rpos then _ else _) = _
  split
  · rename_i passes
    obtain ⟨top, rest⟩ := load_wrapped sound held (by have := passes.2; omega)
    show ((ofRing r).load r.rpos (r.size - r.rpos) >>= _) = _
    rw [top]
    show ((ofRing r).load 0 (min size r.used - (r.size - r.rpos)) >>= _) = _
    rw [rest]
    show some (_, (⟨r.size, r.buffer, r.size, (ofRing r).wrapIfBufend
      (0 + (min size r.used - (r.size - r.rpos))), r.wpos⟩ : Cbuf)) = _
    rw [moved_wrapped sound held passes.2, ← List.take_add, Nat.add_sub_cancel' (Nat.le_of_lt passes.2)]
    rfl
  · rename_i straight
    have inside := straight_of_not_wrapped sound held straight
    show ((ofRing r).load r.rpos (min size r.used) >>= _) = _
    rw [load_straight held inside]
    show some (_, (⟨r.size, r.buffer, r.size, (ofRing r).wrapIfBufend
      (r.rpos + min size r.used), r.wpos⟩ : Cbuf)) = _
    rw [wrapIfBufend_ofRing inside]
    rfl

/-- Bytes that do not pass the end of the allocation: one copy, and the pointer moved on. -/
theorem store_straight (bytes : List UInt8) (straight : r.wpos + bytes.length ≤ r.size) :
    ∃ b, (ofRing r).store r.wpos bytes = some b ∧ b._end = r.wpos ∧
      { b with _end := b.wrapIfBufend (r.wpos + bytes.length) } = ofRing (r.pushAll bytes) := by
  refine ⟨ofRing { r with buffer := Ring.overlay r.wpos bytes r.buffer }, if_pos straight, rfl, ?_⟩
  have moved : (ofRing { r with buffer := Ring.overlay r.wpos bytes r.buffer }).wrapIfBufend
      (r.wpos + bytes.length) = (r.wpos + bytes.length) % r.size := wrapIfBufend_ofRing straight
  simp only [moved]
  rw [sound.pushAll_straight bytes straight]
  rfl

theorem writeChar_ofRing (c : UInt8) : (ofRing r).writeChar c =
    if r.used + 1 = r.size then some (0, ofRing r) else some (1, ofRing (r.push c)) := by
  unfold writeChar
  rw [full_ofRing sound]
  by_cases filled : r.used + 1 = r.size
  · rw [decide_eq_true filled, if_pos filled]
    rfl
  · obtain ⟨b, stored, kept, ends⟩ := store_straight sound [c] sound.wpos_lt
    rw [decide_eq_false filled, if_neg filled]
    show ((ofRing r).store r.wpos [c] >>= _) = _
    rw [stored]
    show some (1, { b with _end := b.wrapIfBufend (b._end + 1) }) = _
    rw [kept]
    exact congrArg (fun b => some (1, b)) ends

/-- Bytes that pass the end of the allocation: two copies. -/
theorem store_wrapped (top rest : List UInt8) (turns : r.wpos + top.length = r.size)
    (fits : rest.length ≤ r.size) :
    ∃ b b', (ofRing r).store r.wpos top = some b ∧ b.store 0 rest = some b' ∧
      { b' with _end := b'.wrapIfBufend (0 + rest.length) } = ofRing (r.pushAll (top ++ rest)) := by
  obtain ⟨b, stored, -, ends⟩ := store_straight sound top (Nat.le_of_eq turns)
  have start : (r.pushAll top).wpos = 0 := by
    rw [sound.pushAll_straight top (Nat.le_of_eq turns)]
    show (r.wpos + top.length) % r.size = 0
    rw [turns, Nat.mod_self]
  obtain ⟨b', stored', -, ends'⟩ := store_straight (sound.pushAll top) rest (by
    rw [start, Nat.zero_add, Ring.pushAll_size]
    exact fits)
  rw [start, ← ends, store_end, Option.map_eq_some_iff] at stored'
  obtain ⟨b'', second, rfl⟩ := stored'
  refine ⟨b, b'', stored, second, ?_⟩
  rw [start] at ends'
  rw [Ring.pushAll_append, ← ends']
  rfl

/-- All bytes that fit are stored, as if one by one. -/
theorem write_ofRing (src : List UInt8) : (ofRing r).write src =
    some (min src.length (r.size - 1 - r.used),
      ofRing (r.pushAll (src.take (r.size - 1 - r.used)))) := by
  have rpos := sound.rpos_lt
  have wpos := sound.wpos_lt
  have few := sound.used_lt
  have whole : src.take (r.size - 1 - r.used) =
      src.take (min src.length (r.size - 1 - r.used)) := by
    rw [List.take_eq_take_min, Nat.min_comm]
  have fits := Nat.min_le_right src.length (r.size - 1 - r.used)
  have given := Nat.min_le_left src.length (r.size - 1 - r.used)
  unfold write
  rw [room_ofRing sound, whole]
  generalize min src.length (r.size - 1 - r.used) = n at fits given ⊢
  show (if r.wpos ≥ r.rpos ∧ n > r.size - r.wpos then _ else _) = _
  split
  · rename_i passes
    have passed := passes.2
    have top : (src.take (r.size - r.wpos)).length = r.size - r.wpos := by
      rw [List.length_take]
      omega
    have rest : ((src.drop (r.size - r.wpos)).take (n - (r.size - r.wpos))).length =
        n - (r.size - r.wpos) := by
      rw [List.length_take, List.length_drop]
      omega
    obtain ⟨b, b', first, second, ends⟩ := store_wrapped sound (src.take (r.size - r.wpos))
      ((src.drop (r.size - r.wpos)).take (n - (r.size - r.wpos))) (by omega) (by omega)
    rw [rest, ← List.take_add, Nat.add_sub_cancel' (Nat.le_of_lt passed)] at ends
    show ((ofRing r).store r.wpos (src.take (r.size - r.wpos)) >>= _) = _
    rw [first]
    show (b.store 0 ((src.drop (r.size - r.wpos)).take (n - (r.size - r.wpos))) >>= _) = _
    rw [second]
    exact congrArg (fun b => some (n, b)) ends
  · rename_i straight
    have length : (src.take n).length = n := List.length_take_of_le given
    have inside : r.wpos + n ≤ r.size := by
      unfold Ring.used at fits
      split at fits <;> omega
    obtain ⟨b, stored, kept, ends⟩ := store_straight sound (src.take n) (by omega)
    show ((ofRing r).store r.wpos (src.take n) >>= _) = _
    rw [stored]
    show some (n, { b with _end := b.wrapIfBufend (b._end + n) }) = _
    rw [kept]
    rw [length] at ends
    exact congrArg (fun b => some (n, b)) ends

/-- `remove` gives up the oldest bytes; once all are gone the pointers start over. -/
theorem remove_ofRing (size : Nat) : (ofRing r).remove size =
    if size ≥ r.used then (0, (ofRing r).flush) else (r.used - size, ofRing (r.advance size)) := by
  have rpos := sound.rpos_lt
  have few := sound.used_lt
  unfold remove
  rw [available_ofRing sound]
  by_cases all : size ≥ r.used
  · rw [if_pos all, if_pos all]
  · have few' : min size r.used = size := Nat.min_eq_left (by omega)
    rw [if_neg all, if_neg all, few']
    have held : size ≤ r.used := by omega
    have left : (ofRing (r.advance size)).available = r.used - size := by
      rw [available_ofRing (sound.advance size), sound.used_advance held]
    rw [← left]
    refine congrArg (fun b : Cbuf => (b.available, b)) ?_
    show (if r.wpos < r.rpos ∧ size > r.size - r.rpos then
        (⟨r.size, r.buffer, r.size, (ofRing r).wrapIfBufend (0 + (size - (r.size - r.rpos))),
          r.wpos⟩ : Cbuf)
      else ⟨r.size, r.buffer, r.size, (ofRing r).wrapIfBufend (r.rpos + size), r.wpos⟩) = _
    split
    · rename_i passes
      rw [moved_wrapped sound held passes.2]
      rfl
    · rename_i straight
      rw [wrapIfBufend_ofRing (straight_of_not_wrapped sound held straight)]
      rfl

/-- `resize` copies all bytes to the front of the new allocation. -/
theorem resize_ofRing (granted : Bool) (newSize : Nat) : (ofRing r).resize granted newSize =
    if newSize ≤ r.used ∨ newSize = r.size ∨ !granted then some (r.size, ofRing r)
    else some (newSize,
      ofRing ⟨newSize, 0, r.used, fun i => r.contents.getD i 0⟩) := by
  unfold resize
  rw [available_ofRing sound]
  show (if newSize ≤ r.used ∨ newSize = r.size then some (r.size, ofRing r) else _) = _
  by_cases same : newSize ≤ r.used ∨ newSize = r.size
  · rw [if_pos same, if_pos (same.imp_right .inl)]
  · rw [if_neg same]
    cases granted with
    | false => exact (if_pos (.inr (.inr rfl))).symm
    | true =>
      have all : r.contents.take r.used = r.contents := by
        rw [← r.length_contents, List.take_length]
      have differs : ¬(newSize ≤ r.used ∨ newSize = r.size ∨ (!true) = true) := by simpa using same
      rw [if_neg differs]
      show ((ofRing r).read r.used >>= _) = _
      rw [read_ofRing sound, all]
      show some (newSize, (⟨newSize, _, newSize, 0, 0 + r.used⟩ : Cbuf)) = _
      rw [Nat.zero_add]
      rfl

end OneCall

/-- The bytes at the front of a larger allocation are all that it holds. -/
theorem sound_moved (newSize : Nat) (larger : r.used < newSize) :
    (⟨newSize, 0, r.used, fun i => r.contents.getD i 0⟩ : Lib.Ring UInt8).Sound ∧
      (⟨newSize, 0, r.used, fun i => r.contents.getD i 0⟩ : Lib.Ring UInt8).contents =
        r.contents := by
  refine ⟨⟨Nat.lt_of_le_of_lt (Nat.zero_le _) larger, larger⟩, ?_⟩
  apply List.ext_getElem
  · rw [Ring.length_contents, Ring.length_contents]
    rfl
  · intro i h h'
    rw [r.length_contents] at h'
    have inside : (0 + i) % newSize = i := by
      rw [Nat.zero_add, Nat.mod_eq_of_lt (by omega)]
    unfold Ring.contents at h ⊢
    rw [List.getElem_map, List.getElem_range]
    show r.contents.getD ((0 + i) % newSize) 0 = _
    rw [inside]
    exact (List.getElem_eq_getD 0).symm

/-! ## One call -/

/-- The ring and the queue agree. -/
structure Stands (r : Lib.Ring UInt8) (f : Fifo) : Prop where
  sound : r.Sound
  size : r.size = f.size
  held : r.contents = f.held

namespace Stands

variable {r : Lib.Ring UInt8} {f : Fifo}

theorem used (stands : Stands r f) : r.used = f.held.length := by
  rw [← stands.held, r.length_contents]

theorem room (stands : Stands r f) : r.size - 1 - r.used = f.room := by
  rw [stands.used, stands.size]
  rfl

theorem advance (stands : Stands r f) {n : Nat} (held : n ≤ r.used) :
    Stands (r.advance n) ⟨f.size, f.held.drop n ++ []⟩ :=
  ⟨stands.sound.advance n, stands.size, by
    rw [stands.sound.contents_advance held, stands.held, List.append_nil]⟩

theorem pushAll (stands : Stands r f) (bytes : List UInt8) :
    Stands (r.pushAll (bytes.take f.room)) ⟨f.size, f.held ++ bytes.take f.room⟩ := by
  have few := stands.sound.used_lt
  have fits : r.used + (bytes.take f.room).length < r.size := by
    rw [List.length_take, ← stands.room]
    omega
  refine ⟨stands.sound.pushAll _, (Ring.pushAll_size _ _).trans stands.size, ?_⟩
  rw [stands.sound.contents_pushAll _ fits, stands.held]

theorem takes_le (stands : Stands r f) (n : Nat) : min n f.held.length ≤ r.used := by
  rw [stands.used]
  exact Nat.min_le_right _ _

theorem same (stands : Stands r f) : Stands r ⟨f.size, f.held.drop 0 ++ []⟩ :=
  ⟨stands.sound, stands.size, by rw [stands.held, List.append_nil]; rfl⟩

theorem flush (stands : Stands r f) :
    Stands ⟨r.size, 0, 0, r.buffer⟩ ⟨f.size, f.held.drop f.held.length ++ []⟩ := by
  have positive := Nat.lt_of_le_of_lt (Nat.zero_le _) stands.sound.rpos_lt
  refine ⟨⟨positive, positive⟩, stands.size, ?_⟩
  rw [List.drop_length]
  rfl

theorem resize (stands : Stands r f) (granted : Bool) (newSize : Nat) :
    ∃ r', ((ofRing r).resize granted newSize).map (fun a => (Answer.count a.1, a.2)) =
        some (.count (f.resized granted newSize), ofRing r') ∧
      Stands r' ⟨f.resized granted newSize, f.held.drop 0 ++ []⟩ := by
  have size := stands.size
  have used := stands.used
  rw [resize_ofRing stands.sound]
  by_cases kept : newSize ≤ r.used ∨ newSize = r.size ∨ !granted
  · have unchanged : f.resized granted newSize = f.size := by
      unfold Fifo.resized
      split
      · rfl
      · rename_i applies
        rcases kept with small | equal | refused
        · exact absurd (.inl (used ▸ small)) applies
        · exact equal.trans size
        · exact absurd (.inr refused) applies
    rw [if_pos kept, unchanged, ← size]
    exact ⟨r, rfl, stands.sound, rfl, stands.same.held⟩
  · have applies : f.resized granted newSize = newSize := by
      refine if_neg fun refused => kept ?_
      rw [← used] at refused
      exact refused.imp_right .inr
    obtain ⟨sound', contents'⟩ := sound_moved newSize (show r.used < newSize by omega)
    rw [if_neg kept, applies]
    exact ⟨_, rfl, sound', rfl, contents'.trans stands.same.held⟩

/-- Every call answers as the queue does, and leaves the buffer as the queue stands. -/
theorem call (stands : Stands r f) (request : Call) :
    ∃ r', Cbuf.call request (ofRing r) = some ((Fifo.call request f).1, ofRing r') ∧
      Stands r' (Fifo.call request f).2 := by
  have sound := stands.sound
  cases request with
  | writeChar c =>
    refine ⟨r.pushAll ([c].take f.room), ?_, stands.pushAll [c]⟩
    have few := sound.used_lt
    have room := stands.room
    simp only [Cbuf.call, writeChar_ofRing sound, Fifo.call, Fifo.answer, Fifo.given]
    by_cases filled : r.used + 1 = r.size
    · have nothing : f.room = 0 := by omega
      rw [if_pos filled, nothing]
      rfl
    · obtain ⟨n, more⟩ : ∃ n, f.room = n + 1 := ⟨f.room - 1, by omega⟩
      have one : [c].take (n + 1) = [c] := List.take_of_length_le (Nat.le_add_left _ _)
      rw [if_neg filled, more, one]
      rfl
  | write src =>
    refine ⟨r.pushAll (src.take f.room), ?_, stands.pushAll src⟩
    have length : (src.take f.room).length = min src.length f.room := by
      rw [List.length_take, Nat.min_comm]
    simp only [Cbuf.call, write_ofRing sound, stands.room, Fifo.call, Fifo.answer, Fifo.given,
      Option.map_some, length]
  | readChar =>
    refine ⟨r.advance (min 1 f.held.length), ?_, stands.advance (stands.takes_le 1)⟩
    simp only [Cbuf.call, readChar_ofRing sound, stands.held, stands.used, Option.map_some]
    rfl
  | read size =>
    refine ⟨r.advance (min size f.held.length), ?_, stands.advance (stands.takes_le size)⟩
    simp only [Cbuf.call, read_ofRing sound, stands.held, stands.used, Option.map_some]
    rfl
  | peekChar =>
    refine ⟨r, ?_, stands.same⟩
    simp only [Cbuf.call, peekChar_ofRing sound, stands.held, Option.map_some]
    rfl
  | peek size =>
    refine ⟨r, ?_, stands.same⟩
    simp only [Cbuf.call, peek_ofRing sound, stands.held, Option.map_some]
    rfl
  | remove size =>
    have used := stands.used
    by_cases all : size ≥ r.used
    · refine ⟨⟨r.size, 0, 0, r.buffer⟩, ?_, ?_⟩
      · simp only [Cbuf.call, remove_ofRing sound, if_pos all, Fifo.call, Fifo.answer]
        rw [Nat.sub_eq_zero_of_le (by omega)]
        rfl
      · have whole : min size f.held.length = f.held.length := by omega
        have flushed := stands.flush
        rw [← whole] at flushed
        exact flushed
    · have part : min size f.held.length = size := by omega
      refine ⟨r.advance size, ?_, ?_⟩
      · have removed := remove_ofRing sound size
        rw [if_neg all, used] at removed
        simp only [Cbuf.call, removed, Fifo.call, Fifo.answer]
      · have removed := stands.advance (stands.takes_le size)
        rw [part] at removed
        have takes : Fifo.takes (.remove size) f = size := part
        simp only [Fifo.call, takes]
        exact removed
  | flush => exact ⟨⟨r.size, 0, 0, r.buffer⟩, rfl, stands.flush⟩
  | resize granted newSize => exact stands.resize granted newSize
  | resizeAdd granted addSize =>
    show ∃ r', ((ofRing r).resize granted ((r.size + addSize) % 2 ^ 32)).map
        (fun a => (Answer.count a.1, a.2)) =
          some (.count (f.resized granted ((f.size + addSize) % 2 ^ 32)), ofRing r') ∧
      Stands r' ⟨f.resized granted ((f.size + addSize) % 2 ^ 32), f.held.drop 0 ++ []⟩
    rw [stands.size]
    exact stands.resize granted _

/-- A run of calls answers as the queue does. -/
theorem calls (stands : Stands r f) (requests : List Call) :
    ∃ r', Cbuf.calls requests (ofRing r) =
        some ((Runs.run Fifo.call requests f).1, ofRing r') ∧
      Stands r' (Runs.after Fifo.call requests f) := by
  induction requests generalizing r f with
  | nil => exact ⟨r, rfl, stands⟩
  | cons request rest ih =>
    obtain ⟨r', first, stands'⟩ := stands.call request
    obtain ⟨last, others, ends⟩ := ih stands'
    refine ⟨last, ?_, ends⟩
    show (Cbuf.call request (ofRing r) >>= _) = _
    rw [first]
    show (Cbuf.calls rest (ofRing r') >>= _) = _
    rw [others]
    rfl

end Stands

theorem stands_construct {size : Nat} (positive : 1 ≤ size) (memory : Nat → UInt8) :
    ∃ r, construct size memory = ofRing r ∧ Stands r ⟨size, []⟩ :=
  ⟨⟨size, 0, 0, memory⟩, rfl, ⟨positive, positive⟩, rfl, rfl⟩

/-! ## Blocks and single bytes -/

theorem calls_cons (request : Call) (rest : List Call) (b : Cbuf) :
    calls (request :: rest) b = (call request b).bind fun first =>
      (calls rest first.2).bind fun others => some (first.1 :: others.1, others.2) := rfl

theorem calls_writeChar {r : Lib.Ring UInt8} (sound : r.Sound) (bytes : List UInt8)
    (room : r.used + bytes.length < r.size) :
    calls (bytes.map .writeChar) (ofRing r) =
      some (List.replicate bytes.length (.count 1), ofRing (r.pushAll bytes)) := by
  induction bytes generalizing r with
  | nil => rfl
  | cons c rest ih =>
    rw [List.length_cons] at room
    have fits : r.used + 1 < r.size := by omega
    have first : call (.writeChar c) (ofRing r) = some (.count 1, ofRing (r.push c)) := by
      rw [call, writeChar_ofRing sound, if_neg (by omega)]
      rfl
    have others := ih (sound.push c) (by rw [sound.used_push fits, Ring.push_size]; omega)
    rw [List.map_cons, calls_cons, first]
    show ((calls (rest.map .writeChar) (ofRing (r.push c))).bind _) = _
    rw [others]
    rfl

theorem calls_readChar {r : Lib.Ring UInt8} (sound : r.Sound) (n : Nat) (held : n ≤ r.used) :
    calls (List.replicate n .readChar) (ofRing r) =
      some ((r.contents.take n).map fun c => .char (some c), ofRing (r.advance n)) := by
  induction n generalizing r with
  | zero => rw [sound.advance_zero]; rfl
  | succ n ih =>
    have first : call .readChar (ofRing r) =
        some (.char (some (r.buffer r.rpos)), ofRing (r.advance 1)) := by
      rw [call, readChar_ofRing sound, sound.head_eq (by omega), Nat.min_eq_left (by omega)]
      rfl
    have others := ih (sound.advance 1) (by rw [sound.used_advance (by omega)]; omega)
    rw [sound.contents_advance (by omega), Ring.advance_advance, Nat.add_comm 1] at others
    rw [List.replicate_succ, calls_cons, first]
    show ((calls (List.replicate n .readChar) (ofRing (r.advance 1))).bind _) = _
    rw [others, sound.head_eq (by omega)]
    rfl

/-- Block operations move as many bytes as they can, as that many single operations do. -/
structure BlocksAsSingles (b : Cbuf) : Prop where
  write : ∀ src, ∃ b', b.write src = some (min src.length b.room, b') ∧
    calls ((src.take (min src.length b.room)).map .writeChar) b =
      some (List.replicate (min src.length b.room) (.count 1), b')
  read : ∀ n, ∃ bytes b', b.read n = some (bytes, b') ∧ bytes.length = min n b.available ∧
    calls (List.replicate (min n b.available) .readChar) b =
      some (bytes.map fun c => .char (some c), b')
  peek : ∀ n, ∃ bytes b', b.peek n = some bytes ∧ bytes.length = min n b.available ∧
    calls (List.replicate (min n b.available) .readChar) b =
      some (bytes.map fun c => .char (some c), b')
  remove : ∀ n, ∃ answers b', calls (List.replicate (min n b.available) .readChar) b =
      some (answers, b') ∧ (b.remove n).1 = b'.available ∧
    (b.remove n).2.contents = b'.contents ∧ (b.remove n).2._size = b'._size ∧
    (n < b.available → (b.remove n).2 = b')

/-- A resize changes nothing, or changes the size and keeps all bytes. -/
def ResizesSafely (b : Cbuf) : Prop :=
  ∀ granted newSize, ∃ b', b.resize granted newSize = some (b'._size, b') ∧
    (b' = b ∨ b'._size = newSize ∧ b'.contents = b.contents)

theorem blocksAsSingles {r : Lib.Ring UInt8} (sound : r.Sound) : BlocksAsSingles (ofRing r) := by
  have few := sound.used_lt
  have available := available_ofRing sound
  -- What a copy of at most `n` bytes takes, and the reads of single bytes that take the same.
  have part : ∀ n, r.contents.take (min n r.used) = r.contents.take n := fun n => by
    rw [← r.length_contents, ← List.take_eq_take_min]
  have length : ∀ n, (r.contents.take n).length = min n r.used := fun n => by
    rw [List.length_take, r.length_contents]
  have singles : ∀ n, calls (List.replicate (min n (ofRing r).available) .readChar) (ofRing r) =
      some ((r.contents.take n).map fun c => .char (some c), ofRing (r.advance (min n r.used))) :=
    fun n => by
      rw [available, calls_readChar sound _ (Nat.min_le_right _ _), part]
  constructor
  case write =>
    intro src
    rw [room_ofRing sound]
    have taken : (src.take (min src.length (r.size - 1 - r.used))).length =
        min src.length (r.size - 1 - r.used) := by
      rw [List.length_take]
      omega
    have stored := calls_writeChar sound (src.take (min src.length (r.size - 1 - r.used)))
      (by rw [taken]; omega)
    rw [taken] at stored
    refine ⟨_, ?_, stored⟩
    rw [write_ofRing sound, Nat.min_comm, ← List.take_eq_take_min]
  case read =>
    intro n
    exact ⟨_, _, read_ofRing sound n, (length n).trans (by rw [available]), singles n⟩
  case peek =>
    intro n
    exact ⟨_, _, peek_ofRing sound n, (length n).trans (by rw [available]), singles n⟩
  case remove =>
    intro n
    refine ⟨_, _, singles n, ?_⟩
    rw [remove_ofRing sound, available_ofRing (sound.advance _),
      sound.used_advance (Nat.min_le_right _ _), available]
    by_cases all : n ≥ r.used
    · have whole : min n r.used = r.used := Nat.min_eq_right all
      rw [if_pos all, whole]
      refine ⟨(Nat.sub_self _).symm, ?_, rfl, fun less => absurd all (Nat.not_le_of_lt less)⟩
      rw [contents_ofRing, sound.contents_advance (Nat.le_refl _), ← r.length_contents,
        List.drop_length]
      rfl
    · have part' : min n r.used = n := Nat.min_eq_left (by omega)
      rw [if_neg all, part']
      exact ⟨rfl, rfl, rfl, fun _ => rfl⟩

theorem resizesSafely {r : Lib.Ring UInt8} (sound : r.Sound) : ResizesSafely (ofRing r) := by
  intro granted newSize
  rw [resize_ofRing sound]
  split
  · exact ⟨ofRing r, rfl, .inl rfl⟩
  · rename_i applies
    have larger : r.used < newSize := by
      by_contra small
      exact applies (.inl (Nat.le_of_not_lt small))
    exact ⟨ofRing ⟨newSize, 0, r.used, fun i => r.contents.getD i 0⟩, rfl,
      .inr ⟨rfl, (sound_moved newSize larger).2⟩⟩

/-- After any run of calls the pointers are inside the allocation, the answers are those of the
queue, and every byte accepted has been taken, in order, or is still held. -/
theorem cbuf_is_bounded_fifo (size : Nat) (positive : 1 ≤ size) (memory : Nat → UInt8)
    (requests : List Call) :
    ∃ answers b, calls requests (construct size memory) = some (answers, b) ∧
      (b._bufend = b._size ∧ b._begin < b._size ∧ b._end < b._size) ∧
      b.available + b.room = b._size - 1 ∧
      answers = (Runs.run Fifo.call requests ⟨size, []⟩).1 ∧
      Fifo.givenBy requests ⟨size, []⟩ = Fifo.takenBy requests ⟨size, []⟩ ++ b.contents ∧
      BlocksAsSingles b ∧ ResizesSafely b := by
  obtain ⟨r, initial, stands⟩ := stands_construct positive memory
  obtain ⟨r', run, stands'⟩ := stands.calls requests
  have sound := stands'.sound
  have few := sound.used_lt
  refine ⟨_, ofRing r', initial ▸ run, ⟨rfl, sound.rpos_lt, sound.wpos_lt⟩, ?_, rfl, ?_,
    blocksAsSingles sound, resizesSafely sound⟩
  · rw [available_ofRing sound, room_ofRing sound]
    show _ = r'.size - 1
    omega
  · rw [contents_ofRing, stands'.held, ← Fifo.conserves_run]
    rfl

/-- A buffer of three bytes: the third byte of a block is refused, and the next one wraps. -/
theorem cbuf_of_three_bytes :
    ∃ answers b, calls [.write [1, 2, 3], .readChar, .writeChar 4, .resize true 9, .read 5]
        (construct 3 fun _ => 0) = some (answers, b) ∧
      (b._bufend = b._size ∧ b._begin < b._size ∧ b._end < b._size) ∧
      b.available + b.room = b._size - 1 ∧
      answers = [.count 2, .char (some 1), .count 1, .count 9, .bytes [2, 4]] ∧
      [1, 2, 4] = [1, 2, 4] ++ b.contents ∧ BlocksAsSingles b ∧ ResizesSafely b :=
  cbuf_is_bounded_fifo 3 (by decide) (fun _ => 0)
    [.write [1, 2, 3], .readChar, .writeChar 4, .resize true 9, .read 5]

end Esp8266.Source.Cbuf
