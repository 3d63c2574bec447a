import Esp8266.Lib.Runs
import Esp8266.Source.CircularQueue

/-!
# `circular_queue` with its two sides running at once

The queue stands for a list with a limit on its length. A call of one side takes effect between
its first load and its last store, whatever the other side does meanwhile: what was granted when
it found room is appended by its store, and what was held when it looked is still there when it
reads. Hence no order of loads and stores loses, doubles or overtakes an element.
-/
set_option autoImplicit false

namespace Esp8266.Source.CircularQueue
open Esp8266.Lib Esp8266.Lib.Word32

variable {α : Type*}

/-! ## The queue that both sides see -/

/-- A call of the side that pushes: what it asks for, and what it was granted. -/
inductive Pushing (α : Type*) where
  | idle
  | asked (vals : List α)
  | granted (vals : List α)

/-- A call of the side that pops, with the number of elements it is about. -/
inductive Popping where
  | idle
  | asked
  | taking (n : Nat)
  | looking
  | visiting (n : Nat)
  | giving (n : Nat)
  | dropping (n : Nat)

structure Fifo (α : Type*) where
  held : List α
  pushing : Pushing α
  popping : Popping

/-- What a queue for `capacity` elements may answer. A call that begins while its side is within
another one is not made. -/
inductive Fifo.Step (capacity : Nat) : Action α → Reply α → Fifo α → Fifo α → Prop where
  | push (val : α) (held : List α) (popping : Popping) :
    Step capacity (.push val) .none ⟨held, .idle, popping⟩ ⟨held, .asked [val], popping⟩
  | pushN (vals : List α) (held : List α) (popping : Popping) :
    Step capacity (.pushN vals) .none ⟨held, .idle, popping⟩ ⟨held, .asked vals, popping⟩
  | refused {vals held : List α} {popping : Popping}
    (full : min vals.length (capacity - held.length) = 0) :
    Step capacity .produce (.pushed 0) ⟨held, .asked vals, popping⟩ ⟨held, .idle, popping⟩
  | granted {vals held : List α} {popping : Popping}
    (room : min vals.length (capacity - held.length) ≠ 0) :
    Step capacity .produce .none ⟨held, .asked vals, popping⟩
      ⟨held, .granted (vals.take (capacity - held.length)), popping⟩
  | pushed (vals held : List α) (popping : Popping) :
    Step capacity .produce (.pushed vals.length) ⟨held, .granted vals, popping⟩
      ⟨held ++ vals, .idle, popping⟩
  | pop (held : List α) (pushing : Pushing α) :
    Step capacity .pop .none ⟨held, pushing, .idle⟩ ⟨held, pushing, .asked⟩
  | empty (pushing : Pushing α) :
    Step capacity .consume (.popped []) ⟨[], pushing, .asked⟩ ⟨[], pushing, .idle⟩
  | filled {held : List α} {pushing : Pushing α} (some : held ≠ []) :
    Step capacity .consume .none ⟨held, pushing, .asked⟩ ⟨held, pushing, .taking 1⟩
  | popN (size : Nat) (held : List α) (pushing : Pushing α) :
    Step capacity (.popN size) .none ⟨held, pushing, .idle⟩
      ⟨held, pushing, .taking (min size held.length)⟩
  | popped {n : Nat} {held : List α} {pushing : Pushing α} (few : n ≤ held.length) :
    Step capacity .consume (.popped (held.take n)) ⟨held, pushing, .taking n⟩
      ⟨held.drop n, pushing, .idle⟩
  | forEach (held : List α) (pushing : Pushing α) :
    Step capacity .forEach .none ⟨held, pushing, .idle⟩ ⟨held, pushing, .looking⟩
  | looked (held : List α) (pushing : Pushing α) :
    Step capacity .consume .none ⟨held, pushing, .looking⟩ ⟨held, pushing, .visiting held.length⟩
  | item (n : Nat) (val : α) (held : List α) (pushing : Pushing α) :
    Step capacity .consume (.item val) ⟨val :: held, pushing, .visiting (n + 1)⟩
      ⟨val :: held, pushing, .giving n⟩
  | given (n : Nat) (val : α) (held : List α) (pushing : Pushing α) :
    Step capacity .consume .none ⟨val :: held, pushing, .giving n⟩ ⟨held, pushing, .visiting n⟩
  | visited (held : List α) (pushing : Pushing α) :
    Step capacity .consume .done ⟨held, pushing, .visiting 0⟩ ⟨held, pushing, .idle⟩
  | flush (held : List α) (pushing : Pushing α) :
    Step capacity .flush .none ⟨held, pushing, .idle⟩ ⟨held, pushing, .dropping held.length⟩
  | flushed {n : Nat} {held : List α} {pushing : Pushing α} (few : n ≤ held.length) :
    Step capacity .consume .done ⟨held, pushing, .dropping n⟩ ⟨held.drop n, pushing, .idle⟩
  | produceWithin (f : Fifo α) (between : ∀ vals, f.pushing ≠ .asked vals) :
    Step capacity .produce .none f f
  | pushWithin {val : α} {f : Fifo α} (busy : f.pushing ≠ .idle) :
    Step capacity (.push val) .none f f
  | pushNWithin {vals : List α} {f : Fifo α} (busy : f.pushing ≠ .idle) :
    Step capacity (.pushN vals) .none f f
  | consumeWithin {f : Fifo α} (between : f.popping = .idle ∨ ∃ n, f.popping = .taking n) :
    Step capacity .consume .none f f
  | popWithin {f : Fifo α} (busy : f.popping ≠ .idle) : Step capacity .pop .none f f
  | popNWithin {size : Nat} {f : Fifo α} (busy : f.popping ≠ .idle) :
    Step capacity (.popN size) .none f f
  | forEachWithin {f : Fifo α} (busy : f.popping ≠ .idle) : Step capacity .forEach .none f f
  | flushWithin {f : Fifo α} (busy : f.popping ≠ .idle) : Step capacity .flush .none f f

/-! ## The queue as a ring -/

def ring (q : CircularQueue α) : Lib.Ring α := ⟨q.bufSize, q.outPos, q.inPos, q.buffer⟩

def contents (q : CircularQueue α) : List α := q.ring.contents

theorem length_contents (q : CircularQueue α) :
    q.contents.length = between q.bufSize q.inPos q.outPos := q.ring.length_contents

theorem between_slots {bufSize outPos n : Nat} (inside : outPos < bufSize) (few : n < bufSize) :
    between bufSize ((outPos + n) % bufSize) outPos = n := by
  unfold between
  rw [Ring.wrap (by omega)]
  split <;> split <;> omega

/-- Two copies, of which the second begins at the start of the array. -/
theorem two_copies {bufSize pos first second : Nat} (straight : pos + first ≤ bufSize)
    (start : second = 0 ∨ pos + first = bufSize ∧ second ≤ bufSize) :
    (List.range first).map (pos + ·) ++ List.range second =
      Ring.slots bufSize pos (first + second) := by
  rw [Ring.slots_add, Ring.slots_straight straight]
  rcases start with none | ⟨full, round⟩
  · simp [none, Ring.slots]
  · rw [full, Nat.mod_self, Ring.slots_straight (by omega)]
    simp

/-- The two copies of `pop_n` are one round over the cells. -/
theorem popCells_eq {bufSize outPos n : Nat} (inside : outPos < bufSize) (few : n < bufSize) :
    popCells bufSize outPos n = Ring.slots bufSize outPos n := by
  have parts := @two_copies bufSize outPos (min n (bufSize - outPos))
    (n - min n (bufSize - outPos)) (by omega) (by omega)
  rwa [Nat.add_sub_cancel' (Nat.min_le_left _ _)] at parts

/-- How many values each copy of `push_n` takes. -/
theorem push_counts {bufSize inPos outPos : Nat} (size : Nat) (inPos_lt : inPos < bufSize)
    (outPos_lt : outPos < bufSize) (short : bufSize < 2 ^ 32) :
    let first := min size (if inPos < outPos then outPos - 1 - inPos
      else if outPos = 0 then bufSize - 1 - inPos else bufSize - inPos)
    let second := min (size - first)
      (if 1 < outPos then sub32 (sub32 outPos ((inPos + first) % bufSize)) 1 else 0)
    first + second = min size (bufSize - 1 - between bufSize inPos outPos) ∧
      inPos + first ≤ bufSize ∧ (second = 0 ∨ inPos + first = bufSize ∧ second < bufSize) := by
  intro first second
  by_cases before : inPos < outPos
  · have first_eq : first = min size (outPos - 1 - inPos) := by simp only [first, if_pos before]
    have none : second = 0 := by
      by_cases fits : size ≤ outPos - 1 - inPos
      · exact Nat.min_eq_zero_iff.2 (Or.inl (by omega))
      · have next : (inPos + first) % bufSize = outPos - 1 := by
          rw [Nat.mod_eq_of_lt (by omega)]
          omega
        have one : sub32 outPos (outPos - 1) = 1 := by
          rw [sub32_of_le (Nat.sub_le _ _) (by omega)]
          omega
        apply Nat.min_eq_zero_iff.2
        right
        rw [next, one, sub32_self (by decide), ite_self]
    rw [between, if_pos before]
    omega
  · by_cases low : outPos = 0
    · have first_eq : first = min size (bufSize - 1 - inPos) := by
        simp only [first, if_neg before, if_pos low]
      have none : second = 0 := by
        apply Nat.min_eq_zero_iff.2
        right
        exact if_neg (by omega)
      rw [between, if_neg before]
      omega
    · have first_eq : first = min size (bufSize - inPos) := by
        simp only [first, if_neg before, if_neg low]
      rw [between, if_neg before]
      by_cases fits : size ≤ bufSize - inPos
      · have none : second = 0 := Nat.min_eq_zero_iff.2 (Or.inl (by omega))
        omega
      · have next : (inPos + first) % bufSize = 0 := by
          rw [first_eq, Nat.min_eq_right (by omega), Nat.add_sub_cancel' (by omega), Nat.mod_self]
        have room : (if 1 < outPos then sub32 (sub32 outPos 0) 1 else 0) = outPos - 1 := by
          split
          · rw [sub32_of_le (Nat.zero_le _) (by omega), sub32_of_le (by omega) (by omega)]
            rfl
          · omega
        have second_eq : second = min (size - first) (outPos - 1) := by
          simp only [second, next, room]
        omega

/-- The two copies of `push_n` are one round over the free cells, as many as there are. -/
theorem pushCells_eq {bufSize inPos outPos : Nat} (vals : List α) (inPos_lt : inPos < bufSize)
    (outPos_lt : outPos < bufSize) (short : bufSize < 2 ^ 32) :
    let count := min vals.length (bufSize - 1 - between bufSize inPos outPos)
    pushCells bufSize inPos outPos vals =
      ((Ring.slots bufSize inPos count).zip vals, (inPos + count) % bufSize, count) := by
  have copies : ∀ first second count, first + second = count ∧ inPos + first ≤ bufSize ∧
      (second = 0 ∨ inPos + first = bufSize ∧ second < bufSize) →
      (((List.range first).map (inPos + ·) ++ List.range second).zip vals,
        (inPos + first) % bufSize + second, first + second) =
      ((Ring.slots bufSize inPos count).zip vals, (inPos + count) % bufSize, count) := by
    rintro first second _ ⟨rfl, straight, start⟩
    have next : (inPos + first) % bufSize + second = (inPos + (first + second)) % bufSize := by
      rcases start with rfl | ⟨full, round⟩
      · rfl
      · rw [← Nat.add_assoc, full, Nat.mod_self, Nat.zero_add, Nat.add_mod_left,
          Nat.mod_eq_of_lt round]
    rw [two_copies straight (start.imp_right (And.imp_right Nat.le_of_lt)), next]
  exact copies _ _ _ (push_counts vals.length inPos_lt outPos_lt short)

/-! ## Whole calls -/

variable {q : CircularQueue α}

@[simp] theorem setPushpeek_buffer (q : CircularQueue α) (val : α) :
    (q.setPushpeek val).buffer = Function.update q.buffer q.inPos val := rfl

theorem available_eq (q : CircularQueue α) : q.available = q.contents.length :=
  q.length_contents.symm

theorem used_eq_zero_iff (sound : q.ring.Sound) : q.ring.used = 0 ↔ q.outPos = q.inPos := by
  have inPos_lt : q.inPos < q.bufSize := sound.wpos_lt
  have outPos_lt : q.outPos < q.bufSize := sound.rpos_lt
  unfold Ring.used ring
  dsimp only
  split <;> omega

theorem contents_eq_nil_iff (sound : q.ring.Sound) : q.contents = [] ↔ q.outPos = q.inPos := by
  rw [← used_eq_zero_iff sound, ← List.length_eq_zero_iff, contents, Ring.length_contents]

/-- The oldest element is at the read position. -/
theorem contents_head (sound : q.ring.Sound) {val : α} {rest : List α}
    (held : q.contents = val :: rest) : q.ring.used ≠ 0 ∧ q.buffer q.outPos = val := by
  have used : q.ring.used ≠ 0 := by
    rw [Ne, used_eq_zero_iff sound, ← contents_eq_nil_iff sound, held]
    exact List.cons_ne_nil val rest
  have head : q.contents = q.buffer q.outPos :: q.contents.tail := sound.head_eq used
  rw [held] at head
  exact ⟨used, (List.cons.inj head).1.symm⟩

theorem full_iff_length (sound : q.ring.Sound) :
    (q.inPos + 1) % q.bufSize = q.outPos ↔ q.contents.length + 1 = q.bufSize := by
  rw [contents, Ring.length_contents]
  exact sound.full_iff

/-- Storing an element into a queue that is not full. -/
theorem push_room (sound : q.ring.Sound) (room : q.contents.length + 1 < q.bufSize) (val : α) :
    (q.push val).1 = true ∧ (q.push val).2.bufSize = q.bufSize ∧ (q.push val).2.ring.Sound ∧
      (q.push val).2.contents = q.contents ++ [val] := by
  have some : ¬(q.inPos + 1) % q.bufSize = q.outPos := by
    rw [full_iff_length sound]
    omega
  have pushed : q.push val = (true, { q with
      buffer := Function.update q.buffer q.inPos val
      inPos := (q.inPos + 1) % q.bufSize }) := by simp [push, some]
  have stored : Function.update q.buffer q.inPos val =
      fun i => if i = q.inPos then val else q.buffer i := by
    funext i
    exact Function.update_apply q.buffer q.inPos val i
  have ring : (q.push val).2.ring = q.ring.push val := by
    rw [pushed, stored]
    rfl
  rw [contents, Ring.length_contents] at room
  refine ⟨by rw [pushed], by rw [pushed], ring ▸ sound.push val, ?_⟩
  rw [contents, ring]
  exact sound.contents_push room val

theorem push_full (sound : q.ring.Sound) (full : q.contents.length + 1 = q.bufSize) (val : α) :
    q.push val = (false, q) := by
  simp [push, (full_iff_length sound).2 full]

theorem push_sound (sound : q.ring.Sound) (val : α) : (q.push val).2.ring.Sound := by
  by_cases room : q.contents.length + 1 < q.bufSize
  · exact (push_room sound room val).2.2.1
  · have within : q.ring.used < q.bufSize := sound.used_lt
    rw [push_full sound]
    · exact sound
    · rw [contents, Ring.length_contents] at room ⊢
      omega

theorem pop_held (sound : q.ring.Sound) {val : α} {rest : List α}
    (held : q.contents = val :: rest) :
    (q.pop).1 = some val ∧ (q.pop).2.bufSize = q.bufSize ∧ (q.pop).2.ring.Sound ∧
      (q.pop).2.contents = rest := by
  obtain ⟨used, rfl⟩ := contents_head sound held
  have apart : q.inPos ≠ q.outPos := fun same => used ((used_eq_zero_iff sound).2 same.symm)
  have popped : q.pop = (some (q.buffer q.outPos),
      { q with outPos := (q.outPos + 1) % q.bufSize }) := by simp [pop, apart]
  have dropped : contents (q.pop).2 = q.contents.drop 1 := by
    rw [popped]
    exact sound.contents_advance (show 1 ≤ q.ring.used by omega)
  rw [held] at dropped
  refine ⟨by rw [popped], by rw [popped], ?_, dropped⟩
  rw [popped]
  exact sound.advance 1

theorem popN_eq (sound : q.ring.Sound) (size : Nat) :
    (q.popN size).1 = q.contents.take size ∧ (q.popN size).2.bufSize = q.bufSize ∧
      (q.popN size).2.ring.Sound ∧ (q.popN size).2.contents = q.contents.drop size := by
  have few := sound.used_lt
  have length : q.contents.length = q.ring.used := q.ring.length_contents
  have outPos_lt : q.outPos < q.bufSize := sound.rpos_lt
  have available : q.available = q.ring.used := by rw [available_eq, length]
  by_cases none : min size q.available = 0
  · have popped : q.popN size = ([], q) := by simp only [popN, none, if_true]
    rw [popped]
    have taken : size = 0 ∨ q.contents = [] := by
      rw [available, ← length] at none
      exact (Nat.min_eq_zero_iff.1 none).imp_right List.length_eq_zero_iff.1
    rcases taken with rfl | empty
    · exact ⟨by simp, rfl, sound, by simp⟩
    · exact ⟨by simp [empty], rfl, sound, by simp [empty]⟩
  · have held : min size q.available ≤ q.ring.used := by omega
    have popped : q.popN size = ((popCells q.bufSize q.outPos (min size q.available)).map q.buffer,
        { q with outPos := (q.outPos + min size q.available) % q.bufSize }) := by
      simp only [popN, none, if_false]
    have short : min size q.available < q.bufSize := by
      have few : q.ring.used < q.bufSize := few
      omega
    have taken := Ring.take_contents held
    have dropped := sound.contents_advance held
    have same : ∀ xs : List α, xs.length = q.ring.used →
        xs.take (min size q.available) = xs.take size ∧
        xs.drop (min size q.available) = xs.drop size := by
      intro xs many
      rw [available, ← many]
      constructor
      · simp
      · by_cases all : size ≤ xs.length
        · rw [Nat.min_eq_left all]
        · rw [Nat.min_eq_right (by omega), List.drop_length, List.drop_of_length_le (by omega)]
    rw [popped, popCells_eq outPos_lt short]
    refine ⟨?_, rfl, sound.advance _, ?_⟩
    · exact taken.symm.trans (same q.contents length).1
    · exact dropped.trans (same q.contents length).2

/-- A `pop_n` that takes nothing changes nothing. -/
theorem popN_none {size : Nat} (none : q.contents.take size = []) :
    q.popN size = ([], q) := by
  have zero : min size q.available = 0 := by
    rw [available_eq, ← List.length_take, none, List.length_nil]
  simp only [popN, zero, if_true]

/-- `pop_n` moves the read position by what it takes. -/
theorem popN_snd (sound : q.ring.Sound) {size : Nat} (held : size ≤ q.ring.used) :
    (q.popN size).2 = { q with outPos := (q.outPos + size) % q.bufSize } := by
  have available : min size q.available = size := by
    rw [available_eq, contents, Ring.length_contents]
    exact Nat.min_eq_left held
  unfold popN
  rw [available]
  by_cases none : size = 0
  · have same : (q.outPos + 0) % q.bufSize = q.outPos :=
      Nat.mod_eq_of_lt (show q.outPos < q.bufSize from sound.rpos_lt)
    simp only [none, if_true, same]
  · simp only [none, if_false]

theorem pop_snd (sound : q.ring.Sound) (some : q.ring.used ≠ 0) :
    (q.pop).2 = { q with outPos := (q.outPos + 1) % q.bufSize } := by
  have apart : q.inPos ≠ q.outPos := fun same => some ((used_eq_zero_iff sound).2 same.symm)
  simp [pop, apart]

@[simp] theorem release_bufSize (q : CircularQueue α) : (q.release).2.bufSize = q.bufSize := by
  dsimp only [release]
  split <;> rfl

theorem release_snd (sound : q.ring.Sound) (room : q.ring.used + 1 < q.bufSize) :
    (q.release).2 = { q with inPos := (q.inPos + 1) % q.bufSize } := by
  have some : ¬(q.inPos + 1) % q.bufSize = q.outPos := by
    rw [full_iff_length sound, contents, Ring.length_contents]
    omega
  simp [release, some]

theorem flush_eq (sound : q.ring.Sound) : q.flush.ring.Sound ∧ q.flush.contents = [] := by
  refine ⟨⟨sound.wpos_lt, sound.wpos_lt⟩, ?_⟩
  simp [flush, contents, ring, Ring.contents, Ring.used]

theorem peek_held (sound : q.ring.Sound) {val : α} {rest : List α}
    (held : q.contents = val :: rest) : q.peek = val := (contents_head sound held).2

theorem drained (same : q.outPos = q.inPos) : { q with outPos := q.inPos } = q := by
  obtain ⟨bufSize, buffer, inPos, outPos⟩ := q
  cases same
  rfl

theorem forEachLoop_eq (fuel : Nat) :
    ∀ q : CircularQueue α, q.ring.Sound → q.ring.used ≤ fuel →
      forEachLoop q.inPos fuel q = (q.contents, { q with outPos := q.inPos }) := by
  induction fuel with
  | zero =>
    intro q sound none
    have same := (used_eq_zero_iff sound).1 (Nat.le_zero.1 none)
    rw [forEachLoop, (contents_eq_nil_iff sound).2 same, drained same]
  | succ fuel ih =>
    intro q sound few
    rw [forEachLoop]
    split
    · rename_i apart
      have used := mt (used_eq_zero_iff sound).1 apart
      have held : q.contents = q.buffer q.outPos :: q.contents.tail := sound.head_eq used
      have fewer := sound.used_advance (show 1 ≤ q.ring.used by omega)
      have rest : contents { q with outPos := (q.outPos + 1) % q.bufSize } = q.contents.tail := by
        rw [← List.drop_one]
        exact sound.contents_advance (show 1 ≤ q.ring.used by omega)
      have later := ih { q with outPos := (q.outPos + 1) % q.bufSize } (sound.advance 1) (by
        show (q.ring.advance 1).used ≤ fuel
        omega)
      dsimp only at later
      rw [later, rest, held, List.tail_cons]
    · rename_i same
      have same : q.outPos = q.inPos := not_not.1 same
      rw [(contents_eq_nil_iff sound).2 same, drained same]

/-- `for_each` hands out all that is held. -/
theorem forEach_eq (sound : q.ring.Sound) :
    q.forEach = (q.contents, { q with outPos := q.inPos }) :=
  forEachLoop_eq q.bufSize q sound (Nat.le_of_lt sound.used_lt)

/-! ## What each side is within -/

/-- The stores of `push_n` in order. -/
def store (cells : List (Nat × α)) (buffer : Nat → α) : Nat → α :=
  cells.foldl (fun buffer cell => Function.update buffer cell.1 cell.2) buffer

/-- A call that was granted elements has room for them behind those held, and its remaining stores
complete them there. -/
inductive Pushes (q : CircularQueue α) (held : List α) : Producer α → Pushing α → Prop where
  | idle : Pushes q held .idle .idle
  | push (val : α) : Pushes q held (.push val q.inPos) (.asked [val])
  | pushN (vals : List α) : Pushes q held (.pushN vals q.inPos) (.asked vals)
  | copying {cells : List (Nat × α)} {vals : List α}
    (room : held.length + vals.length < q.bufSize)
    (free : ∀ cell ∈ cells, cell.1 ∈ Ring.slots q.bufSize q.inPos vals.length)
    (completes : (Ring.slots q.bufSize q.inPos vals.length).map (store cells q.buffer) = vals) :
    Pushes q held (.copying cells ((q.inPos + vals.length) % q.bufSize) vals.length)
      (.granted vals)

/-- A call that is about `n` elements finds them held, and what it has yet to read completes
them. -/
inductive Pops (q : CircularQueue α) (held : List α) : Consumer α → Popping → Prop where
  | idle : Pops q held .idle .idle
  | pop : Pops q held (.pop q.outPos) .asked
  | popN {size n : Nat} (few : n ≤ held.length) :
    Pops q held (.popN size ((q.outPos + n) % q.bufSize)) (.taking (min size n))
  | sized {n : Nat} (few : n ≤ held.length) : Pops q held (.sized n) (.taking n)
  | reading {cells : List Nat} {vals : List α} {n : Nat} (few : n ≤ held.length)
    (inside : ∀ cell ∈ cells, cell ∈ Ring.slots q.bufSize q.outPos n)
    (completes : vals ++ cells.map q.buffer = held.take n) :
    Pops q held (.reading cells vals ((q.outPos + n) % q.bufSize)) (.taking n)
  | forEach : Pops q held (.forEach q.outPos) .looking
  | each {n : Nat} (few : n ≤ held.length) :
    Pops q held (.each q.outPos ((q.outPos + n) % q.bufSize)) (.visiting n)
  | given {n : Nat} (few : n < held.length) :
    Pops q held (.given q.outPos ((q.outPos + (n + 1)) % q.bufSize)) (.giving n)
  | flush {n : Nat} (few : n ≤ held.length) :
    Pops q held (.flush ((q.outPos + n) % q.bufSize)) (.dropping n)

/-- The queue with both sides, and what it stands for. -/
structure Related (capacity : Nat) (s : Sides α) (f : Fifo α) : Prop where
  size : s.queue.bufSize = capacity + 1
  sound : s.queue.ring.Sound
  held : f.held = s.queue.contents
  pushes : Pushes s.queue f.held s.producer f.pushing
  pops : Pops s.queue f.held s.consumer f.popping

variable {held : List α}

/-- A side that pushes does not see that the other one gives up cells. -/
theorem Pushes.advance {producer : Producer α} {pushing : Pushing α}
    (pushes : Pushes q held producer pushing) (outPos n : Nat) :
    Pushes { q with outPos } (held.drop n) producer pushing := by
  cases pushes with
  | idle => exact .idle
  | push val => exact .push val
  | pushN vals => exact .pushN vals
  | copying room free completes =>
    refine Pushes.copying ?_ free completes
    rw [List.length_drop]
    exact Nat.lt_of_le_of_lt (Nat.add_le_add_right (Nat.sub_le _ _) _) room

/-- A side that pops does not see a store outside of the cells held. -/
theorem Pops.update {consumer : Consumer α} {popping : Popping}
    (pops : Pops q held consumer popping) {i : Nat}
    (free : i ∉ Ring.slots q.bufSize q.outPos held.length) (val : α) :
    Pops { q with buffer := Function.update q.buffer i val } held consumer popping := by
  cases pops with
  | idle => exact .idle
  | pop => exact .pop
  | popN few => exact .popN few
  | sized few => exact .sized few
  | reading few inside completes =>
    rename_i cells vals n
    refine Pops.reading few inside ?_
    have same : cells.map (Function.update q.buffer i val) = cells.map q.buffer := by
      apply List.map_congr_left
      intro cell member
      apply Function.update_of_ne
      rintro rfl
      apply free
      rw [show held.length = n + (held.length - n) by omega, Ring.slots_add]
      exact List.mem_append_left _ (inside cell member)
    exact (congrArg (vals ++ ·) same).trans completes
  | forEach => exact .forEach
  | each few => exact .each few
  | given few => exact .given few
  | flush few => exact .flush few

/-- A side that pops does not see that the other one appends elements. -/
theorem Pops.extend {consumer : Consumer α} {popping : Popping}
    (pops : Pops q held consumer popping) (inPos : Nat) (vals : List α) :
    Pops { q with inPos } (held ++ vals) consumer popping := by
  have more : ∀ {n}, n ≤ held.length → n ≤ (held ++ vals).length := by
    intro n few
    rw [List.length_append]
    exact Nat.le_add_right_of_le few
  cases pops with
  | idle => exact .idle
  | pop => exact .pop
  | popN few => exact .popN (more few)
  | sized few => exact .sized (more few)
  | reading few inside completes =>
    refine Pops.reading (more few) inside ?_
    rw [List.take_append_of_le_length few]
    exact completes
  | forEach => exact .forEach
  | each few => exact .each (more few)
  | given few => exact .given (more few)
  | flush few => exact .flush (more few)

/-! ## Steps -/

theorem store_of_notMem {cells : List (Nat × α)} {i : Nat} (apart : ∀ cell ∈ cells, cell.1 ≠ i) :
    ∀ buffer : Nat → α, store cells buffer i = buffer i := by
  induction cells with
  | nil => intro buffer; rfl
  | cons cell cells ih =>
    intro buffer
    have other := apart cell List.mem_cons_self
    have rest := ih (fun c member => apart c (List.mem_cons_of_mem _ member))
    exact (rest _).trans (Function.update_of_ne (Ne.symm other) _ _)

/-- Stores to different cells are all there in the end. -/
theorem store_zip {cells : List Nat} (nodup : cells.Nodup) :
    ∀ (vals : List α) (buffer : Nat → α), cells.length = vals.length →
      cells.map (store (cells.zip vals) buffer) = vals := by
  induction cells with
  | nil => intro vals buffer same; exact (List.length_eq_zero_iff.1 same.symm).symm
  | cons i cells ih =>
    intro vals buffer same
    cases vals with
    | nil => cases same
    | cons val vals =>
      obtain ⟨fresh, nodup⟩ := List.nodup_cons.1 nodup
      have first : store (cells.zip vals) (Function.update buffer i val) i = val := by
        rw [store_of_notMem]
        · exact Function.update_self i val buffer
        · rintro ⟨j, x⟩ member rfl
          exact fresh (List.of_mem_zip member).1
      simp only [List.zip_cons_cons, List.map_cons]
      exact congrArg₂ List.cons first (ih nodup vals _ (Nat.succ.inj same))

/-- A call that has just been granted elements. -/
theorem Pushes.granted (inside : q.inPos < q.bufSize) {vals : List α}
    (room : held.length + vals.length < q.bufSize) :
    Pushes q held (.copying ((Ring.slots q.bufSize q.inPos vals.length).zip vals)
      ((q.inPos + vals.length) % q.bufSize) vals.length) (.granted vals) := by
  apply Pushes.copying room
  · rintro ⟨i, x⟩ member
    exact (List.of_mem_zip member).1
  · exact store_zip (Ring.nodup_slots inside (by omega)) vals _ (Ring.length_slots _ _ _)

/-- A call that has yet to read its first element. -/
theorem Pops.started {n : Nat} (few : n ≤ q.contents.length) :
    Pops q q.contents (.reading (Ring.slots q.bufSize q.outPos n) []
      ((q.outPos + n) % q.bufSize)) (.taking n) := by
  apply Pops.reading few (fun _ member => member)
  rw [contents, Ring.length_contents] at few
  exact (Ring.take_contents few).symm

variable {capacity : Nat} {producer producer' : Producer α} {consumer consumer' : Consumer α}
  {pushing pushing' : Pushing α} {popping popping' : Popping}

namespace Related

/-- The side that pushes goes on without a store to the queue. -/
theorem producer_moves (related : Related capacity ⟨q, producer, consumer⟩ ⟨held, pushing, popping⟩)
    (pushes : Pushes q held producer' pushing') :
    Related capacity ⟨q, producer', consumer⟩ ⟨held, pushing', popping⟩ :=
  ⟨related.size, related.sound, related.held, pushes, related.pops⟩

theorem consumer_moves (related : Related capacity ⟨q, producer, consumer⟩ ⟨held, pushing, popping⟩)
    (pops : Pops q held consumer' popping') :
    Related capacity ⟨q, producer, consumer'⟩ ⟨held, pushing, popping'⟩ :=
  ⟨related.size, related.sound, related.held, related.pushes, pops⟩

/-- The side that pops gives up the oldest elements. -/
theorem drops (related : Related capacity ⟨q, producer, consumer⟩ ⟨held, pushing, popping⟩)
    {n : Nat} (few : n ≤ held.length)
    (pops : Pops { q with outPos := (q.outPos + n) % q.bufSize } (held.drop n) consumer' popping') :
    Related capacity ⟨{ q with outPos := (q.outPos + n) % q.bufSize }, producer, consumer'⟩
      ⟨held.drop n, pushing, popping'⟩ := by
  obtain rfl : held = q.contents := related.held
  refine ⟨related.size, related.sound.advance n, ?_, related.pushes.advance _ n, pops⟩
  rw [contents, Ring.length_contents] at few
  exact (related.sound.contents_advance few).symm

theorem length_le (related : Related capacity ⟨q, producer, consumer⟩ ⟨held, pushing, popping⟩) :
    held.length ≤ capacity := by
  obtain rfl : held = q.contents := related.held
  have few : q.ring.used < q.bufSize := related.sound.used_lt
  rw [contents, Ring.length_contents]
  have size : q.bufSize = capacity + 1 := related.size
  omega

/-- A store of the side that pushes. -/
theorem stores {i next : Nat} {val : α} {cells : List (Nat × α)} {count : Nat}
    (related : Related capacity ⟨q, .copying ((i, val) :: cells) next count, consumer⟩
      ⟨held, pushing, popping⟩) :
    Related capacity ⟨{ q with buffer := Function.update q.buffer i val },
      .copying cells next count, consumer⟩ ⟨held, pushing, popping⟩ := by
  obtain ⟨size, sound, holds, pushes, pops⟩ := related
  obtain rfl : held = q.contents := holds
  change Pushes q q.contents (.copying ((i, val) :: cells) next count) pushing at pushes
  cases pushes with
  | copying room free completes =>
    rename_i vals
    have behind : i ∉ Ring.slots q.bufSize q.outPos q.ring.used := by
      intro member
      have room' : q.ring.used + vals.length ≤ q.bufSize := by
        rw [contents, Ring.length_contents] at room
        exact Nat.le_of_lt room
      have next : (q.outPos + q.ring.used) % q.bufSize = q.inPos := sound.wpos_eq
      have mine := free (i, val) List.mem_cons_self
      rw [← next] at mine
      exact Ring.slots_apart sound.rpos_lt room' member mine rfl
    refine ⟨size, ⟨sound.rpos_lt, sound.wpos_lt⟩, ?_, ?_, ?_⟩
    · exact (Ring.contents_update val behind).symm
    · exact .copying room (fun cell member => free cell (List.mem_cons_of_mem _ member)) completes
    · apply pops.update
      rwa [contents, Ring.length_contents]

/-- The last store of the side that pushes appends what it was granted. -/
theorem publishes {next count : Nat}
    (related : Related capacity ⟨q, .copying [] next count, consumer⟩ ⟨held, pushing, popping⟩) :
    ∃ vals, pushing = .granted vals ∧ count = vals.length ∧
      Related capacity ⟨{ q with inPos := next }, .idle, consumer⟩
        ⟨held ++ vals, .idle, popping⟩ := by
  obtain ⟨size, sound, holds, pushes, pops⟩ := related
  obtain rfl : held = q.contents := holds
  change Pushes q q.contents (.copying [] next count) pushing at pushes
  cases pushes with
  | copying room free completes =>
    rename_i vals
    rw [contents, Ring.length_contents] at room
    have stored : (Ring.slots q.bufSize q.inPos vals.length).map q.buffer = vals := completes
    refine ⟨vals, rfl, rfl, size, ⟨sound.rpos_lt, ?_⟩, ?_, .idle, pops.extend _ vals⟩
    · exact Nat.mod_lt _ (Nat.lt_of_le_of_lt (Nat.zero_le _) sound.rpos_lt)
    · have extended := sound.contents_extend room
      exact (extended.trans (congrArg (q.contents ++ ·) stored)).symm

/-- The number of free cells, which `push_n` computes from the two positions. -/
theorem free_eq (related : Related capacity ⟨q, producer, consumer⟩ ⟨held, pushing, popping⟩) :
    q.bufSize - 1 - between q.bufSize q.inPos q.outPos = capacity - held.length := by
  obtain rfl : held = q.contents := related.held
  have size : q.bufSize = capacity + 1 := related.size
  rw [length_contents]
  omega

/-- The test for a full queue. -/
theorem full_iff (related : Related capacity ⟨q, producer, consumer⟩ ⟨held, pushing, popping⟩) :
    (q.inPos + 1) % q.bufSize = q.outPos ↔ held.length = capacity := by
  obtain rfl : held = q.contents := related.held
  have size : q.bufSize = capacity + 1 := related.size
  rw [contents, Ring.length_contents]
  have full : (q.inPos + 1) % q.bufSize = q.outPos ↔ q.ring.used + 1 = q.bufSize :=
    related.sound.full_iff
  omega

/-- A step of the side that pushes. -/
theorem produce {s : Sides α} {f : Fifo α} (short : capacity + 1 < 2 ^ 32)
    (related : Related capacity s f) :
    ∃ f', Fifo.Step capacity .produce (act .produce s).1 f f' ∧
      Related capacity (act .produce s).2 f' := by
  obtain ⟨q, producer, consumer⟩ := s
  obtain ⟨held, pushing, popping⟩ := f
  have size : q.bufSize = capacity + 1 := related.size
  have inPos_lt : q.inPos < q.bufSize := related.sound.wpos_lt
  have outPos_lt : q.outPos < q.bufSize := related.sound.rpos_lt
  have within := related.length_le
  have pushes : Pushes q held producer pushing := related.pushes
  cases pushes with
  | idle => exact ⟨_, .produceWithin _ (by rintro vals ⟨⟩), related⟩
  | push val =>
    by_cases full : (q.inPos + 1) % q.bufSize = q.outPos
    · have stepped : act .produce ⟨q, .push val q.inPos, consumer⟩ =
          (.pushed 0, ⟨q, .idle, consumer⟩) := by simp [act, CircularQueue.produce, full]
      have none := related.full_iff.1 full
      rw [stepped]
      refine ⟨_, .refused ?_, related.producer_moves .idle⟩
      rw [none, Nat.sub_self, Nat.min_zero]
    · have stepped : act .produce ⟨q, .push val q.inPos, consumer⟩ =
          (.none, ⟨q, .copying [(q.inPos, val)] ((q.inPos + 1) % q.bufSize) 1, consumer⟩) := by
        simp [act, CircularQueue.produce, full]
      have some := mt related.full_iff.2 full
      have cell : Ring.slots q.bufSize q.inPos 1 = [q.inPos] := by
        simp [Ring.slots, Nat.mod_eq_of_lt inPos_lt]
      have room : held.length + [val].length < q.bufSize := by
        rw [List.length_singleton]
        omega
      have granted := Pushes.granted inPos_lt room
      rw [List.length_singleton, cell] at granted
      have all : [val].take (capacity - held.length) = [val] := by
        apply List.take_of_length_le
        rw [List.length_singleton]
        omega
      rw [stepped]
      refine ⟨_, .granted ?_, ?_⟩
      · rw [List.length_singleton]
        omega
      · rw [all]
        exact related.producer_moves granted
  | pushN vals =>
    have counted := pushCells_eq vals inPos_lt outPos_lt (by omega)
    dsimp only at counted
    rw [related.free_eq] at counted
    by_cases none : min vals.length (capacity - held.length) = 0
    · have stepped : act .produce ⟨q, .pushN vals q.inPos, consumer⟩ =
          (.pushed 0, ⟨q, .idle, consumer⟩) := by
        simp only [act, CircularQueue.produce, counted, none, if_true]
      rw [stepped]
      exact ⟨_, .refused none, related.producer_moves .idle⟩
    · have length : (vals.take (capacity - held.length)).length =
          min vals.length (capacity - held.length) := by rw [List.length_take, Nat.min_comm]
      have granted := @Pushes.granted α q held inPos_lt (vals.take (capacity - held.length))
        (by omega)
      have cells : ∀ slots : List Nat, slots.length = min vals.length (capacity - held.length) →
          slots.zip (vals.take (capacity - held.length)) = slots.zip vals := by
        intro slots many
        have parts : (slots ++ []).zip
            (vals.take (capacity - held.length) ++ vals.drop (capacity - held.length)) =
            slots.zip (vals.take (capacity - held.length)) ++ [].zip _ :=
          List.zip_append (by rw [many, length])
        rw [List.append_nil, List.take_append_drop, List.zip_nil_left, List.append_nil] at parts
        exact parts.symm
      rw [length, cells _ (Ring.length_slots _ _ _)] at granted
      have stepped : act .produce ⟨q, .pushN vals q.inPos, consumer⟩ =
          (.none, ⟨q, .copying ((Ring.slots q.bufSize q.inPos
            (min vals.length (capacity - held.length))).zip vals)
            ((q.inPos + min vals.length (capacity - held.length)) % q.bufSize)
            (min vals.length (capacity - held.length)), consumer⟩) := by
        simp only [act, CircularQueue.produce, counted, none, if_false]
      rw [stepped]
      exact ⟨_, .granted none, related.producer_moves granted⟩
  | copying room free completes =>
    rename_i cells vals
    cases cells with
    | cons cell cells =>
      obtain ⟨i, val⟩ := cell
      exact ⟨_, .produceWithin _ (by rintro vals ⟨⟩), related.stores⟩
    | nil =>
      obtain ⟨vals', same, count, published⟩ := related.publishes
      cases same
      exact ⟨_, .pushed _ _ _, published⟩

/-- A snapshot of the write position is as far from the read position as elements were held. -/
theorem snapshot (related : Related capacity ⟨q, producer, consumer⟩ ⟨held, pushing, popping⟩) :
    (q.outPos + held.length) % q.bufSize = q.inPos := by
  obtain rfl : held = q.contents := related.held
  rw [contents, Ring.length_contents]
  exact related.sound.wpos_eq

/-- The test for an empty queue, at a snapshot of the write position. -/
theorem reached_iff
    (related : Related capacity ⟨q, producer, consumer⟩ ⟨held, pushing, popping⟩) {n : Nat}
    (few : n ≤ held.length) : (q.outPos + n) % q.bufSize = q.outPos ↔ n = 0 := by
  have inside : q.outPos < q.bufSize := related.sound.rpos_lt
  have size : q.bufSize = capacity + 1 := related.size
  have within := related.length_le
  rw [Ring.wrap (by omega)]
  split <;> omega

/-- The oldest element is where the read position is. -/
theorem oldest (related : Related capacity ⟨q, producer, consumer⟩ ⟨held, pushing, popping⟩)
    (some : held ≠ []) : ∃ rest, held = q.buffer q.outPos :: rest := by
  obtain rfl : held = q.contents := related.held
  refine ⟨q.contents.tail, related.sound.head_eq ?_⟩
  rw [← Ring.length_contents]
  exact fun none => some (List.length_eq_zero_iff.1 none)

/-- A step of the side that pops. -/
theorem consume {s : Sides α} {f : Fifo α} (related : Related capacity s f) :
    ∃ f', Fifo.Step capacity .consume (act .consume s).1 f f' ∧
      Related capacity (act .consume s).2 f' := by
  obtain ⟨q, producer, consumer⟩ := s
  obtain ⟨held, pushing, popping⟩ := f
  have size : q.bufSize = capacity + 1 := related.size
  have outPos_lt : q.outPos < q.bufSize := related.sound.rpos_lt
  have within := related.length_le
  have holds : held = q.contents := related.held
  have behind := related.snapshot
  have pops : Pops q held consumer popping := related.pops
  cases pops with
  | idle => exact ⟨_, .consumeWithin (Or.inl rfl), related⟩
  | pop =>
    have empty : q.inPos = q.outPos ↔ held.length = 0 := by
      rw [← behind]
      exact related.reached_iff (Nat.le_refl _)
    by_cases none : q.inPos = q.outPos
    · have stepped : act .consume ⟨q, producer, .pop q.outPos⟩ =
          (.popped [], ⟨q, producer, .idle⟩) := by simp [act, CircularQueue.consume, none]
      obtain rfl := List.length_eq_zero_iff.1 (empty.1 none)
      rw [stepped]
      exact ⟨_, .empty _, related.consumer_moves .idle⟩
    · have stepped : act .consume ⟨q, producer, .pop q.outPos⟩ =
          (.none, ⟨q, producer, .reading [q.outPos] [] ((q.outPos + 1) % q.bufSize)⟩) := by
        simp [act, CircularQueue.consume, none]
      have some : 1 ≤ held.length := Nat.pos_of_ne_zero (mt empty.2 none)
      have cell : Ring.slots q.bufSize q.outPos 1 = [q.outPos] := by
        simp [Ring.slots, Nat.mod_eq_of_lt outPos_lt]
      have started := @Pops.started α q 1 (holds ▸ some)
      rw [cell, ← holds] at started
      rw [stepped]
      exact ⟨_, .filled (List.length_pos_iff.1 some), related.consumer_moves started⟩
  | popN few =>
    rename_i size' n
    have counted := between_slots outPos_lt (show n < q.bufSize by omega)
    by_cases none : min size' n = 0
    · have stepped : act .consume ⟨q, producer, .popN size' ((q.outPos + n) % q.bufSize)⟩ =
          (.popped (held.take (min size' n)), ⟨q, producer, .idle⟩) := by
        simp only [act, CircularQueue.consume, counted, none, if_true, List.take_zero]
      have popped := @Fifo.Step.popped α capacity (min size' n) held pushing (by omega)
      rw [stepped]
      refine ⟨_, popped, ?_⟩
      rw [none, List.drop_zero]
      exact related.consumer_moves .idle
    · have stepped : act .consume ⟨q, producer, .popN size' ((q.outPos + n) % q.bufSize)⟩ =
          (.none, ⟨q, producer, .sized (min size' n)⟩) := by
        simp only [act, CircularQueue.consume, counted, none, if_false]
      rw [stepped]
      exact ⟨_, .consumeWithin (Or.inr ⟨_, rfl⟩), related.consumer_moves (.sized (by omega))⟩
  | sized few =>
    rename_i n
    have started := @Pops.started α q n (holds ▸ few)
    rw [← popCells_eq outPos_lt (by omega), ← holds] at started
    exact ⟨_, .consumeWithin (Or.inr ⟨_, rfl⟩), related.consumer_moves started⟩
  | reading few inside completes =>
    rename_i cells vals n
    cases cells with
    | cons i cells =>
      refine ⟨_, .consumeWithin (Or.inr ⟨_, rfl⟩), related.consumer_moves (.reading few ?_ ?_)⟩
      · exact fun cell member => inside cell (List.mem_cons_of_mem i member)
      · rw [List.append_assoc]
        exact completes
    | nil =>
      rw [List.map_nil, List.append_nil] at completes
      subst completes
      exact ⟨_, .popped few, related.drops few .idle⟩
  | forEach =>
    have each := @Pops.each α q held held.length (Nat.le_refl _)
    rw [behind] at each
    exact ⟨_, .looked _ _, related.consumer_moves each⟩
  | each few =>
    rename_i n
    cases n with
    | zero =>
      have last := (related.reached_iff few).2 rfl
      have stepped : act .consume ⟨q, producer, .each q.outPos ((q.outPos + 0) % q.bufSize)⟩ =
          (.done, ⟨q, producer, .idle⟩) := by
        simp only [act, CircularQueue.consume, last, ne_eq, not_true_eq_false, if_false]
      rw [stepped]
      exact ⟨_, .visited _ _, related.consumer_moves .idle⟩
    | succ n =>
      have more := mt (related.reached_iff few).1 (Nat.succ_ne_zero n)
      have stepped : act .consume
          ⟨q, producer, .each q.outPos ((q.outPos + (n + 1)) % q.bufSize)⟩ =
          (.item (q.buffer q.outPos),
            ⟨q, producer, .given q.outPos ((q.outPos + (n + 1)) % q.bufSize)⟩) := by
        simp only [act, CircularQueue.consume, Ne.symm more, ne_eq, not_false_eq_true, if_true]
      obtain ⟨rest, rfl⟩ := related.oldest (List.length_pos_iff.1 (by omega))
      rw [stepped]
      exact ⟨_, .item n _ _ _, related.consumer_moves (.given few)⟩
  | given few =>
    rename_i n
    have more : n ≤ (held.drop 1).length := by
      rw [List.length_drop]
      omega
    have each := @Pops.each α { q with outPos := (q.outPos + 1) % q.bufSize } (held.drop 1) n more
    have same : ((q.outPos + 1) % q.bufSize + n) % q.bufSize =
        (q.outPos + (n + 1)) % q.bufSize := by
      rw [Nat.mod_add_mod, Nat.add_assoc, Nat.add_comm 1 n]
    dsimp only at each
    rw [same] at each
    have dropped := related.drops (show 1 ≤ held.length by omega) each
    obtain ⟨rest, rfl⟩ := related.oldest (List.length_pos_iff.1 (by omega))
    exact ⟨_, .given n _ _ _, dropped⟩
  | flush few => exact ⟨_, .flushed few, related.drops few .idle⟩

/-- A call begins with a load, unless its side is within another call. -/
theorem begins {s : Sides α} {f : Fifo α} (related : Related capacity s f) {action : Action α}
    (begin_ : action ≠ .produce ∧ action ≠ .consume) :
    ∃ f', Fifo.Step capacity action (act action s).1 f f' ∧
      Related capacity (act action s).2 f' := by
  obtain ⟨q, producer, consumer⟩ := s
  obtain ⟨held, pushing, popping⟩ := f
  have pushes : Pushes q held producer pushing := related.pushes
  have pops : Pops q held consumer popping := related.pops
  have behind := related.snapshot
  have all := Nat.le_refl held.length
  cases action with
  | produce => exact absurd rfl begin_.1
  | consume => exact absurd rfl begin_.2
  | push val =>
    cases pushes with
    | idle => exact ⟨_, .push val _ _, related.producer_moves (.push val)⟩
    | push _ => exact ⟨_, .pushWithin (fun idle => nomatch idle), related⟩
    | pushN _ => exact ⟨_, .pushWithin (fun idle => nomatch idle), related⟩
    | copying _ _ _ => exact ⟨_, .pushWithin (fun idle => nomatch idle), related⟩
  | pushN vals =>
    cases pushes with
    | idle => exact ⟨_, .pushN vals _ _, related.producer_moves (.pushN vals)⟩
    | push _ => exact ⟨_, .pushNWithin (fun idle => nomatch idle), related⟩
    | pushN _ => exact ⟨_, .pushNWithin (fun idle => nomatch idle), related⟩
    | copying _ _ _ => exact ⟨_, .pushNWithin (fun idle => nomatch idle), related⟩
  | pop =>
    cases pops with
    | idle => exact ⟨_, .pop _ _, related.consumer_moves .pop⟩
    | _ => exact ⟨_, .popWithin (fun idle => nomatch idle), related⟩
  | popN size =>
    cases pops with
    | idle =>
      have asked := @Pops.popN α q held size held.length all
      rw [behind] at asked
      exact ⟨_, .popN size _ _, related.consumer_moves asked⟩
    | _ => exact ⟨_, .popNWithin (fun idle => nomatch idle), related⟩
  | forEach =>
    cases pops with
    | idle => exact ⟨_, .forEach _ _, related.consumer_moves .forEach⟩
    | _ => exact ⟨_, .forEachWithin (fun idle => nomatch idle), related⟩
  | flush =>
    cases pops with
    | idle =>
      have asked := @Pops.flush α q held held.length all
      rw [behind] at asked
      exact ⟨_, .flush _ _, related.consumer_moves asked⟩
    | _ => exact ⟨_, .flushWithin (fun idle => nomatch idle), related⟩

theorem step (short : capacity + 1 < 2 ^ 32) (action : Action α) {s : Sides α} {f : Fifo α}
    (related : Related capacity s f) :
    ∃ f', Fifo.Step capacity action (act action s).1 f f' ∧
      Related capacity (act action s).2 f' := by
  cases action with
  | produce => exact related.produce short
  | consume => exact related.consume
  | _ => exact related.begins (by simp)

end Related

/-! ## Runs -/

/-- A queue on which no call has been made. -/
def fresh (capacity : Nat) (buffer : Nat → α) : Sides α := ⟨make capacity buffer, .idle, .idle⟩

theorem related_fresh (capacity : Nat) (buffer : Nat → α) :
    Related capacity (fresh capacity buffer) ⟨[], .idle, .idle⟩ where
  size := rfl
  sound := ⟨Nat.succ_pos _, Nat.succ_pos _⟩
  held := by simp [fresh, make, contents, ring, Ring.contents, Ring.used]
  pushes := .idle
  pops := .idle

theorem related_run (capacity : Nat) (buffer : Nat → α) (short : capacity + 1 < 2 ^ 31)
    (actions : List (Action α)) :
    ∃ last, Runs.Allows (Fifo.Step capacity) actions
        (Runs.run act actions (fresh capacity buffer)).1 ⟨[], .idle, .idle⟩ last ∧
      Related capacity (Runs.after act actions (fresh capacity buffer)) last := by
  have steps : ∀ (action : Action α) s f, True → Related capacity s f →
      ∃ f', Fifo.Step capacity action (act action s).1 f f' ∧
        Related capacity (act action s).2 f' :=
    fun action _ _ _ related => related.step (Nat.lt_trans short (by decide)) action
  exact Runs.run_allowed steps actions _ _
    (Runs.admits_of_forall act actions _ (fun _ _ => trivial))
    (related_fresh capacity buffer)

/-- The cells that the side that pushes has yet to store to. -/
def Producer.stores : Producer α → List Nat
  | .copying cells _ _ => cells.map Prod.fst
  | _ => []

/-- The cells that the side that pops has yet to read, or has handed to a function. -/
def Consumer.loads : Consumer α → List Nat
  | .reading cells _ _ => cells
  | .given outPos _ => [outPos]
  | _ => []

theorem Pushes.stores_free {producer : Producer α} {pushing : Pushing α}
    (pushes : Pushes q held producer pushing) {i : Nat} (stored : i ∈ producer.stores) :
    ∃ n, held.length + n < q.bufSize ∧ i ∈ Ring.slots q.bufSize q.inPos n := by
  cases pushes with
  | copying room free completes =>
    obtain ⟨cell, member, rfl⟩ := List.mem_map.1 stored
    exact ⟨_, room, free cell member⟩
  | _ => exact absurd stored List.not_mem_nil

theorem Pops.loads_held {consumer : Consumer α} {popping : Popping}
    (pops : Pops q held consumer popping) (inside : q.outPos < q.bufSize) {i : Nat}
    (loaded : i ∈ consumer.loads) : i ∈ Ring.slots q.bufSize q.outPos held.length := by
  have front : ∀ {n}, n ≤ held.length → i ∈ Ring.slots q.bufSize q.outPos n →
      i ∈ Ring.slots q.bufSize q.outPos held.length := by
    intro n few member
    rw [show held.length = n + (held.length - n) by omega, Ring.slots_add]
    exact List.mem_append_left _ member
  cases pops with
  | reading few cells completes => exact front few (cells i loaded)
  | given few =>
    obtain rfl := List.mem_singleton.1 loaded
    apply front (show 1 ≤ held.length by omega)
    simp [Ring.slots, Nat.mod_eq_of_lt inside]
  | _ => exact absurd loaded List.not_mem_nil

/-- Neither side ever stores to a cell that the other one is about to read or has handed out. -/
theorem circular_queue_cells_apart (capacity : Nat) (buffer : Nat → α)
    (short : capacity + 1 < 2 ^ 31) (actions : List (Action α)) :
    let s := Runs.after act actions (fresh capacity buffer)
    ∀ i ∈ s.producer.stores, i ∉ s.consumer.loads := by
  intro s i stored loaded
  obtain ⟨last, _, related⟩ := related_run capacity buffer short actions
  have sound : s.queue.ring.Sound := related.sound
  have holds : last.held.length = s.queue.ring.used := by
    rw [related.held, contents, Ring.length_contents]
  obtain ⟨n, room, free⟩ := related.pushes.stores_free stored
  have full := related.pops.loads_held sound.rpos_lt loaded
  have behind : (s.queue.outPos + s.queue.ring.used) % s.queue.bufSize = s.queue.inPos :=
    sound.wpos_eq
  rw [holds] at room full
  rw [← behind] at free
  exact Ring.slots_apart sound.rpos_lt (Nat.le_of_lt room) full free rfl

/-! ## A run -/

/-- Two values are asked for while the first one is read, and room is left for one of them. -/
def interleavedRun : List (Action Nat) :=
  [.push 7, .produce, .produce, .produce, .pop, .consume, .pushN [8, 9], .produce, .consume,
    .produce, .consume, .produce, .popN 5, .consume, .consume, .consume, .consume]

theorem circular_queue_cells_apart_interleaved :
    let s := Runs.after act (interleavedRun.take 8) (fresh 2 fun _ => 0)
    s.producer.stores = [1] ∧ s.consumer.loads = [0] ∧
      ∀ i ∈ s.producer.stores, i ∉ s.consumer.loads :=
  ⟨rfl, rfl, circular_queue_cells_apart 2 (fun _ => 0) (by decide) (interleavedRun.take 8)⟩

end Esp8266.Source.CircularQueue
