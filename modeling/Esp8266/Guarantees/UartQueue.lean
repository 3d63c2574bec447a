import Esp8266.Lib.Runs
import Esp8266.Source.Uart

/-!
# The UART receive path is a queue

What one step does is said once, by `Moves`: which bytes it hands out, and that what is left
follows them in the order of arrival. Only the copy into a full buffer loses bytes, and it sets
`rx_overrun`. Steps compose, and so do whole runs.
-/
set_option autoImplicit false

namespace Esp8266.Source.Uart
open Esp8266.Lib Esp8266.Lib.Runs

/-- What is received and not read yet, oldest first. -/
def queue (u : Uart) : List UInt8 := u.rxBuffer.contents ++ u.fifo.bytes

/-- The step from `u` to `u'` hands out `out`. -/
structure Moves (u : Uart) (out : List UInt8) (u' : Uart) : Prop where
  sound : u'.rxBuffer.Sound
  size : u'.rxBuffer.size = u.rxBuffer.size
  enabled : u'.rxEnabled = u.rxEnabled
  overrun : u.rxOverrun = true → u'.rxOverrun = true
  kept : ∃ new, u'.arrived = u.arrived ++ new ∧
    (out ++ u'.queue).Sublist (u.queue ++ new) ∧
    (u'.rxOverrun = false → out ++ u'.queue = u.queue ++ new)

theorem Moves.refl {u : Uart} (sound : u.rxBuffer.Sound) : Moves u [] u :=
  ⟨sound, rfl, rfl, id, [], by simp, by simp, by simp⟩

theorem Moves.trans {u u' u'' : Uart} {out out' : List UInt8} (first : Moves u out u')
    (second : Moves u' out' u'') : Moves u (out ++ out') u'' := by
  obtain ⟨new, arrived, sub, exact_⟩ := first.kept
  obtain ⟨new', arrived', sub', exact'⟩ := second.kept
  refine ⟨second.sound, second.size.trans first.size, second.enabled.trans first.enabled,
    fun set => second.overrun (first.overrun set), new ++ new', ?_, ?_, ?_⟩
  · rw [arrived', arrived, List.append_assoc]
  · calc (out ++ out') ++ u''.queue
        = out ++ (out' ++ u''.queue) := List.append_assoc ..
      _ |>.Sublist (out ++ (u'.queue ++ new')) := sub'.append_left out
      _ = (out ++ u'.queue) ++ new' := (List.append_assoc ..).symm
      _ |>.Sublist ((u.queue ++ new) ++ new') := sub.append_right new'
      _ = u.queue ++ (new ++ new') := List.append_assoc ..
  · intro clear
    have before : u'.rxOverrun = false := by
      cases set : u'.rxOverrun with
      | false => rfl
      | true => rw [second.overrun set] at clear; cases clear
    rw [List.append_assoc, exact' clear, ← List.append_assoc, exact_ before, List.append_assoc]

/-- A step that moves bytes without losing any. -/
theorem Moves.of_eq {u u' : Uart} {out : List UInt8} (sound : u'.rxBuffer.Sound)
    (size : u'.rxBuffer.size = u.rxBuffer.size) (enabled : u'.rxEnabled = u.rxEnabled)
    (overrun : u'.rxOverrun = u.rxOverrun) (arrived : u'.arrived = u.arrived)
    (same : out ++ u'.queue = u.queue) : Moves u out u' :=
  ⟨sound, size, enabled, fun set => overrun.trans set, [], by rw [arrived, List.append_nil],
    by rw [same, List.append_nil], fun _ => by rw [same, List.append_nil]⟩

/-! ## The hardware -/

/-- Time has passed: the FIFO has grown, and nothing else has changed. -/
structure Elapsed (u : Uart) (new : List UInt8) (u' : Uart) : Prop where
  fifo : u'.fifo.bytes = u.fifo.bytes ++ new
  arrived : u'.arrived = u.arrived ++ new
  rxBuffer : u'.rxBuffer = u.rxBuffer
  enabled : u'.rxEnabled = u.rxEnabled
  overrun : u'.rxOverrun = u.rxOverrun

theorem Elapsed.moves {u u' : Uart} {new : List UInt8} (elapsed : Elapsed u new u')
    (sound : u.rxBuffer.Sound) : Moves u [] u' := by
  have grown : u'.queue = u.queue ++ new := by
    rw [queue, elapsed.rxBuffer, elapsed.fifo, ← List.append_assoc, queue]
  refine ⟨by rw [elapsed.rxBuffer]; exact sound, by rw [elapsed.rxBuffer], elapsed.enabled,
    fun set => elapsed.overrun.trans set, new, elapsed.arrived, ?_, fun _ => ?_⟩
  · rw [List.nil_append, grown]
  · rw [List.nil_append, grown]

theorem Elapsed.trans {u u' u'' : Uart} {new new' : List UInt8} (first : Elapsed u new u')
    (second : Elapsed u' new' u'') : Elapsed u (new ++ new') u'' where
  fifo := by rw [second.fifo, first.fifo, List.append_assoc]
  arrived := by rw [second.arrived, first.arrived, List.append_assoc]
  rxBuffer := second.rxBuffer.trans first.rxBuffer
  enabled := second.enabled.trans first.enabled
  overrun := second.overrun.trans first.overrun

theorem arrive_elapsed (byte : UInt8) (u : Uart) :
    ∃ new, Elapsed u new (u.arrive byte) ∧ new.length ≤ 1 ∧ (u.arrive byte).line = u.line := by
  unfold arrive
  split
  · exact ⟨[byte], ⟨rfl, rfl, rfl, rfl, rfl⟩, Nat.le_refl 1, rfl⟩
  · exact ⟨[], ⟨by simp, by simp, rfl, rfl, rfl⟩, Nat.zero_le 1, rfl⟩

theorem arriveAll_elapsed (bytes : List UInt8) :
    ∀ u : Uart, ∃ new, Elapsed u new (u.arriveAll bytes) ∧ new.length ≤ bytes.length ∧
      (u.arriveAll bytes).line = u.line := by
  induction bytes with
  | nil => intro u; exact ⟨[], ⟨by simp [arriveAll], by simp [arriveAll], rfl, rfl, rfl⟩, by simp, rfl⟩
  | cons byte bytes ih =>
    intro u
    obtain ⟨one, first, most, line⟩ := arrive_elapsed byte u
    obtain ⟨new, rest, few, line'⟩ := ih (u.arrive byte)
    refine ⟨one ++ new, first.trans rest, ?_, line'.trans line⟩
    rw [List.length_append, List.length_cons]
    omega

theorem elapse_elapsed (u : Uart) :
    ∃ new, Elapsed u new u.elapse ∧ u.elapse.pending ≤ u.pending := by
  obtain ⟨new, elapsed, few, -⟩ := arriveAll_elapsed (u.line.headD []) u
  refine ⟨new, ⟨elapsed.fifo, elapsed.arrived, elapsed.rxBuffer, elapsed.enabled,
    elapsed.overrun⟩, ?_⟩
  have fifo : u.elapse.fifo.bytes = u.fifo.bytes ++ new := elapsed.fifo
  have line : u.elapse.line = u.line.tail := rfl
  unfold pending
  rw [fifo, line, List.length_append]
  cases rest : u.line with
  | nil =>
    rw [rest] at few
    simp only [List.headD_nil, List.length_nil] at few
    simp only [List.tail_nil]
    omega
  | cons bytes line =>
    rw [rest] at few
    simp only [List.headD_cons] at few
    simp only [List.tail_cons, List.flatten_cons, List.length_append]
    omega

/-- The count that the FIFO shows is the number of its bytes. -/
theorem rxFifoAvailable_fst (u : Uart) :
    u.rxFifoAvailable.1 = u.rxFifoAvailable.2.fifo.bytes.length := by
  have bound := u.elapse.fifo.bytes_le
  exact Nat.mod_eq_of_lt (by omega)

theorem rxFifoAvailable_moves {u : Uart} (sound : u.rxBuffer.Sound) :
    Moves u [] u.rxFifoAvailable.2 := by
  obtain ⟨new, elapsed, -⟩ := elapse_elapsed u
  exact elapsed.moves sound

/-- A byte that is taken from the FIFO is its first one. -/
theorem usf_spec {u : Uart} (some : u.fifo.bytes ≠ []) :
    u.elapse.fifo.bytes = u.usf.1 :: u.usf.2.fifo.bytes := by
  obtain ⟨new, elapsed, -⟩ := elapse_elapsed u
  have grown := elapsed.fifo
  unfold usf
  cases held : u.elapse.fifo.bytes with
  | nil =>
    rw [held] at grown
    exact absurd (List.append_eq_nil_iff.mp grown.symm).1 some
  | cons byte rest => simp [held]

theorem usf_pending {u : Uart} (some : u.fifo.bytes ≠ []) : u.usf.2.pending < u.pending := by
  obtain ⟨-, -, fewer⟩ := elapse_elapsed u
  have taken := congrArg List.length (usf_spec some)
  have line : u.usf.2.line = u.elapse.line := rfl
  unfold pending at *
  rw [line]
  rw [List.length_cons] at taken
  omega

/-- Taking a byte from the FIFO of a UART whose buffer is empty is reading it. -/
theorem usf_moves {u : Uart} (sound : u.rxBuffer.Sound) (empty : u.rxBuffer.used = 0)
    (some : u.fifo.bytes ≠ []) : Moves u [u.usf.1] u.usf.2 := by
  obtain ⟨new, elapsed, -⟩ := elapse_elapsed u
  have none : u.rxBuffer.contents = [] := by
    rw [← List.length_eq_zero_iff, Ring.length_contents, empty]
  have buffer : u.usf.2.rxBuffer = u.rxBuffer := elapsed.rxBuffer
  refine (elapsed.moves sound).trans (Moves.of_eq ?_ rfl rfl rfl rfl ?_)
  · rw [buffer]
    exact sound
  · rw [queue, queue, buffer, elapsed.rxBuffer, none, List.nil_append, List.nil_append,
      usf_spec some]
    rfl

/-! ## The copy into the buffer -/

/-- `nextPos == rpos` discards the oldest byte. -/
def makeRoom (u : Uart) : Uart :=
  if (u.rxBuffer.wpos + 1) % u.rxBuffer.size = u.rxBuffer.rpos then
    { u with rxOverrun := true, rxBuffer := u.rxBuffer.advance 1 }
  else u

theorem copyByte_eq {u : Uart} (sound : u.rxBuffer.Sound) :
    u.copyByte =
      { u.makeRoom.usf.2 with rxBuffer := u.makeRoom.usf.2.rxBuffer.push u.makeRoom.usf.1 } := by
  have rpos := sound.rpos_lt
  have wrapped : (if u.rxBuffer.rpos + 1 = u.rxBuffer.size then 0 else u.rxBuffer.rpos + 1) =
      (u.rxBuffer.rpos + 1) % u.rxBuffer.size := by
    rw [Ring.wrap (by omega)]
    split <;> split <;> omega
  unfold copyByte makeRoom Ring.advance
  simp only [wrapped]

theorem makeRoom_moves {u : Uart} (sound : u.rxBuffer.Sound) (large : 2 ≤ u.rxBuffer.size) :
    Moves u [] u.makeRoom ∧ u.makeRoom.rxBuffer.used + 1 < u.makeRoom.rxBuffer.size ∧
      u.makeRoom.fifo = u.fifo ∧ u.makeRoom.line = u.line ∧
      (u.makeRoom.rxOverrun = false → u.makeRoom.rxBuffer = u.rxBuffer) := by
  have few := sound.used_lt
  unfold makeRoom
  by_cases full : (u.rxBuffer.wpos + 1) % u.rxBuffer.size = u.rxBuffer.rpos
  · rw [if_pos full]
    have held := sound.full_iff.mp full
    refine ⟨⟨sound.advance 1, rfl, rfl, fun _ => rfl, [], by simp, ?_, fun clear => by cases clear⟩,
      ?_, rfl, rfl, fun clear => by cases clear⟩
    · simp only [queue, sound.contents_advance (show 1 ≤ u.rxBuffer.used by omega),
        List.nil_append, List.append_nil]
      exact (List.drop_sublist 1 _).append_right _
    · simp only [sound.used_advance (show 1 ≤ u.rxBuffer.used by omega), Ring.advance_size]
      omega
  · rw [if_neg full]
    have free : u.rxBuffer.used + 1 ≠ u.rxBuffer.size := fun held => full (sound.full_iff.mpr held)
    exact ⟨Moves.refl sound, by omega, rfl, rfl, fun _ => rfl⟩

/-- One pass of the copy: the first byte of the FIFO goes behind the buffer. -/
theorem copyByte_moves {u : Uart} (sound : u.rxBuffer.Sound) (large : 2 ≤ u.rxBuffer.size)
    (some : u.fifo.bytes ≠ []) :
    Moves u [] u.copyByte ∧ u.copyByte.rxBuffer.used ≠ 0 ∧
      (u.copyByte.rxOverrun = false → u.rxBuffer.contents <+: u.copyByte.rxBuffer.contents) ∧
      u.copyByte.pending < u.pending := by
  obtain ⟨room, free, fifo, line, kept⟩ := makeRoom_moves sound large
  have pending : u.makeRoom.pending = u.pending := by
    unfold Uart.pending
    rw [fifo, line]
  rw [copyByte_eq sound]
  rw [← fifo] at some
  rw [← pending]
  generalize u.makeRoom = v at *
  obtain ⟨new, elapsed, -⟩ := elapse_elapsed v
  have taken := usf_spec some
  have buffer : v.usf.2.rxBuffer = v.rxBuffer := elapsed.rxBuffer
  have grown := room.sound.contents_push free v.usf.1
  refine ⟨?_, ?_, ?_, usf_pending some⟩
  · refine (room.trans (elapsed.moves room.sound)).trans (Moves.of_eq ?_ ?_ rfl rfl rfl ?_)
    · exact (buffer ▸ room.sound).push _
    · rfl
    · simp only [queue, buffer, elapsed.rxBuffer, grown, taken]
      simp
  · simp only [buffer]
    rw [room.sound.used_push free]
    omega
  · intro clear
    have same := kept (elapsed.overrun ▸ clear)
    change u.rxBuffer.contents <+: (v.usf.2.rxBuffer.push v.usf.1).contents
    rw [buffer, grown, same]
    exact List.prefix_append _ _

/-- The buffer has only been added to, unless an overrun was noted. -/
def Extends (u u' : Uart) : Prop :=
  u'.rxOverrun = false → u.rxBuffer.contents <+: u'.rxBuffer.contents

theorem Extends.trans {u u' u'' : Uart} {out : List UInt8} (first : Extends u u')
    (later : Moves u' out u'') (second : Extends u' u'') : Extends u u'' := by
  intro clear
  have before : u'.rxOverrun = false := by
    cases set : u'.rxOverrun with
    | false => rfl
    | true => rw [later.overrun set] at clear; cases clear
  exact (first before).trans (second clear)

/-- The copy; with a pass for each byte that is in the FIFO or on the line it ends with an empty
FIFO. -/
theorem copyLoop_moves (fuel : Nat) :
    ∀ u : Uart, u.rxBuffer.Sound → 2 ≤ u.rxBuffer.size →
      Moves u [] (copyLoop fuel u) ∧ Extends u (copyLoop fuel u) ∧
        (u.rxBuffer.used ≠ 0 ∨ (u.fifo.bytes ≠ [] ∧ 0 < fuel) →
          (copyLoop fuel u).rxBuffer.used ≠ 0) ∧
        (u.pending < fuel → (copyLoop fuel u).fifo.bytes = []) := by
  induction fuel with
  | zero =>
    intro u sound large
    exact ⟨Moves.refl sound, fun _ => List.prefix_rfl,
      fun held => held.resolve_right fun h => absurd h.2 (Nat.lt_irrefl 0),
      fun enough => by omega⟩
  | succ fuel ih =>
    intro u sound large
    obtain ⟨new, elapsed, fewer⟩ := elapse_elapsed u
    have count := rxFifoAvailable_fst u
    have waited := rxFifoAvailable_moves sound
    have buffer : u.rxFifoAvailable.2.rxBuffer = u.rxBuffer := elapsed.rxBuffer
    have later : u.rxFifoAvailable.2.pending ≤ u.pending := fewer
    have grown : u.rxFifoAvailable.2.fifo.bytes = u.fifo.bytes ++ new := elapsed.fifo
    rw [copyLoop]
    generalize u.rxFifoAvailable = seen at *
    dsimp only
    by_cases empty : seen.1 ≠ 0
    · rw [if_pos empty]
      have some : seen.2.fifo.bytes ≠ [] := by
        intro none
        rw [count, none] at empty
        exact empty rfl
      obtain ⟨copied, held, extended, less⟩ := copyByte_moves waited.sound
        (by rw [waited.size]; exact large) some
      obtain ⟨rest, extended', held', done⟩ := ih seen.2.copyByte copied.sound
        (by rw [copied.size, waited.size]; exact large)
      rw [buffer] at extended
      exact ⟨(waited.trans copied).trans rest, Extends.trans extended rest extended',
        fun _ => held' (.inl held), fun enough => done (by omega)⟩
    · rw [if_neg empty]
      have none : seen.2.fifo.bytes = [] := List.length_eq_zero_iff.mp (by omega)
      refine ⟨waited, fun _ => by simp only [buffer, List.prefix_rfl], ?_, fun _ => none⟩
      rintro (held | ⟨some, -⟩)
      · rw [buffer]
        exact held
      · rw [grown] at none
        exact absurd (List.append_eq_nil_iff.mp none).1 some

/-! ## Peeking and reading -/

/-- Peeking answers the first byte of the buffer, which it fills from the FIFO only when the
buffer is empty. -/
theorem peekChar_moves {u : Uart} (sound : u.rxBuffer.Sound) (large : 2 ≤ u.rxBuffer.size) :
    Moves u [] u.peekChar.2 ∧
      (∀ c, u.peekChar.1 = some c → u.peekChar.2.rxBuffer.contents.head? = some c) ∧
      (u.rxBuffer.used ≠ 0 → u.peekChar.2.rxBuffer = u.rxBuffer) := by
  unfold peekChar peekCharUnsafe rxAvailableUnsafe rxBufferAvailableUnsafe
  obtain ⟨new, elapsed, -⟩ := elapse_elapsed u
  have count := rxFifoAvailable_fst u
  have waited := rxFifoAvailable_moves sound
  have buffer : u.rxFifoAvailable.2.rxBuffer = u.rxBuffer := elapsed.rxBuffer
  generalize u.rxFifoAvailable = seen at *
  have first : ∀ r : Lib.Ring UInt8, r.Sound → r.used ≠ 0 →
      r.contents.head? = some (r.buffer r.rpos) := by
    intro r sound held
    rw [sound.head_eq held, List.head?_cons]
  dsimp only
  split
  · exact ⟨Moves.refl sound, ⟨fun c answer => (by cases answer), fun _ => rfl⟩⟩
  · split
    · exact ⟨waited, ⟨fun c answer => (by cases answer), fun _ => buffer⟩⟩
    · rename_i some
      by_cases empty : seen.2.rxBuffer.used = 0
      · rw [if_pos empty]
        -- the FIFO showed a byte, and the copy takes it
        have bytes : seen.2.fifo.bytes ≠ [] := by
          intro none
          rw [none] at count
          rw [buffer] at empty
          exact some (by rw [empty, count]; rfl)
        obtain ⟨copied, -, held, -⟩ := copyLoop_moves (seen.2.pending + 1) seen.2 waited.sound
          (by rw [waited.size]; exact large)
        refine ⟨waited.trans copied, fun c answer => ?_, fun held => ?_⟩
        · exact (first _ copied.sound (held (.inr ⟨bytes, Nat.succ_pos _⟩))).trans answer
        · rw [buffer] at empty
          exact absurd empty held
      · rw [if_neg empty]
        exact ⟨waited, fun c answer => (first _ waited.sound empty).trans answer, fun _ => buffer⟩

/-- `uart_read` from the FIFO, once the buffer is empty. -/
theorem readFifo_moves (room : Nat) :
    ∀ u : Uart, u.rxBuffer.Sound → u.rxBuffer.used = 0 →
      Moves u (readFifo room u).1 (readFifo room u).2 ∧
        ((readFifo room u).1.length = room ∨ (readFifo room u).2.queue = []) := by
  induction room with
  | zero => intro u sound empty; exact ⟨Moves.refl sound, .inl rfl⟩
  | succ room ih =>
    intro u sound empty
    obtain ⟨new, elapsed, -⟩ := elapse_elapsed u
    have count := rxFifoAvailable_fst u
    have waited := rxFifoAvailable_moves sound
    have buffer : u.rxFifoAvailable.2.rxBuffer = u.rxBuffer := elapsed.rxBuffer
    rw [readFifo]
    generalize u.rxFifoAvailable = seen at *
    dsimp only
    by_cases bytes : seen.1 ≠ 0
    · have some : seen.2.fifo.bytes ≠ [] := by
        intro none
        rw [count, none] at bytes
        exact bytes rfl
      have still : seen.2.rxBuffer.used = 0 := by rw [buffer, empty]
      have taken := usf_moves waited.sound still some
      have same : seen.2.usf.2.rxBuffer = seen.2.rxBuffer := by
        obtain ⟨_, elapsed', -⟩ := elapse_elapsed seen.2
        exact elapsed'.rxBuffer
      obtain ⟨rest, full⟩ := ih seen.2.usf.2 taken.sound (by rw [same, still])
      rw [if_pos bytes]
      refine ⟨waited.trans (taken.trans rest), ?_⟩
      rcases full with full | drained
      · exact .inl (congrArg Nat.succ full)
      · exact .inr drained
    · rw [if_neg bytes]
      refine ⟨waited, .inr ?_⟩
      have none : seen.2.fifo.bytes = [] := List.length_eq_zero_iff.mp (by omega)
      have hollow : u.rxBuffer.contents = [] := by
        rw [← List.length_eq_zero_iff, Ring.length_contents, empty]
      rw [queue, buffer, hollow, none]
      rfl

/-- What one copy to the user takes: at least a byte, and not past the end of the array. -/
theorem chunk_bounds {r : Lib.Ring UInt8} (sound : r.Sound) (held : r.used ≠ 0) :
    0 < chunk r ∧ chunk r ≤ r.used ∧ r.rpos + chunk r ≤ r.size := by
  have rpos := sound.rpos_lt
  have wpos := sound.wpos_lt
  unfold chunk
  unfold Ring.used at *
  split <;> split at held <;> split <;> omega

/-- `uart_read`: first the buffer, in one or two pieces, then the FIFO. -/
theorem readLoop_moves (fuel : Nat) :
    ∀ (room : Nat) (u : Uart), u.rxBuffer.Sound →
      Moves u (readLoop fuel room u).1 (readLoop fuel room u).2 ∧
        (0 < fuel → 0 < room → ∀ c, u.rxBuffer.contents.head? = some c →
          (readLoop fuel room u).1.head? = some c) ∧
        (room < fuel → (readLoop fuel room u).1.length = room ∨
          (readLoop fuel room u).2.queue = []) := by
  induction fuel with
  | zero => intro room u sound; exact ⟨Moves.refl sound, fun none => by omega, fun none => by omega⟩
  | succ fuel ih =>
    intro room u sound
    obtain ⟨new, elapsed, -⟩ := elapse_elapsed u
    have count := rxFifoAvailable_fst u
    have waited := rxFifoAvailable_moves sound
    have buffer : u.rxFifoAvailable.2.rxBuffer = u.rxBuffer := elapsed.rxBuffer
    rw [readLoop]
    unfold rxAvailableUnsafe rxBufferAvailableUnsafe
    generalize u.rxFifoAvailable = seen at *
    dsimp only
    by_cases more : 0 < room
    · rw [if_pos more]
      by_cases held : u.rxBuffer.used = 0
      · have hollow : u.rxBuffer.contents = [] := by
          rw [← List.length_eq_zero_iff, Ring.length_contents, held]
        by_cases none : u.rxBuffer.used + seen.1 = 0
        · rw [if_pos none]
          refine ⟨waited, fun _ _ c first => ?_, fun _ => .inr ?_⟩
          · rw [hollow] at first
            cases first
          · have empty : seen.2.fifo.bytes = [] := List.length_eq_zero_iff.mp (by omega)
            rw [queue, buffer, hollow, empty]
            rfl
        · obtain ⟨moved, full⟩ := readFifo_moves room seen.2 waited.sound (by rw [buffer, held])
          rw [if_neg none, if_pos (by rw [buffer, held])]
          refine ⟨waited.trans moved, fun _ _ c first => ?_, fun _ => full⟩
          rw [hollow] at first
          cases first
      · rw [if_neg (by omega), if_neg (by rw [buffer]; exact held)]
        obtain ⟨positive, most, straight⟩ := chunk_bounds sound held
        rw [buffer]
        generalize size : min (chunk u.rxBuffer) room = n
        have part := Ring.linear_eq (show n ≤ u.rxBuffer.used by omega) (by omega)
        have poured : Moves seen.2 (u.rxBuffer.linear n)
            { seen.2 with rxBuffer := u.rxBuffer.advance n } := by
          refine Moves.of_eq (sound.advance n) (by rw [buffer]; rfl) rfl rfl rfl ?_
          simp only [queue, buffer, part, sound.contents_advance (show n ≤ u.rxBuffer.used by omega)]
          rw [← List.append_assoc, List.take_append_drop]
        obtain ⟨rest, -, full⟩ := ih (room - n)
          { seen.2 with rxBuffer := u.rxBuffer.advance n } poured.sound
        refine ⟨waited.trans (poured.trans rest), fun _ _ c first => ?_, fun enough => ?_⟩
        · rw [part]
          cases some : u.rxBuffer.contents with
          | nil => rw [some] at first; cases first
          | cons byte tail =>
            rw [some] at first
            obtain ⟨k, rfl⟩ : ∃ k, n = k + 1 := ⟨n - 1, by omega⟩
            exact first
        · rcases full (by omega) with full | drained
          · left
            rw [List.length_append, Ring.length_linear, full]
            omega
          · exact .inr drained
    · rw [if_neg more]
      exact ⟨Moves.refl sound, fun _ some => absurd some more, fun _ => .inl (by simp; omega)⟩

theorem read_moves (usersize : Nat) {u : Uart} (sound : u.rxBuffer.Sound) :
    Moves u (u.read usersize).1 (u.read usersize).2 := by
  unfold read
  split
  · exact Moves.refl sound
  · exact (readLoop_moves (usersize + 1) usersize u sound).1

/-! ## The interrupt handler -/

/-- A step that only notes errors. -/
structure Notes (u u' : Uart) : Prop where
  rxBuffer : u'.rxBuffer = u.rxBuffer
  fifo : u'.fifo = u.fifo
  arrived : u'.arrived = u.arrived
  enabled : u'.rxEnabled = u.rxEnabled
  overrun : u.rxOverrun = true → u'.rxOverrun = true

theorem Notes.moves {u u' : Uart} (notes : Notes u u') (sound : u.rxBuffer.Sound) :
    Moves u [] u' ∧ Extends u u' := by
  have same : u'.queue = u.queue := by rw [queue, notes.rxBuffer, notes.fifo, queue]
  refine ⟨⟨by rw [notes.rxBuffer]; exact sound, by rw [notes.rxBuffer], notes.enabled,
    notes.overrun, [], ?_, ?_, fun _ => ?_⟩, fun _ => by simp only [notes.rxBuffer, List.prefix_rfl]⟩
  · rw [notes.arrived, List.append_nil]
  · rw [same, List.nil_append, List.append_nil]
  · rw [same, List.nil_append, List.append_nil]

theorem isr_moves (usis : Nat) {u : Uart} (sound : u.rxBuffer.Sound)
    (large : 2 ≤ u.rxBuffer.size) : Moves u [] (u.isr usis) ∧ Extends u (u.isr usis) := by
  unfold isr rxCopyFifoToBufferUnsafe
  obtain ⟨copied, extended, -⟩ := copyLoop_moves (u.pending + 1) u sound large
  dsimp only
  split
  · exact Notes.moves ⟨rfl, rfl, rfl, rfl, id⟩ sound
  · by_cases full : usis.testBit uiff = true
    · rw [if_pos full]
      generalize copyLoop (u.pending + 1) u = v at *
      suffices noted : Notes v _ from
        ⟨copied.trans (noted.moves copied.sound).1,
          Extends.trans extended (noted.moves copied.sound).1 (noted.moves copied.sound).2⟩
      split <;> split <;> exact ⟨rfl, rfl, rfl, rfl, fun set => by first | rfl | exact set⟩
    · rw [if_neg full]
      apply Notes.moves _ sound
      split <;> split <;> exact ⟨rfl, rfl, rfl, rfl, fun set => by first | rfl | exact set⟩

theorem isrs_moves (interrupts : List Nat) :
    ∀ u : Uart, u.rxBuffer.Sound → 2 ≤ u.rxBuffer.size →
      Moves u [] (interrupts.foldl (fun u usis => u.isr usis) u) ∧
        Extends u (interrupts.foldl (fun u usis => u.isr usis) u) := by
  induction interrupts with
  | nil => intro u sound large; exact ⟨Moves.refl sound, fun _ => List.prefix_rfl⟩
  | cons usis interrupts ih =>
    intro u sound large
    obtain ⟨moved, extended⟩ := isr_moves usis sound large
    obtain ⟨rest, extended'⟩ := ih (u.isr usis) moved.sound (by rw [moved.size]; exact large)
    exact ⟨moved.trans rest, Extends.trans extended rest extended'⟩

theorem rxAvailable_moves (interrupts : List Nat) {u : Uart} (sound : u.rxBuffer.Sound)
    (large : 2 ≤ u.rxBuffer.size) :
    Moves u [] (u.rxAvailable interrupts).2 ∧ Extends u (u.rxAvailable interrupts).2 := by
  unfold rxAvailable
  split
  · exact ⟨Moves.refl sound, fun _ => List.prefix_rfl⟩
  · obtain ⟨moved, extended⟩ := isrs_moves interrupts u sound large
    generalize interrupts.foldl (fun u usis => u.isr usis) u = v at *
    obtain ⟨new, elapsed, -⟩ := elapse_elapsed v
    have waited := rxFifoAvailable_moves moved.sound
    have buffer : v.rxFifoAvailable.2.rxBuffer = v.rxBuffer := elapsed.rxBuffer
    exact ⟨moved.trans waited, Extends.trans extended waited fun _ => by
      simp only [buffer, List.prefix_rfl]⟩

/-! ## Runs -/

/-- What happens to a UART; `line` is what arrives during the call. -/
inductive Call where
  | arrive (bytes : List UInt8)
  | isr (usis : Nat) (line : List (List UInt8))
  | read (usersize : Nat) (line : List (List UInt8))
  | peek (line : List (List UInt8))
  | available (interrupts : List Nat) (line : List (List UInt8))

inductive Answer where
  | none
  | bytes (out : List UInt8)
  | char (c : Option UInt8)
  | count (n : Nat)

/-- The bytes that an answer hands out for good. -/
def Answer.out : Answer → List UInt8
  | .bytes out => out
  | _ => []

/-- The end of a call: what it did not wait for has not arrived. -/
def settle (u : Uart) : Uart := { u with line := [] }

def step : Call → Uart → Answer × Uart
  | .arrive bytes, u => (.none, u.arriveAll bytes)
  | .isr usis line, u => (.none, settle (isr usis { u with line }))
  | .read usersize line, u =>
    let (out, u) := read usersize { u with line }
    (.bytes out, settle u)
  | .peek line, u =>
    let (c, u) := peekChar { u with line }
    (.char c, settle u)
  | .available interrupts line, u =>
    let (n, u) := rxAvailable interrupts { u with line }
    (.count n, settle u)

theorem step_moves (call : Call) {u : Uart} (sound : u.rxBuffer.Sound)
    (large : 2 ≤ u.rxBuffer.size) : Moves u (step call u).1.out (step call u).2 := by
  have settled : ∀ {u v : Uart} {line : List (List UInt8)} {out : List UInt8},
      Moves { u with line } out v → Moves u out (settle v) :=
    fun moved => ⟨moved.sound, moved.size, moved.enabled, moved.overrun, moved.kept⟩
  cases call with
  | arrive bytes =>
    obtain ⟨new, elapsed, -⟩ := arriveAll_elapsed bytes u
    exact elapsed.moves sound
  | isr usis line => exact settled (isr_moves usis (u := { u with line }) sound large).1
  | read usersize line => exact settled (read_moves usersize (u := { u with line }) sound)
  | peek line => exact settled (peekChar_moves (u := { u with line }) sound large).1
  | available interrupts line =>
    exact settled (rxAvailable_moves interrupts (u := { u with line }) sound large).1

/-- The bytes that a run has read. -/
def reads (answers : List Answer) : List UInt8 := answers.flatMap Answer.out

theorem run_moves (calls : List Call) :
    ∀ u : Uart, u.rxBuffer.Sound → 2 ≤ u.rxBuffer.size →
      Moves u (reads (run step calls u).1) (run step calls u).2 := by
  induction calls with
  | nil => intro u sound large; exact Moves.refl sound
  | cons call calls ih =>
    intro u sound large
    have first := step_moves call sound large
    exact first.trans (ih (step call u).2 first.sound (by rw [first.size]; exact large))

/-! ## What was peeked is read next -/

def Call.Reads : Call → Prop
  | .read .. => True
  | _ => False

def Call.Arrives : Call → Prop
  | .arrive _ => True
  | _ => False

theorem step_extends (call : Call) (other : ¬ call.Reads) {u : Uart} (sound : u.rxBuffer.Sound)
    (large : 2 ≤ u.rxBuffer.size) : Extends u (step call u).2 := by
  cases call with
  | arrive bytes =>
    obtain ⟨new, elapsed, -⟩ := arriveAll_elapsed bytes u
    intro clear
    change _ <+: (u.arriveAll bytes).rxBuffer.contents
    simp only [elapsed.rxBuffer, List.prefix_rfl]
  | isr usis line => exact (isr_moves usis (u := { u with line }) sound large).2
  | read usersize line => exact absurd trivial other
  | peek line =>
    intro clear
    by_cases held : u.rxBuffer.used = 0
    · have hollow : u.rxBuffer.contents = [] := by
        rw [← List.length_eq_zero_iff, Ring.length_contents, held]
      rw [hollow]
      exact List.nil_prefix
    · have same := (peekChar_moves (u := { u with line }) sound large).2.2 held
      change _ <+: (peekChar { u with line }).2.rxBuffer.contents
      simp only [same, List.prefix_rfl]
  | available interrupts line =>
    exact (rxAvailable_moves interrupts (u := { u with line }) sound large).2

/-- Without a read in between the first byte of the buffer stays the first one, unless an
overrun is noted; arrivals alone never touch the buffer. -/
theorem first_stays (calls : List Call) :
    ∀ u : Uart, u.rxBuffer.Sound → 2 ≤ u.rxBuffer.size → (∀ call ∈ calls, ¬ call.Reads) →
      ((after step calls u).rxOverrun = false ∨ ∀ call ∈ calls, call.Arrives) →
      u.rxBuffer.contents <+: (after step calls u).rxBuffer.contents := by
  induction calls with
  | nil => intro u _ _ _ _; exact List.prefix_rfl
  | cons call calls ih =>
    intro u sound large others quiet
    have moved := step_moves call sound large
    have wide : 2 ≤ (step call u).2.rxBuffer.size := by rw [moved.size]; exact large
    have rest := ih (step call u).2 moved.sound wide
      fun c member => others c (List.mem_cons_of_mem _ member)
    rcases quiet with clear | arrivals
    · refine (step_extends call (others call List.mem_cons_self) sound large ?_).trans
        (rest (.inl clear))
      cases set : (step call u).2.rxOverrun with
      | false => rfl
      | true =>
        have later := (run_moves calls (step call u).2 moved.sound wide).overrun set
        rw [after_cons, after, later] at clear
        cases clear
    · refine List.IsPrefix.trans ?_
        (rest (.inr fun c member => arrivals c (List.mem_cons_of_mem _ member)))
      have arrival := arrivals call List.mem_cons_self
      cases call with
      | arrive bytes =>
        obtain ⟨new, elapsed, -⟩ := arriveAll_elapsed bytes u
        change _ <+: (u.arriveAll bytes).rxBuffer.contents
        simp only [elapsed.rxBuffer, List.prefix_rfl]
      | isr _ _ => exact arrival.elim
      | read _ _ => exact arrival.elim
      | peek _ => exact arrival.elim
      | available _ _ => exact arrival.elim

theorem read_first {u : Uart} (sound : u.rxBuffer.Sound) (enabled : u.rxEnabled = true)
    {c : UInt8} (first : u.rxBuffer.contents.head? = some c) (n : Nat) (some : 0 < n)
    (line : List (List UInt8)) : ∃ rest, (step (.read n line) u).1 = .bytes (c :: rest) := by
  have head := (readLoop_moves (n + 1) n { u with line } sound).2.1 (Nat.succ_pos n) some c first
  have out : (step (.read n line) u).1 = .bytes (readLoop (n + 1) n { u with line }).1 := by
    change Answer.bytes (read n { u with line }).1 = _
    rw [read, if_neg (by rw [enabled]; decide)]
  rw [out]
  cases taken : (readLoop (n + 1) n { u with line }).1 with
  | nil => rw [taken] at head; cases head
  | cons byte rest =>
    rw [taken, List.head?_cons, Option.some.injEq] at head
    exact ⟨rest, by rw [head]⟩

theorem peek_first {u : Uart} (sound : u.rxBuffer.Sound) (large : 2 ≤ u.rxBuffer.size)
    {line : List (List UInt8)} {c : UInt8} (peeked : (step (.peek line) u).1 = .char (some c)) :
    (step (.peek line) u).2.rxEnabled = true ∧
      (step (.peek line) u).2.rxBuffer.contents.head? = some c := by
  have answer : (peekChar { u with line }).1 = some c := Answer.char.inj peeked
  obtain ⟨moved, first, -⟩ := peekChar_moves (u := { u with line }) sound large
  refine ⟨?_, first c answer⟩
  change (peekChar { u with line }).2.rxEnabled = true
  rw [moved.enabled]
  cases enabled : u.rxEnabled with
  | true => rfl
  | false =>
    rw [peekChar, if_pos (by simp [enabled])] at answer
    cases answer

/-- **The UART receive path is a queue.** The positions stay inside the buffer; what is read is a
subsequence of what arrived, and without an overrun nothing else is missing; what was peeked is
the first byte of the next read, unless an overrun discards it. -/
theorem uart_receives (rxEnabled : Bool) (size : Nat) (buffer : Nat → UInt8) (large : 2 ≤ size)
    (calls : List Call) :
    let final := run step calls (init rxEnabled size buffer)
    final.2.rxBuffer.rpos < size ∧ final.2.rxBuffer.wpos < size ∧
    (reads final.1).Sublist final.2.arrived ∧
    (final.2.rxOverrun = false →
      reads final.1 ++ final.2.rxBuffer.contents ++ final.2.fifo.bytes = final.2.arrived) ∧
    ∀ (line : List (List UInt8)) (c : UInt8) (between : List Call) (n : Nat)
      (line' : List (List UInt8)),
      (step (.peek line) final.2).1 = .char (some c) → (∀ call ∈ between, ¬ call.Reads) →
      ((after step between (step (.peek line) final.2).2).rxOverrun = false ∨
        ∀ call ∈ between, call.Arrives) → 0 < n →
      ∃ rest, (step (.read n line') (after step between (step (.peek line) final.2).2)).1 =
        .bytes (c :: rest) := by
  have empty : (init rxEnabled size buffer).rxBuffer.Sound :=
    ⟨Nat.lt_of_lt_of_le Nat.zero_lt_two large, Nat.lt_of_lt_of_le Nat.zero_lt_two large⟩
  have moved := run_moves calls (init rxEnabled size buffer) empty large
  intro final
  obtain ⟨new, arrived, sub, exact_⟩ := moved.kept
  have nothing : (init rxEnabled size buffer).queue = [] := by
    simp [queue, init, Ring.contents, Ring.used, RxFifo.empty]
  have all : final.2.arrived = new := arrived
  rw [nothing, List.nil_append] at sub exact_
  have width : final.2.rxBuffer.size = size := moved.size
  refine ⟨width ▸ moved.sound.rpos_lt, width ▸ moved.sound.wpos_lt, ?_, ?_, ?_⟩
  · rw [all]
    exact (List.sublist_append_left _ _).trans sub
  · intro clear
    rw [all, List.append_assoc]
    exact exact_ clear
  · intro line c between n line' peeked others quiet some
    have wide : 2 ≤ final.2.rxBuffer.size := by rw [width]; exact large
    obtain ⟨enabled, first⟩ := peek_first moved.sound wide peeked
    have looked := step_moves (.peek line) moved.sound wide
    have wide' : 2 ≤ (step (.peek line) final.2).2.rxBuffer.size := by rw [looked.size]; exact wide
    have waited := run_moves between (step (.peek line) final.2).2 looked.sound wide'
    obtain ⟨more, grown⟩ := first_stays between _ looked.sound wide' others quiet
    apply read_first waited.sound (waited.enabled.trans enabled) _ n some
    change (after step between (step (.peek line) final.2).2).rxBuffer.contents.head? = _
    rw [← grown]
    cases held : (step (.peek line) final.2).2.rxBuffer.contents with
    | nil => rw [held] at first; cases first
    | cons byte tail => rw [held] at first; exact first

theorem uart_receives_two :
    let final := run step [.arrive [7, 8], .isr 1 [[9]]] (init true 2 fun _ => 0)
    2 ≤ 2 ∧ (reads final.1).Sublist final.2.arrived :=
  ⟨Nat.le_refl 2,
    (uart_receives true 2 (fun _ => 0) (Nat.le_refl 2) [.arrive [7, 8], .isr 1 [[9]]]).2.2.1⟩

/-- An overrun discards the byte that was peeked. -/
theorem peeked_byte_lost :
    (run step [.arrive [1], .peek [], .arrive [2], .isr 1 [], .read 1 []]
      (init true 2 fun _ => 0)).1 =
      [.none, .char (some 1), .none, .none, .bytes [2]] := rfl

end Esp8266.Source.Uart
