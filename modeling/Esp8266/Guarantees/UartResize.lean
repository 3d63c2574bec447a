import Esp8266.Guarantees.UartQueue

/-!
# Resizing the receive buffer

The loop of `uart_resize_rx_buffer` goes on while the FIFO holds a byte, but it takes bytes from
the buffer only. It ends with the contents copied, where the FIFO is empty when they are; else
it fills the new buffer, whose write position is then set to its start.
-/
set_option autoImplicit false

namespace Esp8266.Source.Uart
open Esp8266.Lib

/-- A byte is in the FIFO by the `checks`-th time that it is looked at from now on. -/
def Disturbed (checks : Nat) (u : Uart) : Prop :=
  u.fifo.bytes ≠ [] ∨ ∃ bytes ∈ u.line.take checks, bytes ≠ []

theorem arriveAll_fifo_nil (bytes : List UInt8) :
    ∀ u : Uart, (u.arriveAll bytes).fifo.bytes = [] ↔ u.fifo.bytes = [] ∧ bytes = [] := by
  induction bytes with
  | nil => intro u; exact ⟨fun empty => ⟨empty, rfl⟩, And.left⟩
  | cons byte bytes ih =>
    intro u
    have held : (u.arrive byte).fifo.bytes ≠ [] := by
      unfold arrive
      split
      · exact List.append_ne_nil_of_right_ne_nil _ (List.cons_ne_nil _ _)
      · rename_i full
        intro empty
        change u.fifo.bytes = [] at empty
        rw [empty] at full
        exact full (by decide)
    constructor
    · intro empty
      exact absurd ((ih (u.arrive byte)).mp empty).1 held
    · rintro ⟨-, none⟩
      cases none

theorem disturbed_elapse (checks : Nat) (u : Uart) :
    u.elapse.Disturbed checks ↔ u.Disturbed (checks + 1) := by
  have fifo : u.elapse.fifo.bytes = [] ↔ u.fifo.bytes = [] ∧ u.line.headD [] = [] :=
    arriveAll_fifo_nil (u.line.headD []) u
  have line : u.elapse.line = u.line.tail := rfl
  rw [Disturbed, Disturbed, Ne, fifo, line]
  cases u.line with
  | nil => simp
  | cons bytes rest =>
    simp only [List.headD_cons, List.tail_cons, List.take_succ_cons, List.mem_cons,
      exists_eq_or_imp, not_and_or, or_assoc, Ne]

/-- The contents are copied behind what was copied before, and the FIFO is empty by then. -/
structure Copied (newSize newWpos : Nat) (newBuf : Nat → UInt8) (u : Uart) (buf : Nat → UInt8)
    (wpos : Nat) : Prop where
  calm : ¬ u.Disturbed (u.rxBuffer.used + 1)
  room : newWpos + u.rxBuffer.used < newSize
  wpos : wpos = newWpos + u.rxBuffer.used
  copy : ∀ i < u.rxBuffer.used, buf (newWpos + i) = u.rxBuffer.contents.getD i 0
  before : ∀ i < newWpos, buf i = newBuf i

/-- The new buffer is full, for a byte in the FIFO or for want of room. -/
def Filled (newSize newWpos : Nat) (u : Uart) (wpos : Nat) : Prop :=
  wpos = newSize ∧ (u.Disturbed (u.rxBuffer.used + 1) ∨ newSize ≤ newWpos + u.rxBuffer.used)

theorem disturbed_advance {u : Uart} (sound : u.rxBuffer.Sound) (held : u.rxBuffer.used ≠ 0) :
    Disturbed ((u.rxBuffer.advance 1).used + 1)
        { u.elapse with rxBuffer := u.rxBuffer.advance 1 } ↔
      u.Disturbed (u.rxBuffer.used + 1) := by
  rw [sound.used_advance (by omega), Nat.sub_add_cancel (by omega), ← disturbed_elapse]
  rfl

/-- **The loop** of the resizing. -/
theorem resizeLoop_spec {newSize fuel : Nat} :
    ∀ {newBuf : Nat → UInt8} {newWpos : Nat} {u : Uart}, u.rxBuffer.Sound →
      newWpos ≤ newSize → newSize < newWpos + fuel →
        Copied newSize newWpos newBuf u (resizeLoop newSize fuel newBuf newWpos u).1
            (resizeLoop newSize fuel newBuf newWpos u).2.1 ∨
          Filled newSize newWpos u (resizeLoop newSize fuel newBuf newWpos u).2.1 := by
  induction fuel with
  | zero => intro newBuf newWpos u sound inside enough; omega
  | succ fuel ih =>
    intro newBuf newWpos u sound inside enough
    have count : u.rxFifoAvailable.1 = u.elapse.fifo.bytes.length := rxFifoAvailable_fst u
    have buffer : u.elapse.rxBuffer = u.rxBuffer := (elapse_elapsed u).choose_spec.1.rxBuffer
    have available : u.rxAvailableUnsafe =
        (u.rxBuffer.used + u.elapse.fifo.bytes.length, u.elapse) := by
      rw [rxAvailableUnsafe, ← count]
      rfl
    -- What the FIFO holds now tells whether the last check finds a byte.
    have seen : u.elapse.fifo.bytes ≠ [] → u.Disturbed (u.rxBuffer.used + 1) := fun some =>
      (disturbed_elapse _ u).mp (.inl some)
    have unseen : u.elapse.fifo.bytes = [] → ¬ u.Disturbed 1 := by
      intro none disturbed
      rcases (disturbed_elapse 0 u).mpr disturbed with some | ⟨bytes, member, -⟩
      · exact some none
      · exact absurd member (by simp)
    rw [resizeLoop, available]
    dsimp only
    split
    · rename_i going
      obtain ⟨some, more⟩ := going
      rw [readCharUnsafe, rxBufferAvailableUnsafe, buffer]
      split
      · -- The oldest byte of the buffer is copied.
        rename_i held
        have one : (u.rxBuffer.advance 1).used = u.rxBuffer.used - 1 :=
          sound.used_advance (by omega)
        have rest : (u.rxBuffer.advance 1).contents = u.rxBuffer.contents.drop 1 :=
          sound.contents_advance (by omega)
        have first := sound.head_eq held
        have same := disturbed_advance sound held
        rcases @ih (fun i => if i = newWpos then u.rxBuffer.buffer u.rxBuffer.rpos else newBuf i)
          (newWpos + 1) { u.elapse with rxBuffer := u.rxBuffer.advance 1 } (sound.advance 1)
          more (by omega) with copied | ⟨full, why⟩
        · obtain ⟨calm, room, wpos, copy, before⟩ := copied
          change newWpos + 1 + (u.rxBuffer.advance 1).used < newSize at room
          left
          refine ⟨fun disturbed => calm (same.mpr disturbed), by omega, ?_, ?_, ?_⟩
          · refine wpos.trans ?_
            change newWpos + 1 + (u.rxBuffer.advance 1).used = _
            omega
          · intro i bound
            cases i with
            | zero =>
              rw [first]
              exact (before newWpos (by omega)).trans (if_pos rfl)
            | succ i =>
              have next := copy i (by change i < (u.rxBuffer.advance 1).used; omega)
              change _ = (u.rxBuffer.advance 1).contents.getD i 0 at next
              rw [rest] at next
              rw [show newWpos + (i + 1) = newWpos + 1 + i by omega]
              refine next.trans ?_
              simp [List.getD_eq_getElem?_getD]
          · intro i bound
            exact (before i (by omega)).trans (if_neg (by omega))
        · right
          refine ⟨full, why.imp same.mp fun little => ?_⟩
          change newSize ≤ newWpos + 1 + (u.rxBuffer.advance 1).used at little
          omega
      · -- The buffer is empty and the FIFO is not: a cell is filled.
        rename_i empty
        have fifo : u.elapse.fifo.bytes ≠ [] := by
          intro none
          rw [none, List.length_nil] at some
          omega
        rcases @ih (fun i => if i = newWpos then 0xff else newBuf i) (newWpos + 1) u.elapse
          (by rw [buffer]; exact sound) more (by omega) with copied | filled
        · exact absurd (.inl fifo) copied.calm
        · exact .inr ⟨filled.1, .inl (seen fifo)⟩
    · rename_i stops
      by_cases more : newWpos < newSize
      · have none : u.rxBuffer.used + u.elapse.fifo.bytes.length = 0 := by
          by_contra some
          exact stops ⟨some, more⟩
        have empty : u.rxBuffer.used = 0 := by omega
        have fifo : u.elapse.fifo.bytes = [] := List.length_eq_zero_iff.mp (by omega)
        left
        exact ⟨by rw [empty]; exact unseen fifo, by omega, by rw [empty]; rfl,
          fun i bound => by omega, fun i bound => rfl⟩
      · exact .inr ⟨by dsimp only; omega, .inr (by omega)⟩

/-- During the loop bytes arrive in the FIFO, and none leaves it. -/
theorem resizeLoop_arrives {newSize fuel : Nat} :
    ∀ {newBuf : Nat → UInt8} {newWpos : Nat} {u : Uart}, ∃ new,
      (resizeLoop newSize fuel newBuf newWpos u).2.2.fifo.bytes = u.fifo.bytes ++ new ∧
        (resizeLoop newSize fuel newBuf newWpos u).2.2.arrived = u.arrived ++ new := by
  induction fuel with
  | zero => intro newBuf newWpos u; exact ⟨[], by simp [resizeLoop], by simp [resizeLoop]⟩
  | succ fuel ih =>
    intro newBuf newWpos u
    obtain ⟨new, elapsed, -⟩ := elapse_elapsed u
    rw [resizeLoop]
    dsimp only
    split
    · obtain ⟨more, fifo, arrived⟩ := @ih
        (fun i => if i = newWpos then u.rxAvailableUnsafe.2.readCharUnsafe.1.getD 0xff
          else newBuf i) (newWpos + 1) u.rxAvailableUnsafe.2.readCharUnsafe.2
      have same : u.rxAvailableUnsafe.2.readCharUnsafe.2.fifo = u.elapse.fifo ∧
          u.rxAvailableUnsafe.2.readCharUnsafe.2.arrived = u.elapse.arrived := by
        change u.elapse.readCharUnsafe.2.fifo = _ ∧ u.elapse.readCharUnsafe.2.arrived = _
        rw [readCharUnsafe]
        split <;> exact ⟨rfl, rfl⟩
      refine ⟨new ++ more, ?_, ?_⟩
      · rw [fifo, same.1, elapsed.fifo, List.append_assoc]
      · rw [arrived, same.2, elapsed.arrived, List.append_assoc]
    · exact ⟨new, elapsed.fifo, elapsed.arrived⟩

/-- A ring that was filled from its start on. -/
theorem contents_filled {size wpos : Nat} (buffer : Nat → UInt8) (fits : wpos = 0 ∨ wpos < size) :
    (Lib.Ring.mk size 0 wpos buffer).contents = (List.range wpos).map buffer := by
  have used : (Lib.Ring.mk size 0 wpos buffer).used = wpos := by
    rw [Ring.used, if_neg (Nat.not_lt_zero _)]
    rfl
  rw [Ring.contents, used]
  refine List.map_congr_left fun i member => ?_
  have inside := List.mem_range.mp member
  change buffer ((0 + i) % size) = buffer i
  rw [Nat.zero_add, Nat.mod_eq_of_lt (by omega)]

/-- What a resizing has to keep: what is received and not read, where it is less than the new
size, and its order always. What arrives meanwhile follows it. -/
structure KeepsPending (newSize : Nat) (u u' : Uart) : Prop where
  kept : ∃ new, u'.arrived = u.arrived ++ new ∧
    (u.queue.length < newSize → u'.queue = u.queue ++ new) ∧
    u'.queue.Sublist (u.queue ++ new)
  received : ∀ byte ∈ u'.rxBuffer.contents, byte ∈ u.queue

/-- Both levels hold something: the buffer now, the FIFO by the time the buffer is copied. -/
def LosesBuffer (newSize : Nat) (malloc : Option (Nat → UInt8)) (u : Uart) : Prop :=
  (u.rxEnabled = true ∧ u.rxBuffer.size ≠ newSize ∧ malloc ≠ none) ∧
    u.queue.length < newSize ∧ u.rxBuffer.used ≠ 0 ∧ u.Disturbed (u.rxBuffer.used + 1)

theorem KeepsPending.refl (newSize : Nat) (u : Uart) : KeepsPending newSize u u where
  kept := ⟨[], by simp, by simp, by simp⟩
  received := fun _ member => List.mem_append_left _ member

/-- The resizing keeps the contents of the buffer, or drops them. -/
theorem resizeRxBuffer_contents {newSize : Nat} {newBuf : Nat → UInt8} {u : Uart}
    (sound : u.rxBuffer.Sound) (enabled : u.rxEnabled = true) (other : u.rxBuffer.size ≠ newSize) :
    (∃ new, (u.resizeRxBuffer newSize (some newBuf)).2.arrived = u.arrived ++ new ∧
      (u.resizeRxBuffer newSize (some newBuf)).2.fifo.bytes = u.fifo.bytes ++ new) ∧
    ((¬ u.Disturbed (u.rxBuffer.used + 1) ∧
        (u.resizeRxBuffer newSize (some newBuf)).2.rxBuffer.contents = u.rxBuffer.contents) ∨
      ((u.Disturbed (u.rxBuffer.used + 1) ∨ newSize ≤ u.rxBuffer.used) ∧
        (u.resizeRxBuffer newSize (some newBuf)).2.rxBuffer.contents = [])) := by
  have outcome := @resizeLoop_spec newSize (newSize + 1) newBuf 0 u sound (Nat.zero_le _) (by omega)
  obtain ⟨new, fifo, arrived⟩ := @resizeLoop_arrives newSize (newSize + 1) newBuf 0 u
  rw [resizeRxBuffer, enabled, if_neg (by decide), if_neg other]
  rcases loop : resizeLoop newSize (newSize + 1) newBuf 0 u with ⟨buf, wpos, last⟩
  rw [loop] at outcome fifo arrived
  dsimp only at outcome fifo arrived ⊢
  refine ⟨⟨new, arrived, fifo⟩, ?_⟩
  rcases outcome with copied | ⟨full, why⟩
  · left
    have last := copied.wpos
    have room := copied.room
    rw [Nat.zero_add] at last room
    refine ⟨copied.calm, ?_⟩
    rw [if_neg (by omega), contents_filled _ (.inr (by omega)), last]
    apply List.ext_getElem
    · rw [List.length_map, List.length_range, Ring.length_contents]
    · intro i h h'
      rw [List.getElem_map, List.getElem_range]
      have cell := copied.copy i (by rwa [Ring.length_contents] at h')
      rw [Nat.zero_add] at cell
      rw [cell, List.getD_eq_getElem?_getD, List.getElem?_eq_getElem h', Option.getD_some]
  · right
    rw [Nat.zero_add] at why
    refine ⟨why, ?_⟩
    rw [if_pos full, contents_filled _ (.inl rfl)]
    rfl

/-- **Resizing keeps the pending input** exactly if it does not meet a byte in the FIFO while the
buffer holds some. -/
theorem resize_keeps_pending (newSize : Nat) (malloc : Option (Nat → UInt8)) (u : Uart)
    (sound : u.rxBuffer.Sound) :
    KeepsPending newSize u (u.resizeRxBuffer newSize malloc).2 ↔ ¬ LosesBuffer newSize malloc u := by
  by_cases acts : u.rxEnabled = true ∧ u.rxBuffer.size ≠ newSize ∧ malloc ≠ none
  · obtain ⟨enabled, other, given⟩ := acts
    obtain ⟨newBuf, rfl⟩ := Option.ne_none_iff_exists'.mp given
    obtain ⟨⟨new, arrived, fifo⟩, outcome⟩ := @resizeRxBuffer_contents newSize newBuf u sound
      enabled other
    generalize (u.resizeRxBuffer newSize (some newBuf)).2 = u' at arrived fifo outcome ⊢
    have queue' : u'.queue = u'.rxBuffer.contents ++ (u.fifo.bytes ++ new) := by rw [queue, fifo]
    have queue_new : u.queue ++ new = u.rxBuffer.contents ++ (u.fifo.bytes ++ new) := by
      rw [queue, List.append_assoc]
    have length : u.rxBuffer.contents.length = u.rxBuffer.used := Ring.length_contents _
    constructor
    · rintro ⟨⟨new', arrived', same, -⟩, -⟩ ⟨-, few, some, disturbed⟩
      rcases outcome with ⟨calm, -⟩ | ⟨-, dropped⟩
      · exact calm disturbed
      · obtain rfl : new = new' := List.append_cancel_left (arrived.symm.trans arrived')
        have lost := congrArg List.length (same few)
        rw [queue', queue_new, dropped, List.nil_append, @List.length_append _ u.rxBuffer.contents, length]
          at lost
        omega
    · intro fine
      rcases outcome with ⟨-, copied⟩ | ⟨why, dropped⟩
      · rw [copied, ← queue_new] at queue'
        refine ⟨⟨new, arrived, fun _ => queue', queue' ▸ List.Sublist.refl _⟩, fun byte member => ?_⟩
        rw [copied] at member
        exact List.mem_append_left _ member
      · rw [dropped, List.nil_append] at queue'
        refine ⟨⟨new, arrived, fun few => ?_, ?_⟩, fun byte member => ?_⟩
        · have held : u.rxBuffer.used = 0 := by
            by_contra some
            rcases why with disturbed | little
            · exact fine ⟨⟨enabled, other, given⟩, few, some, disturbed⟩
            · have total : u.queue.length = u.rxBuffer.used + u.fifo.bytes.length := by
                rw [queue, List.length_append, length]
              omega
          have empty : u.rxBuffer.contents = [] := List.length_eq_zero_iff.mp (length.trans held)
          rw [queue', queue_new, empty, List.nil_append]
        · rw [queue', queue_new]
          exact List.sublist_append_right _ _
        · rw [dropped] at member
          exact absurd member List.not_mem_nil
  · have same : (u.resizeRxBuffer newSize malloc).2 = u := by
      cases malloc with
      | none =>
        unfold resizeRxBuffer
        split
        · rfl
        · split <;> rfl
      | some newBuf =>
        unfold resizeRxBuffer
        split
        · rfl
        · rename_i enabled
          split
          · rfl
          · rename_i other
            exact absurd ⟨by simpa using enabled, other, Option.some_ne_none _⟩ acts
    rw [same]
    exact iff_of_true (KeepsPending.refl newSize u) fun loses => acts loses.1

/-- A buffer of two bytes that grows while the FIFO is empty. -/
theorem resize_keeps_two :
    let u : Uart := { init true 4 (fun i => [7, 8].getD i 0) with
      rxBuffer := ⟨4, 0, 2, fun i => [7, 8].getD i 0⟩ }
    KeepsPending 8 u (u.resizeRxBuffer 8 (some fun _ => 0)).2 := by
  intro u
  refine (resize_keeps_pending 8 (some fun _ => 0) u ⟨by decide, by decide⟩).mpr ?_
  rintro ⟨-, -, -, some | ⟨bytes, member, -⟩⟩
  · exact some rfl
  · exact List.not_mem_nil member

/-- With a byte in the buffer and one in the FIFO the first is lost. -/
theorem resize_drops_buffer :
    let u : Uart := { init true 4 (fun i => [7].getD i 0) with
      rxBuffer := ⟨4, 0, 1, fun i => [7].getD i 0⟩
      fifo := ⟨[9], by decide⟩ }
    u.queue = [7, 9] ∧ (u.resizeRxBuffer 8 (some fun _ => 0)).2.queue = [9] ∧
      ¬ KeepsPending 8 u (u.resizeRxBuffer 8 (some fun _ => 0)).2 := by
  intro u
  refine ⟨by decide, by decide, ?_⟩
  rintro ⟨⟨new, arrived, same, -⟩, -⟩
  obtain rfl : new = [] := List.append_eq_nil_iff.mp (show [] ++ new = [] from arrived.symm) |>.2
  exact absurd (same (by decide)) (by decide)

end Esp8266.Source.Uart
