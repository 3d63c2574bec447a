import Esp8266.Updater.Staging

/-!
# What a call does to a session

A call records events that stay in the region and write to erased bytes only; it ends with more
bytes accepted, or with the update given up. The three write paths are built from one step: take
bytes into the buffer and flush it where a flush is due.
-/
set_option autoImplicit false

namespace Esp8266.Updater
open Esp8266.Lib.NorFlash Esp8266.Lib.Word32 Esp8266.Source.Esp Esp8266.Source.Updater

/-- The updater between two updates. -/
structure Idle (u : UpdaterClass) : Prop where
  size : u.size = 0
  buffer : u.buffer = none
  bufferLen : u.bufferLen = 0
  startAddress : u.startAddress = 0
  currentAddress : u.currentAddress = 0
  command : u.command = uFlash

theorem idle_reset (u : UpdaterClass) : Idle u.reset := ⟨rfl, rfl, rfl, rfl, rfl, rfl⟩

theorem idle_setError (error : UpdateError) (u : UpdaterClass) : Idle (u.setError error) :=
  idle_reset _

/-- The updater after it has dropped an update for an error. -/
structure GivenUp (u : UpdaterClass) : Prop where
  idle : Idle u
  error : u.error ≠ .ok

theorem givenUp_setError {error : UpdateError} (real : error ≠ .ok) (u : UpdaterClass) :
    GivenUp (u.setError error) := ⟨idle_setError error u, real⟩

/-! ## The region of a session -/

/-- All that the event may change lies in the sectors from `start` on that hold the image. -/
def Session.Inside (s : Session) (event : Event) : Prop :=
  ∀ a, event.Touches a → s.start ≤ a ∧ a < s.start + sectorEnd s.size

theorem Session.inside_of_silent (s : Session) {event : Event} (silent : event.Silent) :
    s.Inside event := fun a touches => absurd touches (silent.not_touches a)

/-- A flush of image bytes stays inside, unless it only opens the sector behind the image. -/
theorem FlushEvent.inside {s : Session} {flushed len : Nat} {event : Event}
    (flush : FlushEvent (s.start + flushed) len event) (within : flushed + len ≤ s.size)
    (before : flushed < s.size ∨ s.size % flashSectorSize ≠ 0) : s.Inside event := by
  intro a touches
  have aligned := s.start_aligned
  cases event with
  | erase sector ok =>
    obtain ⟨opens, rfl⟩ := flush
    simp only [Event.Touches, flashSectorSize, sectorEnd] at *
    omega
  | write offset data ok =>
    obtain ⟨rfl, width⟩ := flush
    have round := le_sectorEnd s.size
    simp only [Event.Touches] at touches
    omega
  | read _ _ _ => exact touches.elim
  | verify _ _ _ => exact touches.elim
  | command _ _ => exact touches.elim
  | progress _ _ => exact touches.elim

/-! ## What a call does to a session -/

/-- The call records `new`, writes to erased bytes only, and stays in the region when
`contained`. -/
structure Traced (s : Session) (t : Trail) (contained : Prop) (m : Machine) (new : List Event)
    (m' : Machine) : Prop where
  follows : Follows m.board new m'.board
  writes : WellErased (new ++ t.events)
  inside : contained → ∀ event ∈ new, s.Inside event

/-- The image is not passed, and once it is complete all of it is in flash. -/
def Closed (s : Session) (t : Trail) : Prop :=
  t.accepted.length < s.size ∨ t.accepted.length = s.size ∧ t.flushed = s.size

/-- The call has accepted `bytes`. -/
def Kept (env : Env) (s : Session) (t : Trail) (bytes : List UInt8) (new : List Event)
    (m : Machine) : Prop :=
  ∃ flushed mode, Staging env s ⟨t.accepted ++ bytes, flushed, mode, new ++ t.events⟩ m ∧
    Closed s ⟨t.accepted ++ bytes, flushed, mode, new ++ t.events⟩

/-- The call has given up the update because a flash call failed. -/
def Lost (new : List Event) (m : Machine) : Prop :=
  GivenUp m.updater ∧ ∃ event ∈ new, ¬ event.Succeeded

theorem Traced.refl {env : Env} {s : Session} {t : Trail} {m : Machine}
    (st : Staging env s t m) (contained : Prop) : Traced s t contained m [] m :=
  ⟨Follows.refl _, st.writes, by simp⟩

theorem Traced.trans {s : Session} {t t' : Trail} {contained contained' : Prop}
    {m m' m'' : Machine} {new new' : List Event} (first : Traced s t contained m new m')
    (second : Traced s t' contained' m' new' m'') (events : t'.events = new ++ t.events)
    (later : contained → contained') : Traced s t contained m (new' ++ new) m'' where
  follows := first.follows.trans second.follows
  writes := by
    rw [List.append_assoc, ← events]
    exact second.writes
  inside := by
    intro holds event member
    rcases List.mem_append.mp member with late | early
    · exact second.inside (later holds) event late
    · exact first.inside holds event early

theorem Traced.weaken {s : Session} {t : Trail} {contained contained' : Prop} {m m' : Machine}
    {new : List Event} (traced : Traced s t contained m new m') (only : contained' → contained) :
    Traced s t contained' m new m' :=
  ⟨traced.follows, traced.writes, fun holds => traced.inside (only holds)⟩

theorem Kept.refl {env : Env} {s : Session} {t : Trail} {m : Machine} (st : Staging env s t m)
    (closed : Closed s t) : Kept env s t [] [] m :=
  ⟨t.flushed, t.mode, by rw [List.append_nil]; exact st, by rw [List.append_nil]; exact closed⟩

theorem Kept.after {env : Env} {s : Session} {t : Trail} {bytes bytes' : List UInt8}
    {new new' : List Event} {flushed : Nat} {mode : FlashMode} {m : Machine}
    (kept : Kept env s ⟨t.accepted ++ bytes, flushed, mode, new ++ t.events⟩ bytes' new' m) :
    Kept env s t (bytes ++ bytes') (new' ++ new) m := by
  unfold Kept at *
  simpa only [List.append_assoc] using kept

theorem Lost.after {new : List Event} {m : Machine} (lost : Lost new m) (older : List Event) :
    Lost (new ++ older) m := by
  obtain ⟨givenUp, event, member, failed⟩ := lost
  exact ⟨givenUp, event, List.mem_append_left _ member, failed⟩

namespace Staging

variable {env : Env} {s : Session} {t : Trail} {m : Machine}

/-- A full buffer ends at a multiple of its size. -/
theorem full_aligned (st : Staging env s t m) (unfinished : t.flushed ≠ s.size)
    {filled : Nat} (full : filled = s.bufferSize) : (t.flushed + filled) % s.bufferSize = 0 := by
  rw [full, Nat.add_mod_right]
  exact st.aligned.resolve_right unfinished

/-- Taking `bytes` into the buffer and flushing it, where the flush is due. -/
theorem fill_flush (st : Staging env s t m) (bytes : List UInt8)
    (room : m.updater.bufferLen + bytes.length ≤ s.bufferSize)
    (due : (m.updater.bufferLen + bytes.length = s.bufferSize ∧ t.flushed ≠ s.size) ∨
      t.accepted.length + bytes.length = s.size) :
    ∃ new, Traced s t (t.accepted.length + bytes.length ≤ s.size ∧
        (t.flushed < s.size ∨ s.size % flashSectorSize ≠ 0)) m new
        (writeBuffer env (m.fill bytes)).2 ∧
      (((writeBuffer env (m.fill bytes)).1 = true ∧ ∃ mode, Staging env s
          ⟨t.accepted ++ bytes, t.accepted.length + bytes.length, mode, new ++ t.events⟩
          (writeBuffer env (m.fill bytes)).2) ∨
        ((writeBuffer env (m.fill bytes)).1 = false ∧
          Lost new (writeBuffer env (m.fill bytes)).2)) := by
  have length := st.length
  have small := st.bufferLen_le
  have size := s.size_pos
  have bufferSize := s.bufferSize_eq
  have open_ : bytes = [] ∨ t.flushed ≠ s.size := by
    rcases due with ⟨-, unfinished⟩ | last
    · exact .inr unfinished
    · by_cases finished : t.flushed = s.size
      · exact .inl (List.length_eq_zero_iff.mp (by omega))
      · exact .inr finished
  have filled := st.fill bytes room open_
  have newLen : (m.fill bytes).updater.bufferLen = m.updater.bufferLen + bytes.length :=
    add32_of_lt (by omega)
  have total : t.flushed + (m.fill bytes).updater.bufferLen =
      t.accepted.length + bytes.length := by
    omega
  have next : (t.flushed + (m.fill bytes).updater.bufferLen) % s.bufferSize = 0 ∨
      t.flushed + (m.fill bytes).updater.bufferLen = s.size := by
    rcases due with ⟨full, unfinished⟩ | last
    · exact .inl (st.full_aligned unfinished (by omega))
    · exact .inr (by omega)
  obtain ⟨new, follows, writes, events, outcome⟩ := filled.flush next (by
    show t.flushed + (m.fill bytes).updater.bufferLen ≠ 0
    rcases due with ⟨full, -⟩ | last <;> omega)
  refine ⟨new, ⟨follows, writes, ?_⟩, ?_⟩
  · intro ⟨within, before⟩ event member
    exact (events event member).inside (total ▸ within) before
  · rcases outcome with ⟨ok, mode, kept⟩ | ⟨failed, unsuccessful, error, real, updater⟩
    · refine .inl ⟨ok, mode, ?_⟩
      rw [← total]
      exact kept
    · refine .inr ⟨failed, ?_, unsuccessful⟩
      rw [updater]
      exact givenUp_setError real _

/-- A pass that fills the buffer in the middle of the image and flushes it. -/
theorem fill_full (st : Staging env s t m) (bytes : List UInt8) {toBuff : Nat}
    (full : m.updater.bufferLen + toBuff = s.bufferSize) (offered : toBuff ≤ bytes.length)
    (open_ : t.accepted.length + toBuff < s.size) :
    ∃ new, Traced s t (t.flushed < s.size ∨ s.size % flashSectorSize ≠ 0) m new
        (writeBuffer env (m.fill (bytes.take toBuff))).2 ∧
      (((writeBuffer env (m.fill (bytes.take toBuff))).1 = true ∧ ∃ mode, Staging env s
            ⟨t.accepted ++ bytes.take toBuff, t.accepted.length + toBuff, mode, new ++ t.events⟩
            (writeBuffer env (m.fill (bytes.take toBuff))).2 ∧
          (writeBuffer env (m.fill (bytes.take toBuff))).2.updater.bufferLen = 0) ∨
        ((writeBuffer env (m.fill (bytes.take toBuff))).1 = false ∧
          Lost new (writeBuffer env (m.fill (bytes.take toBuff))).2)) := by
  have length := st.length
  have taken : (bytes.take toBuff).length = toBuff := by
    rw [List.length_take]
    omega
  obtain ⟨new, traced, outcome⟩ := st.fill_flush (bytes.take toBuff) (by omega)
    (.inl ⟨by omega, by omega⟩)
  refine ⟨new, traced.weaken fun before => ⟨by omega, before⟩, ?_⟩
  rw [taken] at outcome
  rcases outcome with ⟨ok, mode, kept⟩ | lost
  · have emptied := kept.length
    simp only [List.length_append, taken] at emptied
    exact .inl ⟨ok, mode, kept, by omega⟩
  · exact .inr lost

/-- Where no flush is due the call ends with the image still open. -/
theorem fill_open (st : Staging env s t m) (bytes : List UInt8)
    (room : m.updater.bufferLen + bytes.length ≤ s.bufferSize)
    (open_ : t.accepted.length + bytes.length < s.size) :
    Kept env s t bytes [] (m.fill bytes) := by
  have length := st.length
  exact ⟨t.flushed, t.mode, st.fill bytes room (.inr (by omega)), .inl (by
    rw [List.length_append]
    exact open_)⟩

/-- `_bufferLen + n == remaining()` says that `n` more bytes complete the image. -/
theorem completes (st : Staging env s t m) (n : Nat) (within : t.accepted.length + n ≤ s.size) :
    m.updater.bufferLen + n = m.updater.remaining ↔ t.accepted.length + n = s.size := by
  have length := st.length
  rw [st.remaining_of_le (by omega)]
  omega

end Staging

end Esp8266.Updater
