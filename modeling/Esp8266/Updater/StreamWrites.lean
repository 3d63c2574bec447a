import Esp8266.Updater.Calls

/-!
# writeStream

It flushes a buffer as soon as it is full, and asks for what is missing in flash without
counting what is in the buffer.
-/
set_option autoImplicit false

namespace Esp8266.Updater
open Esp8266.Lib.NorFlash Esp8266.Lib.Word32 Esp8266.Source.Esp Esp8266.Source.Updater

/-- A `readBytes` of the loop delivers more than the image is missing, in terms of the lengths
alone: `remaining()` does not count what is in the buffer. -/
def overruns (bufferSize : Nat) : List (Nat × Nat) → Nat → Nat → Nat → Bool
  | [], _, _, _ => false
  | grant :: grants, left, bufferLen, remaining =>
    let toRead := readTwice grant (min (bufferSize - bufferLen) remaining) left
    if toRead = 0 ∨ bufferLen + toRead = remaining then false
    else if remaining < bufferLen + toRead then true
    else if bufferLen + toRead = bufferSize then
      overruns bufferSize grants (left - toRead) 0 (remaining - bufferSize)
    else overruns bufferSize grants (left - toRead) (bufferLen + toRead) remaining

theorem readTwice_le (grant : Nat × Nat) (want left : Nat) :
    readTwice grant want left ≤ want ∧ readTwice grant want left ≤ left := by
  unfold readTwice
  dsimp only
  split <;> omega

namespace Staging

variable {env : Env} {s : Session} {t : Trail} {m : Machine}

/-- Recording something that is no flash change. -/
theorem note (st : Staging env s t m) {event : Event} (silent : event.Silent)
    (succeeded : event.Succeeded) :
    Staging env s { t with events := event :: t.events }
      { m with board := m.board.note event } := by
  have quiet : ∀ e ∈ [event], e.Silent := by
    intro e member
    rw [List.mem_singleton.mp member]
    exact silent
  exact {
    st with
    decoded := by
      rcases st.decoded with ⟨chip, earlier⟩ | ⟨started, unread, e, member, failed⟩
      · refine .inl ⟨chip, fun e member => ?_⟩
        rcases List.mem_cons.mp member with rfl | old
        · exact succeeded
        · exact earlier e old
      · exact .inr ⟨started, unread, e, List.mem_cons_of_mem _ member, failed⟩
    follows := st.follows.trans (m.board.note_follows event)
    erased := by
      intro a low high
      obtain ⟨blank, since⟩ := st.erased a low high
      exact ⟨blank, (erasedSince_silent quiet a).mpr since⟩
    writes := (wellErased_silent quiet).mpr st.writes
    settled := by
      intro e member
      rcases List.mem_cons.mp member with rfl | old
      · exact silent.settled
      · exact st.settled e old }

theorem traced_note (st : Staging env s t m) {event : Event} (silent : event.Silent)
    (succeeded : event.Succeeded) (contained : Prop) :
    Traced s t contained m [event] { m with board := m.board.note event } where
  follows := m.board.note_follows event
  writes := (st.note silent succeeded).writes
  inside := by
    intro _ e member
    rw [List.mem_singleton.mp member]
    exact s.inside_of_silent silent

theorem noted (st : Staging env s t m) (condition : Prop) [Decidable condition] {event : Event}
    (silent : event.Silent) (succeeded : event.Succeeded) (contained : Prop) :
    ∃ new, Traced s t contained m new
        (if condition then { m with board := m.board.note event } else m) ∧
      Staging env s { t with events := new ++ t.events }
        (if condition then { m with board := m.board.note event } else m) ∧
      (if condition then { m with board := m.board.note event } else m).updater = m.updater := by
  split
  · exact ⟨_, st.traced_note silent succeeded contained, st.note silent succeeded, rfl⟩
  · exact ⟨[], Traced.refl st contained, st, rfl⟩

/-- The progress callback is told, if there is one. -/
theorem told (st : Staging env s t m) (contained : Prop) :
    ∃ new, Traced s t contained m new (reportProgress m) ∧
      Staging env s { t with events := new ++ t.events } (reportProgress m) ∧
      (reportProgress m).updater = m.updater :=
  st.noted _ (show (Event.progress m.updater.progress m.updater.size).Silent from trivial)
    trivial contained

/-- A flush is due when the buffer is full or holds all that `remaining()` counts. -/
theorem due_cases (st : Staging env s t m) {filled : Nat} (small : filled ≤ s.bufferSize) :
    filled = m.updater.remaining ↔ t.flushed + filled = s.size := by
  have bound := st.bound
  have size := s.size_lt
  have bufferSize := s.bufferSize_eq
  rw [st.remaining_eq]
  unfold sub32
  omega

/-- One pass of the loop with the bytes that `readBytes` delivered. -/
theorem pass (st : Staging env s t m) (unfinished : t.flushed ≠ s.size) (got : List UInt8)
    (room : m.updater.bufferLen + got.length ≤ s.bufferSize) :
    ∃ new, Traced s t (t.accepted.length + got.length ≤ s.size) m new (streamPass env got m).2 ∧
      (((streamPass env got m).1 = true ∧ ∃ flushed mode,
          Staging env s ⟨t.accepted ++ got, flushed, mode, new ++ t.events⟩
            (streamPass env got m).2 ∧
          ((flushed = t.accepted.length + got.length ∧
              (m.updater.bufferLen + got.length = s.bufferSize ∨
                t.accepted.length + got.length = s.size)) ∨
            (flushed = t.flushed ∧ m.updater.bufferLen + got.length < s.bufferSize ∧
              t.accepted.length + got.length ≠ s.size))) ∨
        ((streamPass env got m).1 = false ∧ Lost new (streamPass env got m).2)) := by
  have length := st.length
  have small := s.bufferSize_eq
  have filled : (m.fill got).updater.bufferLen = m.updater.bufferLen + got.length :=
    add32_of_lt (by omega)
  have missing : (m.fill got).updater.remaining = m.updater.remaining := rfl
  have size : (m.fill got).updater.bufferSize = s.bufferSize := st.bufferSize
  have total : t.flushed + (m.updater.bufferLen + got.length) =
      t.accepted.length + got.length := by omega
  unfold streamPass
  simp only [filled, missing, size, st.due_cases room, total]
  by_cases due : t.accepted.length + got.length = s.size ∨
      m.updater.bufferLen + got.length = s.bufferSize
  · rw [if_pos due]
    obtain ⟨new, traced, outcome⟩ := st.fill_flush got room (by omega)
    have only : Traced s t (t.accepted.length + got.length ≤ s.size) m new _ :=
      traced.weaken fun within => ⟨within, .inl (by omega)⟩
    rcases flush : writeBuffer env (m.fill got) with ⟨ok, m'⟩
    rw [flush] at only outcome
    rcases outcome with ⟨rfl, mode, kept⟩ | ⟨rfl, lost⟩
    · obtain ⟨notes, noted, told, -⟩ := kept.told (t.accepted.length + got.length ≤ s.size)
      simp only [if_true]
      refine ⟨notes ++ new, Traced.trans only noted rfl id,
        .inl ⟨trivial, _, mode, ?_, .inl ⟨rfl, due.symm⟩⟩⟩
      simpa only [List.append_assoc] using told
    · exact ⟨new, only, .inr ⟨rfl, lost⟩⟩
  · rw [if_neg due]
    have kept := st.fill got room (.inr unfinished)
    obtain ⟨notes, noted, told, -⟩ := kept.told (t.accepted.length + got.length ≤ s.size)
    exact ⟨notes, ⟨noted.follows, noted.writes, noted.inside⟩,
      .inl ⟨rfl, _, _, told, .inr ⟨rfl, by omega, by omega⟩⟩⟩

end Staging

/-- The stream delivers the rest of the image, a byte or more each time it is asked, to a buffer
with room in it. -/
structure Served (s : Session) (t : Trail) (m : Machine) (grants : List (Nat × Nat))
    (left : Nat) : Prop where
  closed : Closed s t
  room : m.updater.bufferLen < s.bufferSize
  live : ∀ grant ∈ grants, 0 < grant.1
  enough : left ≤ grants.length
  rest : t.accepted.length + left = s.size

theorem overruns_zero (bufferSize : Nat) (grants : List (Nat × Nat)) (left bufferLen : Nat) :
    overruns bufferSize grants left bufferLen 0 = false := by
  cases grants with
  | nil => rfl
  | cons grant grants =>
    have most := readTwice_le grant (min (bufferSize - bufferLen) 0) left
    rw [overruns]
    exact if_pos (.inl (by omega))

/-- A pass that does not overrun, and what it leaves for the next one. -/
theorem overruns_pass {bufferSize left bufferLen remaining toRead : Nat} {grant : Nat × Nat}
    {grants : List (Nat × Nat)}
    (safe : overruns bufferSize (grant :: grants) left bufferLen remaining = false)
    (read : readTwice grant (min (bufferSize - bufferLen) remaining) left = toRead)
    (some : toRead ≠ 0) :
    bufferLen + toRead ≤ remaining ∧ (bufferLen + toRead ≠ remaining →
      (bufferLen + toRead = bufferSize →
        overruns bufferSize grants (left - toRead) 0 (remaining - bufferSize) = false) ∧
      (bufferLen + toRead ≠ bufferSize →
        overruns bufferSize grants (left - toRead) (bufferLen + toRead) remaining = false)) := by
  rw [overruns, read] at safe
  by_cases last : bufferLen + toRead = remaining
  · exact ⟨by omega, fun unfinished => absurd last unfinished⟩
  · rw [if_neg (by omega)] at safe
    by_cases above : remaining < bufferLen + toRead
    · rw [if_pos above] at safe
      cases safe
    · rw [if_neg above] at safe
      refine ⟨by omega, fun _ => ⟨fun full => ?_, fun partial_ => ?_⟩⟩
      · rw [if_pos full] at safe
        exact safe
      · rw [if_neg partial_] at safe
        exact safe

theorem Staging.bytesToRead_eq {env : Env} {s : Session} {t : Trail} {m : Machine}
    (st : Staging env s t m) :
    bytesToRead m.updater = min (s.bufferSize - m.updater.bufferLen) m.updater.remaining := by
  have fits := st.fits
  have bufferSize := s.bufferSize_eq
  unfold bytesToRead
  rw [st.bufferSize, sub32_of_le fits (by omega)]
  dsimp only
  split <;> omega

theorem writeStreamLoop_spec {env : Env} {s : Session} (grants : List (Nat × Nat)) :
    ∀ (bytes : List UInt8) (written : Nat) (t : Trail) (m : Machine), Staging env s t m →
      ∃ n new, Traced s t (t.accepted.length ≤ s.size ∧ overruns s.bufferSize grants bytes.length
            m.updater.bufferLen (s.size - t.flushed) = false) m new
          (writeStreamLoop env grants bytes written m).2 ∧
        (((writeStreamLoop env grants bytes written m).1 = written + n ∧ n ≤ bytes.length ∧
            Kept env s t (bytes.take n) new (writeStreamLoop env grants bytes written m).2 ∧
            t.accepted.length + n = s.size) ∨
          Lost new (writeStreamLoop env grants bytes written m).2 ∨
          (GivenUp (writeStreamLoop env grants bytes written m).2.updater ∧
            ¬ Served s t m grants bytes.length)) := by
  have finish : ∀ (bytes : List UInt8) (written : Nat) (t : Trail) (m : Machine)
      (contained : Prop), Staging env s t m → t.flushed = s.size →
      ∃ new, Traced s t contained m new (reportProgress m) ∧
        Kept env s t (bytes.take 0) new (reportProgress m) ∧ t.accepted.length + 0 = s.size := by
    intro bytes written t m contained st finished
    have length := st.length
    have empty := st.complete finished
    obtain ⟨notes, noted, told, -⟩ := st.told contained
    refine ⟨notes, noted, ⟨t.flushed, t.mode, ?_, ?_⟩, by omega⟩
    · rw [List.take_zero, List.append_nil]
      exact told
    · rw [List.take_zero, List.append_nil]
      exact .inr ⟨by simp only; omega, finished⟩
  induction grants with
  | nil =>
    intro bytes written t m st
    rw [writeStreamLoop]
    by_cases finished : t.flushed = s.size
    · rw [if_pos (st.remaining_eq_zero.mpr finished)]
      obtain ⟨new, traced, kept, whole⟩ := finish bytes written t m _ st finished
      exact ⟨0, new, traced, .inl ⟨rfl, Nat.zero_le _, kept, whole⟩⟩
    · rw [if_neg (by rw [st.remaining_eq_zero]; exact finished)]
      refine ⟨0, [], ⟨Follows.refl _, st.writes, by simp⟩,
        .inr (.inr ⟨givenUp_setError (by decide) _, ?_⟩)⟩
      intro served
      have none := served.enough
      have rest := served.rest
      rw [List.length_nil] at none
      rcases served.closed with open_ | ⟨-, whole⟩
      · omega
      · exact finished whole
  | cons grant grants ih =>
    intro bytes written t m st
    rw [writeStreamLoop]
    by_cases finished : t.flushed = s.size
    · rw [if_pos (st.remaining_eq_zero.mpr finished)]
      obtain ⟨new, traced, kept, whole⟩ := finish bytes written t m _ st finished
      exact ⟨0, new, traced, .inl ⟨rfl, Nat.zero_le _, kept, whole⟩⟩
    · rw [if_neg (by rw [st.remaining_eq_zero]; exact finished), st.bytesToRead_eq]
      have length := st.length
      have fits := st.fits
      have missing : t.flushed ≤ s.size → m.updater.remaining = s.size - t.flushed :=
        st.remaining_of_le
      have most := readTwice_le grant
        (min (s.bufferSize - m.updater.bufferLen) m.updater.remaining) bytes.length
      generalize read : readTwice grant
        (min (s.bufferSize - m.updater.bufferLen) m.updater.remaining) bytes.length = toRead at *
      by_cases timeout : toRead = 0
      · simp only [if_pos timeout]
        refine ⟨0, [], ⟨Follows.refl _, st.writes, by simp⟩,
          .inr (.inr ⟨givenUp_setError (by decide) _, ?_⟩)⟩
        intro served
        have room := served.room
        have rest := served.rest
        have live := served.live grant List.mem_cons_self
        have open_ : t.accepted.length < s.size := by
          rcases served.closed with open_ | ⟨-, whole⟩
          · exact open_
          · exact absurd whole finished
        have left := missing (by omega)
        unfold readTwice at read
        dsimp only at read
        rw [if_neg (by omega)] at read
        omega
      · simp only [if_neg timeout]
        have taken : (bytes.take toRead).length = toRead := by
          rw [List.length_take]
          omega
        obtain ⟨new, traced, outcome⟩ := st.pass finished (bytes.take toRead) (by omega)
        rcases passed : streamPass env (bytes.take toRead) m with ⟨ok, m'⟩
        rw [passed, taken] at traced outcome
        have first : Traced s t (t.accepted.length ≤ s.size ∧ overruns s.bufferSize
            (grant :: grants) bytes.length m.updater.bufferLen (s.size - t.flushed) = false)
            m new m' := by
          apply traced.weaken
          intro ⟨inside, contained⟩
          rw [← missing (by omega)] at contained
          have within := (overruns_pass contained read timeout).1
          rw [missing (by omega)] at within
          omega
        rcases outcome with ⟨rfl, flushed, mode, kept, reached⟩ | ⟨rfl, lost⟩
        · have grown : (t.accepted ++ bytes.take toRead).length = t.accepted.length + toRead := by
            rw [List.length_append, taken]
          have bufferLen := kept.length
          simp only [grown] at bufferLen
          obtain ⟨n, new', traced', outcome'⟩ := ih (bytes.drop toRead) (written + toRead) _ m' kept
          rw [List.length_drop] at traced' outcome'
          refine ⟨toRead + n, new' ++ new, Traced.trans first traced' rfl ?_, ?_⟩
          · intro ⟨inside, contained⟩
            rw [← missing (by omega)] at contained
            obtain ⟨within, next⟩ := overruns_pass contained read timeout
            rw [missing (by omega)] at within next
            simp only [grown]
            refine ⟨by omega, ?_⟩
            rcases reached with ⟨rfl, full | last⟩ | ⟨rfl, partial_, open_⟩
            · by_cases last : t.accepted.length + toRead = s.size
              · rw [last, Nat.sub_self]
                exact overruns_zero _ _ _ _
              · have safe := (next (by omega)).1 full
                rw [show m'.updater.bufferLen = 0 by omega,
                  show s.size - (t.accepted.length + toRead) =
                    s.size - t.flushed - s.bufferSize by omega]
                exact safe
            · rw [last, Nat.sub_self]
              exact overruns_zero _ _ _ _
            · have safe := (next (by omega)).2 (by omega)
              rw [show m'.updater.bufferLen = m.updater.bufferLen + toRead by omega]
              exact safe
          · rcases outcome' with ⟨count, most', keeps, whole⟩ | lost | ⟨givenUp, unserved⟩
            · simp only [grown] at whole
              refine .inl ⟨count.trans (Nat.add_assoc ..), by omega, ?_, by omega⟩
              rw [List.take_add]
              exact keeps.after
            · exact .inr (.inl (lost.after new))
            · refine .inr (.inr ⟨givenUp, ?_⟩)
              intro served
              have rest := served.rest
              have room := served.room
              have enough := served.enough
              have bufferSize := s.bufferSize_eq
              rw [List.length_cons] at enough
              apply unserved
              refine ⟨?_, ?_, fun g member => served.live g (List.mem_cons_of_mem _ member),
                by omega, by simp only [grown]; omega⟩
              · unfold Closed
                simp only [grown]
                omega
              · omega
        · exact ⟨0, new, first, .inr (.inl lost)⟩

/-- The first byte is checked for a sketch only. -/
theorem verifyHeader_cases {env : Env} {s : Session} {t : Trail} {m : Machine}
    (st : Staging env s t m) (data : UInt8) :
    verifyHeader data m = (true, m) ∨
      (verifyHeader data m = (false, m.setError .magicByte) ∧
        s.command = uFlash ∧ data ≠ 0xe9 ∧ data ≠ 0x1f) := by
  unfold verifyHeader
  rw [st.command]
  rcases s.command_known with sketch | fileSystem
  · rw [if_pos sketch]
    by_cases bad : data ≠ 0xe9 ∧ data ≠ 0x1f
    · exact .inr ⟨if_pos bad, sketch, bad⟩
    · exact .inl (if_neg bad)
  · rw [if_neg (by rw [fileSystem]; decide), if_pos fileSystem]
    exact .inl rfl

/-- **`writeStream(stream)`.** It takes what completes the image, or gives up: for a first byte
that is no header, for a timeout, or with a flash call. Its reads may overrun the image. -/
theorem writeStream_spec {env : Env} {s : Session} {t : Trail} {m : Machine}
    (st : Staging env s t m) (stream : Stream) :
    ∃ n new, Traced s t (t.accepted.length ≤ s.size ∧ overruns s.bufferSize stream.grants
          stream.bytes.length m.updater.bufferLen (s.size - t.flushed) = false) m new
        (writeStream env stream m).2 ∧
      (((writeStream env stream m).1 = n ∧ n ≤ stream.bytes.length ∧
          Kept env s t (stream.bytes.take n) new (writeStream env stream m).2 ∧
          t.accepted.length + n = s.size) ∨
        Lost new (writeStream env stream m).2 ∨
        (GivenUp (writeStream env stream m).2.updater ∧
          ((s.command = uFlash ∧ stream.peek ≠ 0xe9 ∧ stream.peek ≠ 0x1f) ∨
            ¬ Served s t m stream.grants stream.bytes.length))) := by
  unfold writeStream
  rw [if_neg (by rw [st.running]; decide)]
  rcases verifyHeader_cases st stream.peek with good | ⟨bad, header⟩
  · simp only [good, Bool.not_true, Bool.false_eq_true, if_false]
    obtain ⟨notes, noted, kept, same⟩ := st.noted (m.updater.progressCallback = true)
      (show (Event.progress 0 m.updater.size).Silent from trivial) trivial
      (t.accepted.length ≤ s.size ∧ overruns s.bufferSize stream.grants stream.bytes.length
        m.updater.bufferLen (s.size - t.flushed) = false)
    obtain ⟨n, new, traced, outcome⟩ := writeStreamLoop_spec stream.grants stream.bytes 0 _ _ kept
    rw [same] at traced
    refine ⟨n, new ++ notes, Traced.trans noted traced rfl id, ?_⟩
    rcases outcome with ⟨count, most, keeps, whole⟩ | lost | ⟨givenUp, unserved⟩
    · refine .inl ⟨by omega, most, ?_, whole⟩
      unfold Kept at keeps ⊢
      simpa only [List.append_assoc] using keeps
    · exact .inr (.inl (lost.after notes))
    · refine .inr (.inr ⟨givenUp, .inr ?_⟩)
      intro served
      exact unserved ⟨served.closed, by rw [same]; exact served.room, served.live, served.enough,
        served.rest⟩
  · simp only [bad, Bool.not_false, if_true]
    exact ⟨0, [], ⟨Follows.refl _, st.writes, by simp⟩,
      .inr (.inr ⟨⟨idle_reset _, by simp [Machine.reset, Machine.setError, UpdaterClass.setError,
        UpdaterClass.reset]⟩, .inl header⟩)⟩

end Esp8266.Updater
