import Esp8266.Source.OtaUpdate
import Esp8266.Updater.Remaining

/-!
# What ArduinoOTA reports

A run of `_runUpdate` reports its update once as long as the sender never lets a wait come to 1000
empty polls and the connection was made: behind a refused connection and behind a late byte the
code goes on to report again, and a sender that stays silent is not reported at all.
-/
set_option autoImplicit false

namespace Esp8266.Source.OtaUpdate
open Esp8266.Lib.Word32 Esp8266.Source.Esp Esp8266.Source.Updater Esp8266.Updater

/-! ## The client -/

/-- What is in the receive buffer will be delivered, and is counted in 16 bits. -/
structure Client.Sound (c : Client) : Prop where
  delivered : c.pending ≤ c.bytes.length
  counted : c.pending < 2 ^ 16

namespace Client

@[simp] theorem look_bytes (c : Client) : c.look.bytes = c.bytes := rfl

theorem look_sound (c : Client) : c.look.Sound := by
  constructor
  · exact Nat.min_le_right _ _
  · change min (min _ (2 ^ 16 - 1)) _ < 2 ^ 16
    omega

/-- Looking loses nothing. -/
theorem pending_le_look {c : Client} (sound : c.Sound) : c.pending ≤ c.look.pending := by
  have delivered := sound.delivered
  have counted := sound.counted
  change c.pending ≤ min (min (c.pending + _) (2 ^ 16 - 1)) c.bytes.length
  omega

theorem read_sound {c : Client} (sound : c.Sound) (n : Nat) : (c.read n).Sound := by
  have delivered := sound.delivered
  have counted := sound.counted
  constructor
  · change c.pending - n ≤ (c.bytes.drop n).length
    rw [List.length_drop]
    omega
  · change c.pending - n < 2 ^ 16
    omega

end Client

/-- A wait that ends with data. -/
theorem waitForData_found (waited : Nat) :
    ∀ (c : Client) (left : Nat), (waitForData waited c).1 = some left →
      (waitForData waited c).2.Sound ∧ 0 < (waitForData waited c).2.pending := by
  induction waited with
  | zero =>
    intro c left found
    rw [waitForData] at found ⊢
    split
    · rename_i some_
      exact ⟨c.look_sound, Nat.pos_of_ne_zero some_⟩
    · rename_i none_
      rw [if_neg none_] at found
      cases found
  | succ waited ih =>
    intro c left found
    rw [waitForData] at found ⊢
    split
    · rename_i some_
      exact ⟨c.look_sound, Nat.pos_of_ne_zero some_⟩
    · rename_i none_
      rw [if_neg none_] at found
      exact ih c.look left found

/-! ## Update.write(client) -/

/-- What a write from the client leaves: an update that was given up, or one that has taken `k`
more bytes and is complete or has emptied the receive buffer. -/
def Wrote (env : Env) (s : Session) (t : Trail) (c : Client) (result : Nat × Client × Machine) :
    Prop :=
  GivenUp result.2.2.updater ∨ ∃ t' k, Staging env s t' result.2.2 ∧ Closed s t' ∧
    t'.accepted.length = t.accepted.length + k ∧ (t'.flushed = s.size ∨ c.pending ≤ k)

theorem writeClientLoop_spec {env : Env} {s : Session} (fuel : Nat) :
    ∀ (c : Client) (written : Nat) (t : Trail) (m : Machine), Staging env s t m → Closed s t →
      c.Sound →
      2 * c.bytes.length + (if m.updater.bufferLen = s.bufferSize then 1 else 0) < fuel →
      Wrote env s t c (writeClientLoop env fuel c written m) := by
  induction fuel with
  | zero => intro c written t m _ _ _ enough; omega
  | succ fuel ih =>
    intro c written t m st closed sound enough
    have more := Client.pending_le_look sound
    have delivered := c.look_sound.delivered
    have counted := c.look_sound.counted
    have same := c.look_bytes
    have looked := c.look_sound
    have length := st.length
    have size := s.size_lt
    have bufferSize := s.bufferSize_eq
    have fits := st.fits
    rw [writeClientLoop]
    generalize c.look = c' at *
    rw [same] at delivered
    by_cases dry : c'.pending = 0
    · rw [if_pos dry]
      exact .inr ⟨t, 0, st, closed, rfl, .inr (by omega)⟩
    · have inside : t.accepted.length ≤ s.size := by
        rcases closed with open_ | ⟨complete, -⟩ <;> omega
      simp only [if_neg dry, st.available_eq closed (show c'.pending < 2 ^ 31 by omega), same]
      generalize offer : min c'.pending (s.size - t.accepted.length) = available
      have within : t.accepted.length + available ≤ s.size := by omega
      have sum : add32 m.updater.bufferLen available = m.updater.bufferLen + available :=
        add32_of_lt (by omega)
      by_cases above : m.updater.bufferLen + available > s.bufferSize
      · -- the pass fills the buffer and leaves bytes of the offer to the next one
        have room : sub32 s.bufferSize m.updater.bufferLen =
            s.bufferSize - m.updater.bufferLen := sub32_of_le fits (by omega)
        rw [if_pos (by rw [sum, st.bufferSize]; exact above), st.bufferSize, room]
        generalize part : s.bufferSize - m.updater.bufferLen = toBuff
        obtain ⟨new, -, outcome⟩ := st.fill_full c.bytes (show _ + toBuff = _ by omega)
          (by omega) (by omega)
        rcases flush : writeBuffer env (m.fill (c.bytes.take toBuff)) with ⟨ok, m'⟩
        rw [flush] at outcome
        rcases outcome with ⟨rfl, mode, kept, emptied⟩ | ⟨rfl, lost⟩
        · have grown : (t.accepted ++ c.bytes.take toBuff).length =
              t.accepted.length + toBuff := by
            rw [List.length_append, List.length_take]
            omega
          have missing : m'.updater.remaining ≠ 0 := by
            rw [ne_eq, kept.remaining_eq_zero]
            change t.accepted.length + toBuff ≠ s.size
            omega
          simp only [Bool.not_true, Bool.false_eq_true, if_false, if_neg missing]
          have rest : (c'.read toBuff).bytes.length = c.bytes.length - toBuff := by
            rw [← same]
            exact List.length_drop
          have next := ih (c'.read toBuff) (written + toBuff) _ m' kept
            (.inl (by simp only [grown]; omega)) (Client.read_sound looked toBuff)
            (by
              rw [emptied, if_neg (by omega), rest]
              split at enough <;> omega)
          rcases next with givenUp | ⟨t', k, st', closed', count, ends⟩
          · exact .inl givenUp
          · refine .inr ⟨t', toBuff + k, st', closed', ?_, ?_⟩
            · rw [count, grown]
              omega
            · rcases ends with finished | drained
              · exact .inl finished
              · right
                change c'.pending - toBuff ≤ k at drained
                omega
        · exact .inl lost.1
      · -- the offer fits; it is flushed when it completes the image
        have taken : (c.bytes.take available).length = available := by
          rw [List.length_take]
          omega
        have filled : (m.fill (c.bytes.take available)).updater.bufferLen =
            m.updater.bufferLen + available := by
          rw [← sum]
          exact congrArg (add32 m.updater.bufferLen) taken
        have missing : (m.fill (c.bytes.take available)).updater.remaining =
            m.updater.remaining := rfl
        rw [if_neg (by rw [sum, st.bufferSize]; exact above)]
        simp only [filled, missing, st.completes available within]
        by_cases last : t.accepted.length + available = s.size
        · obtain ⟨new, -, outcome⟩ := st.fill_flush (c.bytes.take available)
            (by omega) (.inr (by omega))
          rw [taken] at outcome
          rcases flush : writeBuffer env (m.fill (c.bytes.take available)) with ⟨ok, m'⟩
          rw [flush] at outcome
          rcases outcome with ⟨rfl, mode, kept⟩ | ⟨rfl, lost⟩
          · have finished : m'.updater.remaining = 0 := kept.remaining_eq_zero.mpr last
            simp only [if_pos last, Bool.not_true, Bool.false_eq_true, if_false,
              if_pos finished]
            have whole : (t.accepted ++ c.bytes.take available).length =
                t.accepted.length + available := by
              rw [List.length_append, taken]
            exact .inr ⟨_, available, kept, .inr ⟨whole.trans last, last⟩, whole, .inl last⟩
          · simp only [if_pos last, Bool.not_false, if_true]
            exact .inl lost.1
        · have unfinished : m.updater.remaining ≠ 0 := by
            rw [ne_eq, st.remaining_eq_zero]
            omega
          simp only [if_neg last, if_neg unfinished]
          have kept := st.fill (c.bytes.take available) (by omega) (.inr (by omega))
          have grown : (t.accepted ++ c.bytes.take available).length =
              t.accepted.length + available := by
            rw [List.length_append, taken]
          have rest : (c'.read available).bytes.length = c.bytes.length - available := by
            rw [← same]
            exact List.length_drop
          have next := ih (c'.read available) (written + available) _ _ kept
            (.inl (by simp only [grown]; omega)) (Client.read_sound looked available)
            (by
              rw [rest]
              split <;> split at enough <;> omega)
          rcases next with givenUp | ⟨t', k, st', closed', count, ends⟩
          · exact .inl givenUp
          · refine .inr ⟨t', available + k, st', closed', ?_, ?_⟩
            · rw [count, grown]
              omega
            · rcases ends with finished | drained
              · exact .inl finished
              · right
                change c'.pending - available ≤ k at drained
                omega

/-- **`Update.write(client)`** with data in the receive buffer. -/
theorem writeClient_spec {env : Env} {s : Session} {t : Trail} {m : Machine}
    (st : Staging env s t m) (closed : Closed s t) {c : Client} (sound : c.Sound) :
    Wrote env s t c (writeClient env c m) := by
  rw [writeClient, if_neg (by rw [st.running]; decide)]
  refine writeClientLoop_spec _ c 0 t m st closed sound ?_
  split <;> omega

/-! ## The notes of the loop -/

/-- Notes of the loop. -/
def Note.Looped : Note → Prop
  | .silence => True
  | .error e => e = .receive
  | .received _ => True
  | _ => False

def Note.Received : Note → Prop
  | .received _ => True
  | _ => False

theorem Note.Received.looped {note : Note} (received : note.Received) : note.Looped := by
  cases note with
  | received n => trivial
  | error | endCallback | silence | ended => exact received.elim

namespace Run

/-- No wait of the first `n` passes comes to 1000 empty polls. -/
def Prompt (env : Env) : Nat → Run → Prop
  | 0, _ => True
  | n + 1, r =>
    r.again.1 = true →
      (∃ left, (waitForData 1000 r.again.2.client).1 = some (left + 1)) ∧
        Prompt env n (r.again.2.pass env)

theorem again_notes (r : Run) : r.again.2.notes = r.notes ∧ r.again.2.machine = r.machine := by
  rw [again]
  split
  · exact ⟨rfl, rfl⟩
  · dsimp only
    split <;> exact ⟨rfl, rfl⟩

theorem waitNotes_looped (waited : Option Nat) : ∀ note ∈ waitNotes waited, note.Looped := by
  rcases waited with _ | _ | waited <;> simp [waitNotes, Note.Looped]

/-- A wait is noted unless data came in time. -/
theorem silence_mem_waitNotes (waited : Option Nat) :
    .silence ∈ waitNotes waited ∨ ∃ left, waited = some (left + 1) := by
  rcases waited with _ | _ | waited
  · exact .inl List.mem_cons_self
  · exact .inl List.mem_cons_self
  · exact .inr ⟨waited, rfl⟩

/-- What a pass notes: its wait, and what it has received. -/
theorem pass_notes (env : Env) (r : Run) :
    ∃ taken, (r.pass env).notes =
        r.notes ++ (waitNotes (waitForData 1000 r.client).1 ++ taken) ∧
      ∀ note ∈ taken, note.Received := by
  refine ⟨_, List.append_assoc _ _ _, ?_⟩
  intro note member
  split at member
  · rw [List.mem_singleton.mp member]
    trivial
  · cases member

/-- The notes of a loop, and that they tell whether all its waits were prompt. -/
theorem loop_notes (env : Env) (fuel : Nat) : ∀ (r r' : Run), loop env fuel r = some r' →
    ∃ more, r'.notes = r.notes ++ more ∧ (∀ note ∈ more, note.Looped) ∧
      (.silence ∉ more → ∀ n, Prompt env n r) ∧
      ((∀ n, Prompt env n r) → ∀ note ∈ more, note.Received) := by
  induction fuel with
  | zero => intro r r' done; cases done
  | succ fuel ih =>
    intro r r' done
    obtain ⟨notes, -⟩ := r.again_notes
    rw [loop] at done
    dsimp only at done
    by_cases more : r.again.1 = true
    · rw [if_pos more] at done
      obtain ⟨later, appended, looped, only, received⟩ := ih _ _ done
      obtain ⟨taken, passed, takes⟩ := pass_notes env r.again.2
      refine ⟨waitNotes (waitForData 1000 r.again.2.client).1 ++ taken ++ later, ?_, ?_, ?_, ?_⟩
      · rw [appended, passed, notes, List.append_assoc, List.append_assoc]
      · intro note member
        rcases List.mem_append.mp member with now | then_
        · rcases List.mem_append.mp now with wait | took
          · exact waitNotes_looped _ note wait
          · exact (takes note took).looped
        · exact looped note then_
      · intro quiet n
        have unnoted : .silence ∉ waitNotes (waitForData 1000 r.again.2.client).1 := fun noted =>
          quiet (List.mem_append_left _ (List.mem_append_left _ noted))
        cases n with
        | zero => trivial
        | succ n =>
          intro _
          refine ⟨(silence_mem_waitNotes _).resolve_left unnoted, only ?_ n⟩
          exact fun noted => quiet (List.mem_append_right _ noted)
      · intro prompt note member
        obtain ⟨left, found⟩ := (prompt 1 more).1
        rw [found] at member
        rcases List.mem_append.mp member with now | then_
        · exact takes note now
        · exact received (fun n => (prompt (n + 1) more).2) note then_
    · rw [if_neg more, Option.some.injEq] at done
      refine ⟨[], ?_, by simp, ?_, by simp⟩
      · rw [← done, notes, List.append_nil]
      · intro _ n
        cases n with
        | zero => trivial
        | succ n => exact fun again => absurd again more

/-! ## The end of the loop -/

/-- Where the loop is: an update that was given up or is going on, with `left` bytes missing. -/
def Going (env : Env) (s : Session) (left : Nat) (r : Run) : Prop :=
  GivenUp r.machine.updater ∨ ∃ t, Staging env s t r.machine ∧ Closed s t ∧
    s.size - t.accepted.length ≤ left

theorem again_of_givenUp {r : Run} (givenUp : GivenUp r.machine.updater) :
    r.again = (false, r) := by
  have idle := givenUp.idle
  have finished : r.machine.updater.isFinished = true := by
    rw [UpdaterClass.isFinished, idle.currentAddress, idle.startAddress, idle.size]
    rfl
  rw [again, if_pos finished]

/-- **The loop ends** when every wait is prompt: each pass takes a byte, or gives up. -/
theorem loop_ends (env : Env) (s : Session) (fuel : Nat) : ∀ (left : Nat) (r : Run),
    Going env s left r → (∀ n, Prompt env n r) → left < fuel → (loop env fuel r).isSome := by
  induction fuel with
  | zero => intro left r _ _ enough; omega
  | succ fuel ih =>
    intro left r going prompt enough
    obtain ⟨-, machine⟩ := r.again_notes
    rw [loop]
    dsimp only
    by_cases more : r.again.1 = true
    · rw [if_pos more]
      rcases going with givenUp | ⟨t, st, closed, missing⟩
      · rw [again_of_givenUp givenUp] at more
        cases more
      · have open_ : t.accepted.length < s.size := by
          rcases closed with open_ | ⟨-, complete⟩
          · exact open_
          · have finished : r.machine.updater.isFinished = true := st.isFinished_iff.mpr complete
            rw [again, if_pos finished] at more
            cases more
        obtain ⟨⟨waited, found⟩, later⟩ := prompt 1 more
        obtain ⟨sound, some_⟩ := waitForData_found 1000 r.again.2.client _ found
        rw [← machine] at st
        have wrote := writeClient_spec st closed sound
        refine ih (left - 1) _ ?_ (fun n => (prompt (n + 1) more).2) ?_
        · rcases wrote with givenUp | ⟨t', k, st', closed', count, ends⟩
          · exact .inl givenUp
          · refine .inr ⟨t', st', closed', ?_⟩
            rcases ends with finished | drained
            · have length := st'.length
              omega
            · omega
        · omega
    · rw [if_neg more]
      rfl

end Run

/-! ## The reports -/

def Note.isCallback : Note → Bool
  | .error _ => true
  | .endCallback => true
  | _ => false

/-- An update is reported once: one callback, that of the end exactly when `Update.end()` has
returned true, and a late sender exactly when it was silent for 1000 polls, with nothing taken
from it afterwards. -/
structure Reports (notes : List Note) : Prop where
  once : (notes.filter Note.isCallback).length = 1
  ended : .endCallback ∈ notes ↔ .ended true ∈ notes
  late : .error .receive ∈ notes ↔ .silence ∈ notes
  after : ∀ before behind, notes = before ++ .error .receive :: behind →
    ∀ n, .received n ∉ behind

/-- What `Update.end()` adds. -/
theorem finish_notes (env : Env) (r : Run) :
    ∃ ok, (r.finish env).notes =
      r.notes ++ [.ended ok, if ok then .endCallback else .error .ended] :=
  ⟨_, rfl⟩

/-- One report in all leaves none to the loop and to what was before it. -/
theorem Reports.none_before {notes : List Note} {ok : Bool}
    (reports : Reports (notes ++ [.ended ok, if ok then .endCallback else .error .ended])) :
    ∀ note ∈ notes, note.isCallback = false := by
  have once := reports.once
  rw [List.filter_append, List.length_append] at once
  have last : ([.ended ok, if ok then .endCallback else .error .ended].filter
      Note.isCallback).length = 1 := by
    cases ok <;> rfl
  have none : (notes.filter Note.isCallback).length = 0 := by omega
  intro note member
  have nothing := List.filter_eq_nil_iff.mp (List.eq_nil_of_length_eq_zero none) note member
  simpa using nothing

/-- Behind notes of bytes alone, the end is the one report. -/
theorem reports_received {notes : List Note} (received : ∀ note ∈ notes, note.Received)
    (ok : Bool) :
    Reports (notes ++ [.ended ok, if ok then .endCallback else .error .ended]) := by
  have others : ∀ note, ¬ note.Received →
      (note ∈ notes ++ [.ended ok, if ok then .endCallback else .error .ended] ↔
        note = .ended ok ∨ note = if ok then .endCallback else .error .ended) := by
    intro note other
    rw [List.mem_append, List.mem_cons, List.mem_singleton]
    exact ⟨fun member => member.resolve_left fun some => other (received note some), .inr⟩
  have silent : .error .receive ∉
      notes ++ [.ended ok, if ok then .endCallback else .error .ended] := by
    rw [others _ id]
    cases ok <;> simp
  constructor
  · have none : notes.filter Note.isCallback = [] := by
      rw [List.filter_eq_nil_iff]
      intro note member
      have only := received note member
      cases note with
      | received n => exact Bool.false_ne_true
      | error | endCallback | silence | ended => exact only.elim
    rw [List.filter_append, none]
    cases ok <;> rfl
  · rw [others _ id, others _ id]
    cases ok <;> simp
  · rw [others .silence id]
    refine ⟨fun late => absurd late silent, ?_⟩
    cases ok <;> simp
  · intro before behind split
    rw [split] at silent
    exact absurd (List.mem_append_right _ List.mem_cons_self) silent

/-- Where the loop starts after a `begin` that succeeded. -/
theorem connect_going {env : Env} {inv : Invitation} {m : Machine} (fits : inv.size < 2 ^ 32)
    (began : (begin env inv.size inv.cmd inv.around m).1 = true) :
    ∃ s, Run.Going env s inv.size (connect inv (begin env inv.size inv.cmd inv.around m).2) := by
  rcases begin_cases env inv.size inv.cmd inv.around m fits with ⟨-, refused⟩ | ⟨-, -, outcome⟩
  · rw [refused] at began
    cases began
  · rcases outcome with ⟨failed, -⟩ | ⟨-, s, begun⟩
    · rw [failed] at began
      cases began
    · obtain ⟨target, set⟩ := setMD5_cases inv.md5 (begin env inv.size inv.cmd inv.around m).2
      refine ⟨s, .inr ⟨⟨[], 0, s.chipMode, []⟩, ?_, .inl s.size_pos, Nat.le_of_eq begun.size_eq⟩⟩
      have machine : (connect inv (begin env inv.size inv.cmd inv.around m).2).machine =
          (setMD5 inv.md5 (begin env inv.size inv.cmd inv.around m).2).2 := by
        rw [connect]
        split <;> rfl
      rw [machine, set]
      exact begun.staging.retarget target

theorem runUpdate_eq (env : Env) (inv : Invitation) (fuel : Nat) (m : Machine) :
    runUpdate env inv fuel m =
      if (!(begin env inv.size inv.cmd inv.around m).1) = true then
        some ⟨(begin env inv.size inv.cmd inv.around m).2, .refused, [.error .begin]⟩
      else
        (Run.loop env fuel (connect inv (begin env inv.size inv.cmd inv.around m).2)).map
          (Run.finish env) := by
  rw [runUpdate]

/-- **An update is reported once** exactly when it could not begin, or when the connection was
made and no wait for data comes to 1000 empty polls. -/
theorem reports_once (env : Env) (inv : Invitation) (m : Machine) (fits : inv.size < 2 ^ 32) :
    (∃ fuel r, runUpdate env inv fuel m = some r ∧ Reports r.notes) ↔
      (begin env inv.size inv.cmd inv.around m).1 = false ∨
        inv.accepts = true ∧ ∀ n, Run.Prompt env n
          (connect inv (begin env inv.size inv.cmd inv.around m).2) := by
  cases began : (begin env inv.size inv.cmd inv.around m).1 with
  | false =>
    refine ⟨fun _ => .inl rfl, fun _ => ⟨0, _, by rw [runUpdate_eq, began]; rfl, ?_⟩⟩
    refine ⟨rfl, by simp, by simp, ?_⟩
    intro before behind split
    have all : [Note.error .begin] = before ++ .error .receive :: behind := split
    have member : .error .receive ∈ [Note.error .begin] := by
      rw [all]
      exact List.mem_append_right _ List.mem_cons_self
    simp at member
  | true =>
    have run (fuel : Nat) : runUpdate env inv fuel m =
        (Run.loop env fuel (connect inv (begin env inv.size inv.cmd inv.around m).2)).map
          (Run.finish env) := by
      rw [runUpdate_eq, began]
      rfl
    constructor
    · rintro ⟨fuel, r, done, reports⟩
      right
      rw [run, Option.map_eq_some_iff] at done
      obtain ⟨r', looped, rfl⟩ := done
      obtain ⟨more, notes, -, quiet, -⟩ := Run.loop_notes env fuel _ r' looped
      obtain ⟨ok, finish⟩ := finish_notes env r'
      rw [finish] at reports
      have none := reports.none_before
      rw [notes] at none
      have accepts : inv.accepts = true := by
        by_contra refused
        have connected : (connect inv (begin env inv.size inv.cmd inv.around m).2).notes =
            [.error .connect] := by
          rw [connect, if_neg refused]
        have reported := none (.error .connect)
          (List.mem_append_left _ (by rw [connected]; exact List.mem_cons_self))
        cases reported
      refine ⟨accepts, quiet ?_⟩
      intro silence
      have late : .error .receive ∈ r'.notes ++
          [.ended ok, if ok then .endCallback else .error .ended] :=
        reports.late.mpr (List.mem_append_left _ (by
          rw [notes]
          exact List.mem_append_right _ silence))
      rcases List.mem_append.mp late with inLoop | last
      · have reported := none (.error .receive) (by rw [← notes]; exact inLoop)
        cases reported
      · cases ok <;> simp at last
    · rintro (failed | ⟨accepts, prompt⟩)
      · cases failed
      · obtain ⟨s, going⟩ := connect_going fits began
        have ends := Run.loop_ends env s (inv.size + 1) inv.size _ going prompt
          (Nat.lt_succ_self _)
        obtain ⟨r', looped⟩ := Option.isSome_iff_exists.mp ends
        obtain ⟨more, notes, -, -, received⟩ := Run.loop_notes env _ _ r' looped
        obtain ⟨ok, finish⟩ := finish_notes env r'
        refine ⟨inv.size + 1, r'.finish env, by rw [run, looped]; rfl, ?_⟩
        have connected : (connect inv (begin env inv.size inv.cmd inv.around m).2).notes = [] := by
          rw [connect, if_pos accepts]
        rw [finish, notes, connected, List.nil_append]
        exact reports_received (received prompt) ok

/-- Four bytes that are there at once. -/
theorem reports_once_four :
    let env : Env := {
      layout := ⟨0x40300000, 0x40310000, by decide, by decide, by decide, by decide, by decide⟩
      chip := ⟨0x140000, 2 ^ 20, by decide⟩
      fault := fun _ => none
      md5Hex := fun bytes => bytes
      mallocSucceeds := fun _ => true
      heap := fun _ => 0
      stack := fun _ => 0 }
    let board : Board := ⟨fun _ => 0xff, fun _ => 0, 4096, 0, []⟩
    let m : Machine := ⟨.construct 0 none false, board⟩
    let inv : Invitation :=
      ⟨4, uFlash, [], ⟨0, 0⟩, true, ⟨true, [0xe9, 1, 2, 3], 0, fun _ => ⟨4, false⟩⟩⟩
    ∃ fuel r, runUpdate env inv fuel m = some r ∧ Reports r.notes := by
  intro env board m inv
  refine (reports_once env inv m (by decide)).mpr (.inr ⟨rfl, fun n => ?_⟩)
  cases n with
  | zero => trivial
  | succ n =>
    refine fun _ => ⟨⟨999, by decide⟩, ?_⟩
    cases n with
    | zero => trivial
    | succ n => exact fun more => absurd more (by decide)

/-- The connection is refused: the error callback is called twice. -/
theorem reported_twice :
    let env : Env := {
      layout := ⟨0x40300000, 0x40310000, by decide, by decide, by decide, by decide, by decide⟩
      chip := ⟨0x140000, 2 ^ 20, by decide⟩
      fault := fun _ => none
      md5Hex := fun bytes => bytes
      mallocSucceeds := fun _ => true
      heap := fun _ => 0
      stack := fun _ => 0 }
    let board : Board := ⟨fun _ => 0xff, fun _ => 0, 4096, 0, []⟩
    let m : Machine := ⟨.construct 0 none false, board⟩
    let inv : Invitation := ⟨4, uFlash, [], ⟨0, 0⟩, false, .refused⟩
    (runUpdate env inv 1 m).map Run.notes =
        some [.error .connect, .ended false, .error .ended] ∧
      ¬ Reports [.error .connect, .ended false, .error .ended] := by
  intro env board m inv
  refine ⟨by decide, fun reports => ?_⟩
  have once := reports.once
  cases once

end Esp8266.Source.OtaUpdate
