import Esp8266.Updater.Remaining

/-!
# The calls of a program

`begin`, `end` and the calls between them, in any order. Without an update nothing is written,
whatever is called; and `end` stays in the region of the update.
-/
set_option autoImplicit false

namespace Esp8266.Updater
open Esp8266.Lib Esp8266.Lib.NorFlash Esp8266.Lib.Word32 Esp8266.Source.Esp
  Esp8266.Source.Updater

/-- What a call returns. -/
inductive Answer where
  | count (n : Nat)
  | success (ok : Bool)

/-- A call of the updater. -/
inductive Request where
  | begin (size command : Nat) (around : Surroundings)
  | make (call : UpdateCall)
  | end_ (evenIfRemaining : Bool)

/-- What the call returns, and what it leaves. -/
def Request.serve (env : Env) (request : Request) (m : Machine) : Answer × Machine :=
  match request with
  | .begin size command around =>
    let (ok, m) := Source.Updater.begin env size command around m
    (.success ok, m)
  | .make (.setMD5 expected) =>
    let (ok, m) := setMD5 expected m
    (.success ok, m)
  | .make call =>
    let (n, m) := call.make env m
    (.count n, m)
  | .end_ evenIfRemaining =>
    let (ok, m) := endUpdate env evenIfRemaining m
    (.success ok, m)

theorem serve_make (env : Env) (call : UpdateCall) (m : Machine) :
    ((Request.make call).serve env m).2 = (call.make env m).2 := by
  cases call <;> rfl

/-- Without an update a call writes nothing. -/
theorem make_idle (env : Env) {m : Machine} (idle : Idle m.updater) (call : UpdateCall) :
    (call.make env m).1 = 0 ∧ (call.make env m).2.board = m.board ∧
      Idle (call.make env m).2.updater ∧
      (call.make env m).2.updater.error = m.updater.error := by
  have closed : (m.updater.hasError || !m.updater.isRunning) = true := by
    rw [UpdaterClass.isRunning, idle.size]
    exact Bool.or_true _
  cases call with
  | write data =>
    have nothing : write env data m = (0, m) := by
      rw [write, closed]
      rfl
    rw [UpdateCall.make, nothing]
    exact ⟨rfl, rfl, idle, rfl⟩
  | source polls bytes =>
    have nothing : writeSource env polls bytes m = (0, m) := by
      rw [writeSource, closed]
      rfl
    rw [UpdateCall.make, nothing]
    exact ⟨rfl, rfl, idle, rfl⟩
  | stream input =>
    have nothing : writeStream env input m = (0, m) := by
      rw [writeStream, closed]
      rfl
    rw [UpdateCall.make, nothing]
    exact ⟨rfl, rfl, idle, rfl⟩
  | setMD5 expected =>
    obtain ⟨target, set⟩ := setMD5_cases expected m
    rw [UpdateCall.make, set]
    exact ⟨rfl, rfl, ⟨idle.size, idle.buffer, idle.bufferLen, idle.startAddress,
      idle.currentAddress, idle.command⟩, rfl⟩

/-! ## What `end` records -/

/-- All that was recorded lies in the region of the session. -/
def Session.Within (s : Session) (board board' : Board) : Prop :=
  ∃ new, board'.log = new ++ board.log ∧ ∀ event ∈ new, s.Inside event

theorem Session.within_refl (s : Session) (board : Board) : s.Within board board :=
  ⟨[], rfl, fun _ member => absurd member List.not_mem_nil⟩

theorem Session.Within.trans {s : Session} {b b' b'' : Board} (first : s.Within b b')
    (second : s.Within b' b'') : s.Within b b'' := by
  obtain ⟨new, log, inside⟩ := first
  obtain ⟨new', log', inside'⟩ := second
  refine ⟨new' ++ new, by rw [log', log, List.append_assoc], fun event member => ?_⟩
  rcases List.mem_append.1 member with late | early
  · exact inside' event late
  · exact inside event early

theorem Session.within_quiet (s : Session) {b b' : Board} (quiet : Quiet b b') :
    s.Within b b' := by
  obtain ⟨new, follows, silent⟩ := quiet
  exact ⟨new, follows.log, fun event member => s.inside_of_silent (silent event member)⟩

theorem Session.within_commit (s : Session) (env : Env) (m : Machine) :
    s.Within m.board (commit env m).board := by
  unfold commit
  split
  · refine ⟨[_], rfl, fun event member => ?_⟩
    rw [List.mem_singleton.1 member]
    exact s.inside_of_silent trivial
  · exact s.within_refl m.board

namespace Staging

variable {env : Env} {s : Session} {t : Trail} {m : Machine}

/-- The last flush stays in the region. -/
theorem takeRemaining_within (st : Staging env s t m) (closed : Closed s t)
    (evenIfRemaining : Bool) :
    s.Within m.board (takeRemaining env evenIfRemaining m).board := by
  by_cases held : 0 < m.updater.bufferLen
  · cases evenIfRemaining with
    | false =>
      rw [takeRemaining, if_neg Bool.false_ne_true]
      exact s.within_refl m.board
    | true =>
      have length := st.length
      have whole : t.flushed + m.updater.bufferLen ≤ s.size := by
        rcases closed with open_ | ⟨complete, -⟩ <;> omega
      have some : 0 < t.accepted.length := by omega
      have st' := st.cut some (fun finished => by have := st.complete finished; omega)
        closed.small
      obtain ⟨new, follows, -, events, -⟩ := st'.flush (.inr length) (by
        change t.flushed + m.updater.bufferLen ≠ 0
        omega)
      have board := (writeBuffer_resize env m t.accepted.length).2.1
      rw [takeRemaining_eq, if_pos held, resize_board, ← board]
      refine ⟨new, follows.log, fun event member => ?_⟩
      have flush : FlushEvent (s.start + t.flushed) m.updater.bufferLen event := events event member
      exact flush.inside whole (.inl (by omega))
  · obtain ⟨size, same⟩ := @takeRemaining_empty env m held evenIfRemaining
    rw [same, resize_board]
    exact s.within_refl m.board

/-- `end` stays in the region. -/
theorem endUpdate_within (st : Staging env s t m) (closed : Closed s t)
    (evenIfRemaining : Bool) : s.Within m.board (endUpdate env evenIfRemaining m).2.board := by
  by_cases checks : Checks evenIfRemaining m.updater
  · have flushed := st.takeRemaining_within closed evenIfRemaining
    have checked := (checkImage_checked env (takeRemaining env evenIfRemaining m)).quiet
    rw [endUpdate_checks checks]
    rcases imageEq : checkImage env (takeRemaining env evenIfRemaining m) with ⟨ok, m1⟩
    rw [imageEq] at checked
    have reached := flushed.trans (s.within_quiet checked)
    cases ok with
    | false => exact reached
    | true =>
      have verified := (verifyEnd_cases env m1).1
      dsimp only
      rcases endEq : verifyEnd env m1 with ⟨ended, m2⟩
      rw [endEq] at verified
      have reached' := reached.trans (s.within_quiet verified)
      cases ended with
      | false => exact reached'
      | true => exact reached'.trans (s.within_commit env m2)
  · rw [endUpdate_skips checks]
    exact s.within_refl m.board

end Staging

end Esp8266.Updater
