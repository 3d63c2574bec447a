import Esp8266.Updater.Calls

/-!
# end

`end` flushes what is left when it is told to, checks the image by reading it, and writes the
eboot command. Whatever happens, the updater is idle afterwards.
-/
set_option autoImplicit false

namespace Esp8266.Updater
open Esp8266.Lib.NorFlash Esp8266.Lib.Word32 Esp8266.Source.RtcCommand Esp8266.Source.Esp
  Esp8266.Source.Updater

/-! ## The checks -/

theorem hashLoop_quiet (env : Env) (start fuel : Nat) :
    ∀ (i left : Nat) (buff hashed : List UInt8) (board : Board),
      Quiet board (hashLoop env start fuel i left buff hashed board).2 := by
  induction fuel with
  | zero => intro i left buff hashed board; exact Quiet.refl board
  | succ fuel ih =>
    intro i left buff hashed board
    rw [hashLoop]
    split
    · exact (flashRead_quiet env (add32 start i) buff board).trans (ih _ _ _ _ _)
    · exact Quiet.refl board

theorem hashImage_quiet (env : Env) (start binSize : Nat) (board : Board) :
    Quiet board (hashImage env start binSize board).2 :=
  hashLoop_quiet env start _ 0 _ _ [] board

theorem signatureLength_quiet (env : Env) (u : UpdaterClass) (board : Board) :
    Quiet board (signatureLength env u board).2 :=
  flashRead_quiet env _ _ board

theorem quiet_verify (hashed signature : List UInt8) (accepted : Bool) (board : Board) :
    Quiet board (board.note (.verify hashed signature accepted)) := by
  refine ⟨_, Board.note_follows _ board, ?_⟩
  intro event member
  rw [List.mem_singleton.mp member]
  trivial

theorem readSignature_quiet (env : Env) (u : UpdaterClass) (sigLen : Nat) (board : Board) :
    Quiet board (readSignature env u sigLen board).2 :=
  flashRead_quiet env _ _ board

/-- A check changes nothing, and gives the update up when it fails. -/
structure Checked (m : Machine) (result : Bool × Machine) : Prop where
  quiet : Quiet m.board result.2.board
  outcome : (result.1 = true ∧ result.2.updater = m.updater) ∨
    (result.1 = false ∧ GivenUp result.2.updater)

theorem Checked.failed {m : Machine} {board : Board} (quiet : Quiet m.board board)
    {error : UpdateError} (real : error ≠ .ok) :
    Checked m (false, { m with board }.setError error) :=
  ⟨quiet, .inr ⟨rfl, givenUp_setError real _⟩⟩

theorem judgeSignature_checked (verifier : Verifier) (hashed : List UInt8)
    (signature : List UInt8 × Board) (m : Machine) (quiet : Quiet m.board signature.2) :
    Checked m (judgeSignature verifier hashed signature m) := by
  have verified := quiet.trans
    (quiet_verify hashed signature.1 (verifier.verify hashed signature.1) signature.2)
  unfold judgeSignature
  dsimp only
  split
  · exact ⟨verified, .inl ⟨rfl, rfl⟩⟩
  · exact Checked.failed verified (by decide)

theorem checkSignature_checked (env : Env) (verifier : Verifier) (sigLen : Nat)
    (image : List UInt8 × Board) (m : Machine) (quiet : Quiet m.board image.2) :
    Checked m (checkSignature env verifier sigLen image m) := by
  unfold checkSignature
  split
  · exact Checked.failed quiet (by decide)
  · exact judgeSignature_checked _ _ _ m
      (quiet.trans (readSignature_quiet env m.updater sigLen image.2))

theorem checkTrailer_checked (env : Env) (verifier : Verifier) (trailer : Nat × Board)
    (m : Machine) (quiet : Quiet m.board trailer.2) :
    Checked m (checkTrailer env verifier trailer m) := by
  unfold checkTrailer
  split
  · exact Checked.failed quiet (by decide)
  · exact checkSignature_checked env _ _ _ m (quiet.trans (hashImage_quiet env _ _ trailer.2))

theorem verifySignature_checked (env : Env) (verifier : Verifier) (m : Machine) :
    Checked m (verifySignature env verifier m) :=
  checkTrailer_checked env verifier _ m (signatureLength_quiet env m.updater m.board)

theorem checkImage_checked (env : Env) (m : Machine) : Checked m (checkImage env m) := by
  unfold checkImage
  split
  · exact verifySignature_checked env _ m
  · split
    · split
      · exact ⟨Quiet.refl _, .inl ⟨rfl, rfl⟩⟩
      · exact Checked.failed (Quiet.refl _) (by decide)
    · exact ⟨Quiet.refl _, .inl ⟨rfl, rfl⟩⟩

/-- The header check reads the image once, and passes only where that read succeeded. -/
theorem verifyEnd_cases (env : Env) (m : Machine) :
    Quiet m.board (verifyEnd env m).2.board ∧
      ((verifyEnd env m).1 = true → (verifyEnd env m).2.updater = m.updater ∧
        ∃ new, Follows m.board new (verifyEnd env m).2.board ∧
          ∀ event ∈ new, event.Silent ∧ event.Succeeded) := by
  unfold verifyEnd
  split
  · have quiet := flashRead_quiet env m.updater.startAddress (List.replicate 4 0) m.board
    have recorded := (flashRead_follows env m.updater.startAddress (List.replicate 4 0) m.board).1
    rcases read : flashRead env m.updater.startAddress (List.replicate 4 0) m.board
      with ⟨ok, buf, board⟩
    rw [read] at quiet recorded
    dsimp only
    cases ok with
    | false => exact ⟨quiet, fun passed => by cases passed⟩
    | true =>
      have succeeded : ∃ new, Follows m.board new board ∧
          ∀ event ∈ new, event.Silent ∧ event.Succeeded := by
        refine ⟨_, recorded, ?_⟩
        intro event member
        rw [List.mem_singleton.mp member]
        exact ⟨trivial, rfl⟩
      simp only [Bool.not_true, Bool.false_eq_true, if_false]
      split
      · exact ⟨quiet, fun _ => ⟨rfl, succeeded⟩⟩
      · split
        · exact ⟨quiet, fun passed => by cases passed⟩
        · split
          · exact ⟨quiet, fun passed => by cases passed⟩
          · exact ⟨quiet, fun _ => ⟨rfl, succeeded⟩⟩
  · have nothing : ∃ new, Follows m.board new m.board ∧
        ∀ event ∈ new, event.Silent ∧ event.Succeeded := ⟨[], Follows.refl _, by simp⟩
    split
    · exact ⟨Quiet.refl _, fun _ => ⟨rfl, nothing⟩⟩
    · exact ⟨Quiet.refl _, fun passed => by cases passed⟩

/-! ## The remaining bytes -/

/-- The machine with another `_size`. -/
def resize (size : Nat) (m : Machine) : Machine := { m with updater := { m.updater with size } }

@[simp] theorem resize_command (size : Nat) (m : Machine) :
    (resize size m).updater.command = m.updater.command := rfl

/-- The last flush, its result unseen, and the size it leaves. -/
theorem takeRemaining_eq (env : Env) (m : Machine) :
    takeRemaining env true m =
      resize (if 0 < m.updater.bufferLen then (writeBuffer env m).2 else m).updater.progress
        (if 0 < m.updater.bufferLen then (writeBuffer env m).2 else m) := by
  unfold takeRemaining
  rw [if_pos rfl]
  rfl

/-! ## The whole call -/

/-- `end` goes on to flush and check: there is an update without an error, complete or to be
taken as it is. -/
def Checks (evenIfRemaining : Bool) (u : UpdaterClass) : Prop :=
  u.size ≠ 0 ∧ (u.hasError || (!u.isFinished && !evenIfRemaining)) = false

/-- What `end` does to an image that passed the checks. -/
def commit (env : Env) (m : Machine) : Machine :=
  if m.updater.command = uFlash then
    { m with board :=
        ebootCommand (copyCommand env m.updater.startAddress m.updater.size) m.board }
  else m

theorem endUpdate_checks {env : Env} {evenIfRemaining : Bool} {m : Machine}
    (checks : Checks evenIfRemaining m.updater) :
    endUpdate env evenIfRemaining m =
      match checkImage env (takeRemaining env evenIfRemaining m) with
      | (false, m) => (false, m)
      | (true, m) =>
        match verifyEnd env m with
        | (false, m) => (false, m.reset)
        | (true, m) => (true, (commit env m).reset) := by
  unfold endUpdate commit
  rw [if_neg checks.1, if_neg (by rw [checks.2]; decide)]
  dsimp only
  rcases checkImage env (takeRemaining env evenIfRemaining m) with ⟨checked, m1⟩
  cases checked with
  | false => rfl
  | true =>
    dsimp only
    rcases verifyEnd env m1 with ⟨ended, m2⟩
    cases ended <;> rfl

theorem endUpdate_skips {env : Env} {evenIfRemaining : Bool} {m : Machine}
    (skips : ¬ Checks evenIfRemaining m.updater) :
    endUpdate env evenIfRemaining m = (false, m.reset) := by
  unfold endUpdate
  by_cases none : m.updater.size = 0
  · rw [if_pos none]
  · rw [if_neg none, if_pos]
    by_contra passes
    exact skips ⟨none, by simpa using passes⟩

/-- **`end` leaves an idle updater**, whatever it was called on. -/
theorem endUpdate_idle (env : Env) (evenIfRemaining : Bool) (m : Machine) :
    Idle (endUpdate env evenIfRemaining m).2.updater := by
  by_cases checks : Checks evenIfRemaining m.updater
  · rw [endUpdate_checks checks]
    have checked := (checkImage_checked env (takeRemaining env evenIfRemaining m)).outcome
    rcases imageEq : checkImage env (takeRemaining env evenIfRemaining m) with ⟨ok, m1⟩
    rw [imageEq] at checked
    cases ok with
    | false =>
      rcases checked with ⟨passed, -⟩ | ⟨-, givenUp⟩
      · cases passed
      · exact givenUp.idle
    | true =>
      dsimp only
      rcases verifyEnd env m1 with ⟨ended, m2⟩
      cases ended <;> exact idle_reset _
  · rw [endUpdate_skips checks]
    exact idle_reset _

end Esp8266.Updater
