import Esp8266.Updater.End

/-!
# How calls end

Without regard to the flash: a call leaves an update running, or has given it up with an error.
This is all that a caller learns who asks for `hasError` only.
-/
set_option autoImplicit false

namespace Esp8266.Updater
open Esp8266.Lib.Word32 Esp8266.Source.Esp Esp8266.Source.Updater

/-- An update has begun and no error was seen. -/
structure Running (u : UpdaterClass) : Prop where
  error : u.error = .ok
  size : 0 < u.size
  command : u.command = uFlash ∨ u.command = uFs
  bufferLen : u.bufferLen ≤ u.bufferSize
  bufferSize_pos : 0 < u.bufferSize
  bufferSize_le : u.bufferSize ≤ 4096

theorem Running.hasError {u : UpdaterClass} (running : Running u) : u.hasError = false := by
  simp [UpdaterClass.hasError, running.error]

theorem GivenUp.hasError {u : UpdaterClass} (givenUp : GivenUp u) : u.hasError = true := by
  simp [UpdaterClass.hasError, givenUp.error]

/-! ## begin -/

theorem updateRegion_known (fsStart fsEnd sketchSize size : Nat) {command : Nat}
    (known : command = uFlash ∨ command = uFs) :
    updateRegion fsStart fsEnd sketchSize size command ≠ .unknownCommand := by
  intro unknown
  unfold updateRegion at unknown
  dsimp only at unknown
  rcases known with rfl | rfl
  · rw [if_pos rfl] at unknown
    split at unknown
    · split at unknown <;> cases unknown
    · split at unknown <;> cases unknown
  · rw [if_neg (by decide), if_pos rfl] at unknown
    split at unknown <;> cases unknown

/-- `begin` on an updater without an update. -/
theorem begin_outcome (env : Env) (size command : Nat) (around : Surroundings) {m : Machine}
    (free : m.updater.size = 0) (known : command = uFlash ∨ command = uFs) :
    ((begin env size command around m).1 = true ∧
        Running (begin env size command around m).2.updater) ∨
      ((begin env size command around m).1 = false ∧
        GivenUp (begin env size command around m).2.updater) := by
  unfold begin
  rw [if_neg (by omega)]
  by_cases boot : around.bootMode = 1
  · rw [if_pos boot]
    exact .inr ⟨rfl, givenUp_setError (by decide) _⟩
  · rw [if_neg boot]
    by_cases empty : size = 0
    · rw [if_pos empty]
      exact .inr ⟨rfl, givenUp_setError (by decide) _⟩
    · rw [if_neg empty]
      dsimp only
      split
      · exact .inr ⟨rfl, givenUp_setError (by decide) _⟩
      · split
        · exact .inr ⟨rfl, givenUp_setError (by decide) _⟩
        · rename_i unknown
          exact absurd unknown (updateRegion_known _ _ _ _ known)
        · refine .inl ⟨rfl, rfl, Nat.pos_of_ne_zero empty, known, Nat.zero_le _, ?_, ?_⟩
          · dsimp only
            split <;> decide
          · dsimp only
            split <;> decide

/-! ## write -/

section write
variable (env : Env) {m : Machine}

/-- A flush. -/
theorem writeBuffer_outcome (running : Running m.updater) :
    ((writeBuffer env m).1 = true ∧ Running (writeBuffer env m).2.updater ∧
        (writeBuffer env m).2.updater.bufferLen = 0) ∨
      ((writeBuffer env m).1 = false ∧ GivenUp (writeBuffer env m).2.updater) := by
  unfold writeBuffer
  dsimp only
  split
  · split
    · exact .inl ⟨rfl, ⟨running.error, running.size, running.command, Nat.zero_le _,
        running.bufferSize_pos, running.bufferSize_le⟩, rfl⟩
    · exact .inr ⟨rfl, givenUp_setError (by decide) _⟩
  · exact .inr ⟨rfl, givenUp_setError (by decide) _⟩

theorem Running.fill (running : Running m.updater) (bytes : List UInt8)
    (room : m.updater.bufferLen + bytes.length ≤ m.updater.bufferSize) :
    Running (m.fill bytes).updater where
  error := running.error
  size := running.size
  command := running.command
  bufferLen := by
    have small := running.bufferSize_le
    show add32 m.updater.bufferLen bytes.length ≤ m.updater.bufferSize
    rw [add32_of_lt (by omega)]
    exact room
  bufferSize_pos := running.bufferSize_pos
  bufferSize_le := running.bufferSize_le

/-- All is written or the update is given up, with a pass for a buffer that is full. -/
theorem writeLoop_outcome (len fuel : Nat) : ∀ (rest : List UInt8) (m : Machine),
    Running m.updater → rest.length < 2 ^ 31 →
    rest.length + (if m.updater.bufferLen = m.updater.bufferSize then 2 else 1) ≤ fuel →
    ((writeLoop env len fuel rest m).1 = len ∧ Running (writeLoop env len fuel rest m).2.updater) ∨
      GivenUp (writeLoop env len fuel rest m).2.updater := by
  induction fuel with
  | zero =>
    intro rest m _ _ enough
    split at enough <;> omega
  | succ fuel ih =>
    intro rest m running short enough
    have fits := running.bufferLen
    have small := running.bufferSize_le
    have positive := running.bufferSize_pos
    rw [writeLoop, add32_of_lt (by omega)]
    dsimp only
    split
    · rename_i above
      have toBuff : sub32 m.updater.bufferSize m.updater.bufferLen =
          m.updater.bufferSize - m.updater.bufferLen := sub32_of_le fits (by omega)
      rw [toBuff]
      have filled := running.fill
        (rest.take (m.updater.bufferSize - m.updater.bufferLen)) (by
          rw [List.length_take]
          omega)
      rcases writeBuffer_outcome env filled with ⟨ok, flushed, emptied⟩ | ⟨failed, givenUp⟩
      · rw [if_pos ok]
        refine ih _ _ flushed ?_ ?_
        · rw [List.length_drop]
          omega
        · rw [emptied, if_neg (by have := flushed.bufferSize_pos; omega), List.length_drop]
          split at enough <;> omega
      · rw [if_neg (by rw [failed]; decide)]
        exact .inr givenUp
    · rename_i within
      have filled := running.fill rest (by omega)
      split
      · rcases writeBuffer_outcome env filled with ⟨ok, flushed, -⟩ | ⟨failed, givenUp⟩
        · rw [if_pos ok]
          exact .inl ⟨rfl, flushed⟩
        · rw [if_neg (by rw [failed]; decide)]
          exact .inr givenUp
      · exact .inl ⟨rfl, filled⟩

/-- `write` on a running update. -/
theorem write_outcome {data : List UInt8} (running : Running m.updater)
    (short : data.length < 2 ^ 31) :
    ((write env data m).1 = data.length ∧ Running (write env data m).2.updater) ∨
      GivenUp (write env data m).2.updater := by
  have open_ : m.updater.isRunning = true := decide_eq_true running.size
  unfold write
  rw [running.hasError, open_, if_neg (by decide)]
  split
  · exact .inr (givenUp_setError (by decide) _)
  · refine writeLoop_outcome env _ _ data m running short ?_
    split <;> omega

/-- `write` does nothing to an update that was given up. -/
theorem write_givenUp (data : List UInt8) (givenUp : GivenUp m.updater) :
    write env data m = (0, m) := by
  unfold write
  rw [givenUp.hasError]
  rfl

end write

/-! ## end -/

/-- The check of the header fails with an error. -/
theorem verifyEnd_failed (env : Env) {m : Machine}
    (known : m.updater.command = uFlash ∨ m.updater.command = uFs)
    (failed : (verifyEnd env m).1 = false) : (verifyEnd env m).2.updater.error ≠ .ok := by
  unfold verifyEnd at failed ⊢
  rcases known with flash | fs
  · rw [if_pos flash] at failed ⊢
    dsimp only at failed ⊢
    split
    · exact fun none => by cases none
    · rename_i ok
      rw [if_neg ok] at failed
      split
      · rename_i gzip
        rw [if_pos gzip] at failed
        cases failed
      · rename_i gzip
        rw [if_neg gzip] at failed
        split
        · exact fun none => by cases none
        · rename_i magic
          rw [if_neg magic] at failed
          split
          · exact fun none => by cases none
          · rename_i size
            rw [if_neg size] at failed
            cases failed
  · rw [if_neg (by rw [fs]; decide), if_pos fs] at failed
    cases failed

theorem takeRemaining_outcome (env : Env) {m : Machine} (running : Running m.updater) :
    (takeRemaining env true m).updater.command = uFlash ∨
      (takeRemaining env true m).updater.command = uFs := by
  rw [takeRemaining_eq, resize_command]
  split
  · rcases writeBuffer_outcome env running with ⟨-, flushed, -⟩ | ⟨-, givenUp⟩
    · exact flushed.command
    · exact .inl givenUp.idle.command
  · exact running.command

/-- `end(true)` on a running update succeeds or sees an error. -/
theorem endUpdate_outcome (env : Env) {m : Machine} (running : Running m.updater)
    (failed : (endUpdate env true m).1 = false) :
    GivenUp (endUpdate env true m).2.updater := by
  refine ⟨endUpdate_idle env true m, ?_⟩
  have checks : Checks true m.updater :=
    ⟨Nat.ne_of_gt running.size, by rw [running.hasError, Bool.not_true, Bool.and_false]; rfl⟩
  have known := takeRemaining_outcome env running
  have checked := (checkImage_checked env (takeRemaining env true m)).outcome
  rw [endUpdate_checks checks] at failed ⊢
  rcases imageEq : checkImage env (takeRemaining env true m) with ⟨ok, m1⟩
  rw [imageEq] at checked failed
  cases ok with
  | false =>
    rcases checked with ⟨passed, -⟩ | ⟨-, givenUp⟩
    · cases passed
    · exact givenUp.error
  | true =>
    rcases checked with ⟨-, same⟩ | ⟨lost, -⟩
    · have verified := verifyEnd_failed env (m := m1) (by rw [same]; exact known)
      dsimp only at failed ⊢
      rcases endEq : verifyEnd env m1 with ⟨ended, m2⟩
      rw [endEq] at failed verified
      cases ended with
      | false => exact verified rfl
      | true => cases failed
    · cases lost

/-- Without an update, `end` fails and leaves the error. -/
theorem endUpdate_givenUp (env : Env) {m : Machine} (givenUp : GivenUp m.updater)
    (evenIfRemaining : Bool) : (endUpdate env evenIfRemaining m).1 = false ∧
      GivenUp (endUpdate env evenIfRemaining m).2.updater := by
  have skips : ¬ Checks evenIfRemaining m.updater := fun checks => checks.1 givenUp.idle.size
  rw [endUpdate_skips skips]
  exact ⟨rfl, idle_reset _, givenUp.error⟩

end Esp8266.Updater
