import Esp8266.Updater.End
import Esp8266.Updater.Outcomes
import Esp8266.Updater.Calling

/-!
# Taking what there is

`end(true)` flushes the last partial buffer and takes the bytes in flash for the image. The update
is then a complete one of a smaller size, unless that flush fails.
-/
set_option autoImplicit false

namespace Esp8266.Updater
open Esp8266.Lib.NorFlash Esp8266.Lib.Word32 Esp8266.Source.Esp Esp8266.Source.Updater

@[simp] theorem setError_md5 (error : UpdateError) (u : UpdaterClass) :
    (u.setError error).md5 = u.md5 := rfl

@[simp] theorem resize_md5 (size : Nat) (m : Machine) :
    (resize size m).updater.md5 = m.updater.md5 := rfl

@[simp] theorem resize_verify (size : Nat) (m : Machine) :
    (resize size m).updater.verify = m.updater.verify := rfl

@[simp] theorem resize_targetMd5 (size : Nat) (m : Machine) :
    (resize size m).updater.targetMd5 = m.updater.targetMd5 := rfl

@[simp] theorem resize_size (size : Nat) (m : Machine) :
    (resize size m).updater.size = size := rfl

@[simp] theorem resize_startAddress (size : Nat) (m : Machine) :
    (resize size m).updater.startAddress = m.updater.startAddress := rfl

@[simp] theorem resize_board (size : Nat) (m : Machine) : (resize size m).board = m.board := rfl

/-- The session of an update that ends after `n` bytes. -/
def Session.cut (s : Session) (n : Nat) (pos : 0 < n) (small : n < 2 ^ 32) : Session :=
  { s with size := n, size_pos := pos, size_lt := small }

@[simp] theorem cut_chipMode (s : Session) (n : Nat) (pos : 0 < n) (small : n < 2 ^ 32) :
    (s.cut n pos small).chipMode = s.chipMode := rfl

@[simp] theorem cut_command (s : Session) (n : Nat) (pos : 0 < n) (small : n < 2 ^ 32) :
    (s.cut n pos small).command = s.command := rfl

@[simp] theorem cut_hashes (s : Session) (n : Nat) (pos : 0 < n) (small : n < 2 ^ 32) :
    (s.cut n pos small).hashes = s.hashes := rfl

theorem resize_self {m : Machine} {size : Nat} (same : m.updater.size = size) :
    resize size m = m := by
  rw [resize, ← same]

/-- The flash erases and takes what is in the buffer. -/
def FlushSucceeds (env : Env) (m : Machine) : Prop :=
  let (erased, board) := eraseSector env m.updater m.board
  let (patch, board) := patchFlashMode env m.updater board
  erased = true ∧
    (flashWrite env m.updater.currentAddress (patch.written.take m.updater.bufferLen) board).1 = true

theorem writeBuffer_succeeds (env : Env) (m : Machine) :
    (writeBuffer env m).1 = true ↔ FlushSucceeds env m := by
  rw [writeBuffer, FlushSucceeds]
  dsimp only
  split
  · rename_i erased
    split
    · rename_i written
      exact ⟨fun _ => ⟨erased, written⟩, fun _ => rfl⟩
    · rename_i lost
      exact ⟨fun ok => absurd ok Bool.false_ne_true, fun both => absurd both.2 lost⟩
  · rename_i lost
    exact ⟨fun ok => absurd ok Bool.false_ne_true, fun both => absurd both.1 lost⟩

/-- `end` finds nothing in the buffer that it has to flush, or the flash takes it. -/
def LastFlushed (env : Env) (evenIfRemaining : Bool) (m : Machine) : Prop :=
  evenIfRemaining = true → 0 < m.updater.bufferLen → FlushSucceeds env m

/-- A flush touches neither the verifier nor the expected MD5. -/
theorem writeBuffer_keeps (env : Env) (m : Machine) :
    (writeBuffer env m).2.updater.verify = m.updater.verify ∧
      (writeBuffer env m).2.updater.targetMd5 = m.updater.targetMd5 := by
  rw [writeBuffer]
  dsimp only
  split
  · split
    · exact ⟨rfl, rfl⟩
    · exact ⟨rfl, rfl⟩
  · exact ⟨rfl, rfl⟩

theorem takeRemaining_keeps (env : Env) (evenIfRemaining : Bool) (m : Machine) :
    (takeRemaining env evenIfRemaining m).updater.verify = m.updater.verify ∧
      (takeRemaining env evenIfRemaining m).updater.targetMd5 = m.updater.targetMd5 := by
  cases evenIfRemaining with
  | false =>
    rw [takeRemaining, if_neg Bool.false_ne_true]
    exact ⟨rfl, rfl⟩
  | true =>
    rw [takeRemaining_eq, resize_verify, resize_targetMd5]
    split
    · exact writeBuffer_keeps env m
    · exact ⟨rfl, rfl⟩

/-- Without bytes in the buffer nothing is flushed. -/
theorem takeRemaining_empty {env : Env} {m : Machine} (empty : ¬ 0 < m.updater.bufferLen)
    (evenIfRemaining : Bool) :
    ∃ size, takeRemaining env evenIfRemaining m = resize size m := by
  cases evenIfRemaining with
  | false =>
    refine ⟨m.updater.size, ?_⟩
    rw [takeRemaining, if_neg Bool.false_ne_true, resize_self rfl]
  | true =>
    refine ⟨m.updater.progress, ?_⟩
    rw [takeRemaining_eq, if_neg empty]

/-- A flush does not look at the size. -/
theorem writeBuffer_resize (env : Env) (m : Machine) (n : Nat) :
    (writeBuffer env (resize n m)).1 = (writeBuffer env m).1 ∧
      (writeBuffer env (resize n m)).2.board = (writeBuffer env m).2.board ∧
      ((writeBuffer env m).1 = true →
        (writeBuffer env (resize n m)).2 = resize n (writeBuffer env m).2) := by
  rcases eraseEq : eraseSector env m.updater m.board with ⟨erased, b1⟩
  rcases patchEq : patchFlashMode env m.updater b1 with ⟨patch, b2⟩
  rcases writeEq : flashWrite env m.updater.currentAddress
    (patch.written.take m.updater.bufferLen) b2 with ⟨written, b3⟩
  have eraseEq' : eraseSector env (resize n m).updater (resize n m).board = (erased, b1) := eraseEq
  have patchEq' : patchFlashMode env (resize n m).updater b1 = (patch, b2) := patchEq
  have writeEq' : flashWrite env (resize n m).updater.currentAddress
    (patch.written.take (resize n m).updater.bufferLen) b2 = (written, b3) := writeEq
  simp only [writeBuffer, eraseEq, eraseEq', patchEq, patchEq', writeEq, writeEq']
  cases erased with
  | false => exact ⟨rfl, rfl, fun ok => absurd ok Bool.false_ne_true⟩
  | true =>
    cases written with
    | false => exact ⟨rfl, rfl, fun ok => absurd ok Bool.false_ne_true⟩
    | true => exact ⟨rfl, rfl, fun _ => rfl⟩

theorem writeBuffer_failed {env : Env} {m : Machine} (failed : (writeBuffer env m).1 = false) :
    ∃ error, error ≠ .ok ∧ (writeBuffer env m).2.updater = m.updater.setError error := by
  unfold writeBuffer at failed ⊢
  dsimp only at failed ⊢
  split
  · rename_i erased
    rw [if_pos erased] at failed
    split
    · rename_i written
      rw [if_pos written] at failed
      cases failed
    · exact ⟨.write, by decide, rfl⟩
  · exact ⟨.erase, by decide, rfl⟩

/-- An update that was given up has no size and no progress. -/
theorem resize_given_up {m m' : Machine} {error : UpdateError}
    (lost : m'.updater = m.updater.setError error) : resize m'.updater.progress m' = m' := by
  have none : m'.updater.progress = m'.updater.size := by
    rw [lost, UpdaterClass.progress]
    exact sub32_self (by change 0 < 2 ^ 32; decide)
  rw [resize, none]

theorem Closed.small {s : Session} {t : Trail} (closed : Closed s t) :
    t.accepted.length < 2 ^ 32 := by
  have size := s.size_lt
  rcases closed with open_ | ⟨complete, -⟩ <;> omega

namespace Staging

variable {env : Env} {s : Session} {t : Trail} {m : Machine}

/-- The session may be cut behind what was accepted. -/
theorem cut (st : Staging env s t m) (some : 0 < t.accepted.length)
    (partial_ : t.flushed = s.size → t.accepted.length = t.flushed)
    (small : t.accepted.length < 2 ^ 32) :
    Staging env (s.cut t.accepted.length some small) t (resize t.accepted.length m) := by
  have length := st.length
  exact {
    st with
    size := rfl
    aligned := by
      rcases st.aligned with aligned | finished
      · exact .inl aligned
      · exact .inr (partial_ finished).symm
    complete := by
      intro finished
      change m.updater.bufferLen = 0
      change t.flushed = t.accepted.length at finished
      omega }

/-- An update is finished when the bytes in flash are as many as announced. -/
theorem isFinished_iff (st : Staging env s t m) :
    m.updater.isFinished = true ↔ t.flushed = s.size := by
  have bound := st.bound
  have small := s.size_lt
  rw [UpdaterClass.isFinished, decide_eq_true_iff, st.current, st.start, st.size, add32]
  omega

/-- What `end(true)` checks: a complete image of the accepted bytes, unless the last flush
fails. -/
theorem takeRemaining_cases (st : Staging env s t m) (some : 0 < t.accepted.length)
    (small : t.accepted.length < 2 ^ 32) :
    ((0 < m.updater.bufferLen → (writeBuffer env m).1 = true) ∧
      ∃ new mode, Follows m.board new (takeRemaining env true m).board ∧
      Staging env (s.cut t.accepted.length some small)
        ⟨t.accepted, t.accepted.length, mode, new ++ t.events⟩ (takeRemaining env true m)) ∨
    (0 < m.updater.bufferLen ∧ (writeBuffer env m).1 = false ∧
      takeRemaining env true m = (writeBuffer env m).2 ∧
      (∃ error, error ≠ .ok ∧ (writeBuffer env m).2.updater = m.updater.setError error) ∧
      ∃ new, Follows m.board new (writeBuffer env m).2.board ∧
        ∃ event ∈ new, ¬ event.Succeeded) := by
  have length := st.length
  have partial_ : t.flushed = s.size → t.accepted.length = t.flushed := by
    intro finished
    have empty := st.complete finished
    omega
  have st' := st.cut some partial_ small
  by_cases empty : 0 < m.updater.bufferLen
  · obtain ⟨same, board, result⟩ := writeBuffer_resize env m t.accepted.length
    obtain ⟨new, follows, -, -, outcome⟩ := st'.flush (.inr length) (by
      change t.flushed + m.updater.bufferLen ≠ 0
      omega)
    rw [takeRemaining_eq, if_pos empty]
    rw [same] at outcome
    rw [board] at follows
    rcases outcome with ⟨ok, mode, kept⟩ | ⟨failed, unsuccessful, error, real, updater⟩
    · left
      rw [result ok] at kept
      have progress : (writeBuffer env m).2.updater.progress = t.accepted.length := by
        have progress := kept.progress_eq
        change (writeBuffer env m).2.updater.progress = t.flushed + m.updater.bufferLen at progress
        rw [progress, length]
      rw [progress]
      refine ⟨fun _ => ok, new, mode, follows, ?_⟩
      have kept' := kept
      change Staging env _ ⟨t.accepted, t.flushed + m.updater.bufferLen, mode,
        new ++ t.events⟩ _ at kept'
      rw [length] at kept'
      exact kept'
    · right
      have lost := writeBuffer_failed failed
      refine ⟨empty, failed, ?_, lost, new, follows, unsuccessful⟩
      obtain ⟨error', -, updater'⟩ := lost
      exact resize_given_up updater'
  · left
    have all : t.flushed = t.accepted.length := by omega
    rw [takeRemaining_eq, if_neg empty, st.progress_eq, all]
    refine ⟨fun some => absurd some empty, [], t.mode, Follows.refl _, ?_⟩
    rcases t with ⟨accepted, flushed, mode, events⟩
    obtain rfl : flushed = accepted.length := all
    exact st'

/-- **What `end` checks**, for an update to which it goes on: an image of exactly the accepted
bytes, unless the last flush fails. -/
theorem taken (st : Staging env s t m) (closed : Closed s t) (some : 0 < t.accepted.length)
    {evenIfRemaining : Bool} (checks : Checks evenIfRemaining m.updater) :
    (LastFlushed env evenIfRemaining m ∧
      ∃ new mode, Follows m.board new (takeRemaining env evenIfRemaining m).board ∧
        Staging env (s.cut t.accepted.length some closed.small)
          ⟨t.accepted, t.accepted.length, mode, new ++ t.events⟩
          (takeRemaining env evenIfRemaining m)) ∨
    (¬ LastFlushed env evenIfRemaining m ∧ evenIfRemaining = true ∧
      (∃ error, error ≠ .ok ∧
        (takeRemaining env evenIfRemaining m).updater = m.updater.setError error) ∧
      ∃ new, Follows m.board new (takeRemaining env evenIfRemaining m).board ∧
        ∃ event ∈ new, ¬ event.Succeeded) := by
  cases evenIfRemaining with
  | false =>
    have passes := checks.2
    rw [Bool.or_eq_false_iff] at passes
    have finished := st.isFinished_iff.mp (by simpa using passes.2)
    have empty := st.complete finished
    have length := st.length
    have all : t.flushed = t.accepted.length := by omega
    have same : resize t.accepted.length m = m := resize_self (by rw [st.size]; omega)
    have kept := st.cut some (fun _ => all.symm) closed.small
    rw [same] at kept
    left
    refine ⟨fun no => (nomatch no), [], t.mode, ?_, ?_⟩
    · rw [takeRemaining, if_neg Bool.false_ne_true]
      exact Follows.refl _
    · rw [takeRemaining, if_neg Bool.false_ne_true]
      rcases t with ⟨accepted, flushed, mode, events⟩
      obtain rfl : flushed = accepted.length := all
      exact kept
  | true =>
    rcases st.takeRemaining_cases some closed.small with ⟨flushes, taken⟩ |
      ⟨held, failed, result, lost, unsuccessful⟩
    · exact .inl ⟨fun _ held => (writeBuffer_succeeds env m).mp (flushes held), taken⟩
    · right
      rw [result]
      refine ⟨?_, rfl, lost, unsuccessful⟩
      intro flushed
      have succeeds := (writeBuffer_succeeds env m).mpr (flushed rfl held)
      rw [failed] at succeeds
      cases succeeds

/-- An update without a byte is one of size zero. -/
theorem taken_nothing (st : Staging env s t m) (none : t.accepted = [])
    {evenIfRemaining : Bool} (checks : Checks evenIfRemaining m.updater) :
    (takeRemaining env evenIfRemaining m).updater.size = 0 ∧
      (takeRemaining env evenIfRemaining m).updater.startAddress = s.start := by
  have length := st.length
  have count : t.accepted.length = 0 := by rw [none]; rfl
  cases evenIfRemaining with
  | false =>
    have passes := checks.2
    rw [Bool.or_eq_false_iff] at passes
    have finished := st.isFinished_iff.mp (by simpa using passes.2)
    have positive := s.size_pos
    omega
  | true =>
    have flushed : t.flushed = 0 := by omega
    rw [takeRemaining_eq, if_neg (by omega), resize_size, resize_startAddress, st.progress_eq]
    exact ⟨flushed, st.start⟩

end Staging

end Esp8266.Updater
