import Esp8266.Updater.Remaining

/-!
# What `end` reads of a signed image

The trailer, the hashed bytes and the signature are read from flash with the results of the reads
unseen. Where the reads deliver what is in flash, they are parts of the image; and only there.
-/
set_option autoImplicit false

namespace Esp8266.Updater
open Esp8266.Lib.NorFlash Esp8266.Lib.Word32 Esp8266.Source.Esp Esp8266.Source.Updater

/-! ## Reads -/

theorem length_flashRead (env : Env) (offset : Nat) (old : List UInt8) (board : Board) :
    (flashRead env offset old board).2.1.length = old.length := by
  unfold flashRead
  cases env.outcome board offset old.length with
  | done => exact length_readRange _ _ _
  | refused => rfl
  | failed junk =>
    dsimp only
    rw [List.length_map, List.length_range]

/-- The first `n` bytes that a read returns are those in flash. -/
def Delivers (env : Env) (offset : Nat) (old : List UInt8) (n : Nat) (board : Board) : Prop :=
  (flashRead env offset old board).2.1.take n = readRange board.flash offset n

instance (env : Env) (offset : Nat) (old : List UInt8) (n : Nat) (board : Board) :
    Decidable (Delivers env offset old n board) :=
  inferInstanceAs (Decidable (_ = _))

/-! ## The hashed bytes -/

/-- Each read of the hash loop delivers what the loop takes of it. -/
def ChunksDeliver (env : Env) (start : Nat) : Nat → Nat → Nat → List UInt8 → Board → Prop
  | 0, _, _, _, _ => True
  | fuel + 1, i, left, buff, board =>
    0 < left →
      Delivers env (start + i) buff (min 128 left) board ∧
        ChunksDeliver env start fuel (i + 128) (left - 128)
          (flashRead env (start + i) buff board).2.1 (flashRead env (start + i) buff board).2.2

instance decidableChunksDeliver (env : Env) (start : Nat) :
    (fuel i left : Nat) → (buff : List UInt8) → (board : Board) →
      Decidable (ChunksDeliver env start fuel i left buff board)
  | 0, _, _, _, _ => isTrue trivial
  | fuel + 1, i, left, buff, board =>
    have := decidableChunksDeliver env start fuel (i + 128) (left - 128)
      (flashRead env (start + i) buff board).2.1 (flashRead env (start + i) buff board).2.2
    inferInstanceAs (Decidable (0 < left → _ ∧ _))

theorem hashLoop_append (env : Env) (start fuel : Nat) :
    ∀ (i left : Nat) (buff hashed : List UInt8) (board : Board),
      (hashLoop env start fuel i left buff hashed board).1 =
        hashed ++ (hashLoop env start fuel i left buff [] board).1 ∧
      (hashLoop env start fuel i left buff hashed board).2 =
        (hashLoop env start fuel i left buff [] board).2 := by
  induction fuel with
  | zero =>
    intro i left buff hashed board
    exact ⟨(List.append_nil _).symm, rfl⟩
  | succ fuel ih =>
    intro i left buff hashed board
    rw [hashLoop, hashLoop]
    by_cases more : 0 < left
    · simp only [if_pos more]
      obtain ⟨bytes, after⟩ := ih (i + 128) (left - 128) (flashRead env (add32 start i) buff board).2.1
        (hashed ++ (flashRead env (add32 start i) buff board).2.1.take (min 128 left))
        (flashRead env (add32 start i) buff board).2.2
      obtain ⟨bytes', after'⟩ := ih (i + 128) (left - 128)
        (flashRead env (add32 start i) buff board).2.1
        ([] ++ (flashRead env (add32 start i) buff board).2.1.take (min 128 left))
        (flashRead env (add32 start i) buff board).2.2
      refine ⟨?_, after.trans after'.symm⟩
      rw [bytes, bytes', List.nil_append, List.append_assoc]
    · simp only [if_neg more]
      exact ⟨(List.append_nil _).symm, trivial⟩

/-- **The hash loop** takes the range it is given, and no other byte, exactly when its reads
deliver. -/
theorem hashLoop_eq_iff (env : Env) (start fuel : Nat) :
    ∀ (i left : Nat) (buff : List UInt8) (board : Board), left ≤ 128 * fuel → buff.length = 128 →
      start + i + left < 2 ^ 32 →
      ((hashLoop env start fuel i left buff [] board).1 =
          readRange board.flash (start + i) left ↔
        ChunksDeliver env start fuel i left buff board) := by
  induction fuel with
  | zero =>
    intro i left buff board enough _ _
    obtain rfl : left = 0 := by omega
    exact ⟨fun _ => trivial, fun _ => rfl⟩
  | succ fuel ih =>
    intro i left buff board enough width bound
    rw [hashLoop, ChunksDeliver]
    by_cases more : 0 < left
    · have address : add32 start i = start + i := add32_of_lt (by omega)
      rw [if_pos more, address]
      simp only [more, true_imp_iff, List.nil_append]
      have flash := (flashRead_follows env (start + i) buff board).2
      have length := length_flashRead env (start + i) buff board
      rcases read : flashRead env (start + i) buff board with ⟨ok, bytes, board'⟩
      rw [read] at flash length
      simp only at flash length
      rw [Delivers, read]
      dsimp only
      have parts : readRange board.flash (start + i) left =
          readRange board.flash (start + i) (min 128 left) ++
            readRange board.flash (start + i + 128) (left - 128) := by
        by_cases full : 128 ≤ left
        · rw [Nat.min_eq_left full, ← readRange_add, Nat.add_sub_cancel' full]
        · have rest : left - 128 = 0 := by omega
          rw [Nat.min_eq_right (by omega), rest]
          exact (List.append_nil _).symm
      have same : (bytes.take (min 128 left)).length =
          (readRange board.flash (start + i) (min 128 left)).length := by
        rw [List.length_take, length_readRange]
        omega
      have rest : (hashLoop env start fuel (i + 128) (left - 128) bytes [] board').1 =
          readRange board.flash (start + i + 128) (left - 128) ↔
            ChunksDeliver env start fuel (i + 128) (left - 128) bytes board' := by
        by_cases full : 128 ≤ left
        · have next := ih (i + 128) (left - 128) bytes board' (by omega) (by omega) (by omega)
          rwa [flash, ← Nat.add_assoc] at next
        · have none : left - 128 = 0 := by omega
          rw [none]
          cases fuel with
          | zero => exact ⟨fun _ => trivial, fun _ => rfl⟩
          | succ fuel => exact ⟨fun _ some => absurd some (by decide), fun _ => rfl⟩
      rw [(hashLoop_append env start fuel (i + 128) (left - 128) bytes _ board').1, parts]
      constructor
      · intro whole
        obtain ⟨first, others⟩ := List.append_inj whole same
        exact ⟨first, rest.mp others⟩
      · rintro ⟨first, others⟩
        rw [first, rest.mpr others]
    · rw [if_neg more]
      simp only [more, false_imp_iff]
      obtain rfl : left = 0 := by omega
      exact ⟨fun _ => trivial, fun _ => rfl⟩

/-! ## The verifier's call in the log -/

def IsVerify : Event → Prop
  | .verify .. => True
  | _ => False

/-- What was recorded is no call of the verifier. -/
def Unjudged (board board' : Board) : Prop :=
  ∃ new, board'.log = new ++ board.log ∧ ∀ event ∈ new, ¬ IsVerify event

theorem Unjudged.refl (board : Board) : Unjudged board board := ⟨[], rfl, by simp⟩

theorem Unjudged.trans {b b' b'' : Board} (first : Unjudged b b') (second : Unjudged b' b'') :
    Unjudged b b'' := by
  obtain ⟨new, log, plain⟩ := first
  obtain ⟨new', log', plain'⟩ := second
  refine ⟨new' ++ new, by rw [log', log, List.append_assoc], ?_⟩
  intro event member
  rcases List.mem_append.mp member with late | early
  · exact plain' event late
  · exact plain event early

theorem flashRead_unjudged (env : Env) (offset : Nat) (old : List UInt8) (board : Board) :
    Unjudged board (flashRead env offset old board).2.2 := by
  refine ⟨_, (flashRead_follows env offset old board).1.log, ?_⟩
  intro event member
  rw [List.mem_singleton.mp member]
  exact id

theorem hashLoop_unjudged (env : Env) (start fuel : Nat) :
    ∀ (i left : Nat) (buff hashed : List UInt8) (board : Board),
      Unjudged board (hashLoop env start fuel i left buff hashed board).2 := by
  induction fuel with
  | zero => intro i left buff hashed board; exact Unjudged.refl board
  | succ fuel ih =>
    intro i left buff hashed board
    rw [hashLoop]
    split
    · exact (flashRead_unjudged env (add32 start i) buff board).trans (ih _ _ _ _ _)
    · exact Unjudged.refl board

theorem verifyEnd_unjudged (env : Env) (m : Machine) :
    Unjudged m.board (verifyEnd env m).2.board := by
  have read := flashRead_unjudged env m.updater.startAddress (List.replicate 4 0) m.board
  unfold verifyEnd
  split
  · dsimp only
    split
    · exact read
    · split
      · exact read
      · split
        · exact read
        · split <;> exact read
  · split <;> exact Unjudged.refl _

theorem commit_unjudged (env : Env) (m : Machine) : Unjudged m.board (commit env m).board := by
  unfold commit
  split
  · exact ⟨[_], rfl, by simp [IsVerify]⟩
  · exact Unjudged.refl _

/-! ## A signature that was accepted -/

/-- The trailer, the hashed bytes and the signature as `end` reads them. -/
def trailerRead (env : Env) (m : Machine) : Nat × Board := signatureLength env m.updater m.board

def imageRead (env : Env) (m : Machine) : List UInt8 × Board :=
  hashImage env m.updater.startAddress (binSize m.updater.size (trailerRead env m).1)
    (trailerRead env m).2

def signatureRead (env : Env) (m : Machine) : List UInt8 × Board :=
  readSignature env m.updater (trailerRead env m).1 (imageRead env m).2

theorem signatureLength_unjudged (env : Env) (u : UpdaterClass) (board : Board) :
    Unjudged board (signatureLength env u board).2 :=
  flashRead_unjudged env _ _ board

theorem hashImage_unjudged (env : Env) (start size : Nat) (board : Board) :
    Unjudged board (hashImage env start size board).2 :=
  hashLoop_unjudged env start _ 0 _ _ [] board

theorem readSignature_unjudged (env : Env) (u : UpdaterClass) (sigLen : Nat) (board : Board) :
    Unjudged board (readSignature env u sigLen board).2 :=
  flashRead_unjudged env _ _ board

theorem signatureRead_unjudged (env : Env) (m : Machine) :
    Unjudged m.board (signatureRead env m).2 := by
  have trailer : Unjudged m.board (trailerRead env m).2 := signatureLength_unjudged env _ _
  have image : Unjudged (trailerRead env m).2 (imageRead env m).2 :=
    hashImage_unjudged env _ _ _
  exact (trailer.trans image).trans (readSignature_unjudged env _ _ _)

theorem judgeSignature_passed {verifier : Verifier} {hashed : List UInt8}
    {signature : List UInt8 × Board} {m : Machine}
    (passed : (judgeSignature verifier hashed signature m).1 = true) :
    verifier.verify hashed signature.1 = true ∧
      (judgeSignature verifier hashed signature m).2.board =
        signature.2.note (.verify hashed signature.1 true) := by
  unfold judgeSignature at passed ⊢
  dsimp only at passed ⊢
  cases accepted : verifier.verify hashed signature.1 with
  | true => exact ⟨rfl, rfl⟩
  | false =>
    rw [accepted] at passed
    cases passed

/-- The signature check passes only with a trailer of the right length and the verifier's
consent. -/
theorem verifySignature_passed {env : Env} {verifier : Verifier} {m : Machine}
    (passed : (verifySignature env verifier m).1 = true) :
    (trailerRead env m).1 = verifier.length ∧
      verifier.verify (imageRead env m).1 (signatureRead env m).1 = true ∧
      (verifySignature env verifier m).2.board = (signatureRead env m).2.note
        (.verify (imageRead env m).1 (signatureRead env m).1 true) := by
  have unfolded : verifySignature env verifier m =
      if (trailerRead env m).1 ≠ verifier.length then
        (false, { m with board := (trailerRead env m).2 }.setError .sign)
      else checkSignature env verifier (trailerRead env m).1 (imageRead env m) m := rfl
  rw [unfolded] at passed ⊢
  by_cases other : (trailerRead env m).1 ≠ verifier.length
  · rw [if_pos other] at passed
    cases passed
  · rw [if_neg other] at passed ⊢
    have judged : checkSignature env verifier (trailerRead env m).1 (imageRead env m) m =
        if (!env.mallocSucceeds (trailerRead env m).1) = true then
          (false, { m with board := (imageRead env m).2 }.setError .sign)
        else judgeSignature verifier (imageRead env m).1 (signatureRead env m) m := rfl
    rw [judged] at passed ⊢
    by_cases denied : (!env.mallocSucceeds (trailerRead env m).1) = true
    · rw [if_pos denied] at passed
      cases passed
    · rw [if_neg denied] at passed ⊢
      exact ⟨not_not.mp other, judgeSignature_passed passed⟩

/-- **What the verifier has accepted** when `end` returns true. -/
theorem endUpdate_signed {env : Env} {evenIfRemaining : Bool} {m m' : Machine}
    {verifier : Verifier} (taken : takeRemaining env evenIfRemaining m = m')
    (installed : m'.updater.verify = some verifier)
    (ended : (endUpdate env evenIfRemaining m).1 = true) :
    Checks evenIfRemaining m.updater ∧
      (trailerRead env m').1 = verifier.length ∧
      verifier.verify (imageRead env m').1 (signatureRead env m').1 = true ∧
      Unjudged ((signatureRead env m').2.note
        (.verify (imageRead env m').1 (signatureRead env m').1 true))
        (endUpdate env evenIfRemaining m).2.board := by
  by_cases checks : Checks evenIfRemaining m.updater
  · have image : checkImage env m' = verifySignature env verifier m' := by
      rw [checkImage, installed]
    rw [endUpdate_checks checks, taken, image] at ended ⊢
    have passed := @verifySignature_passed env verifier m'
    rcases result : verifySignature env verifier m' with ⟨ok, m1⟩
    rw [result] at ended passed
    cases ok with
    | false => cases ended
    | true =>
      obtain ⟨length, accepted, recorded⟩ := passed rfl
      have checked := verifyEnd_unjudged env m1
      refine ⟨checks, length, accepted, ?_⟩
      rw [← recorded]
      dsimp only at ended checked ⊢
      rcases verified : verifyEnd env m1 with ⟨header, m2⟩
      rw [verified] at ended checked
      cases header with
      | false => cases ended
      | true => exact checked.trans (commit_unjudged env m2)
  · rw [endUpdate_skips checks] at ended
    cases ended

end Esp8266.Updater
