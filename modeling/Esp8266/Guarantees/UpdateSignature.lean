import Esp8266.Updater.Signature

/-!
# The signature of an update

`end` computes where the signature is from a size that nobody has compared with the length of the
signature, and does not look at the results of its reads.
-/
set_option autoImplicit false

namespace Esp8266.Updater
open Esp8266.Lib Esp8266.Lib.NorFlash Esp8266.Lib.Word32 Esp8266.Source.Esp
  Esp8266.Source.Updater

/-- The last 32-bit word of an image. -/
def lastWord (image : List UInt8) : Nat :=
  let word := image.drop (image.length - 4)
  wordOf (word.getD 0 0) (word.getD 1 0) (word.getD 2 0) (word.getD 3 0)

/-- The image ends with a signature of `sigLen` bytes and their number; what was hashed is all
that stands before. -/
structure SignedBy (sigLen : Nat) (image hashed signature : List UInt8) : Prop where
  long : sigLen + 4 ≤ image.length
  trailer : lastWord image = sigLen
  hashed : hashed = image.take (image.length - sigLen - 4)
  signature : signature = (image.drop (image.length - sigLen - 4)).take sigLen

/-- The reads of the signature check deliver what is in flash. -/
def ReadsDeliver (env : Env) (sigLen : Nat) (m : Machine) : Prop :=
  let start := m.updater.startAddress
  let dataLen := m.updater.size - sigLen - 4
  Delivers env (start + m.updater.size - 4) (List.replicate 4 0) 4 m.board ∧
    ChunksDeliver env start (dataLen + 1) 0 dataLen ((List.range 128).map env.heap)
      (trailerRead env m).2 ∧
    Delivers env (start + dataLen) ((List.range sigLen).map env.heap) sigLen (imageRead env m).2

instance (env : Env) (sigLen : Nat) (m : Machine) : Decidable (ReadsDeliver env sigLen m) :=
  inferInstanceAs (Decidable (_ ∧ _ ∧ _))

theorem eq_of_wordOf {xs ys : List UInt8} (xs_length : xs.length = 4) (ys_length : ys.length = 4)
    (same : wordOf (xs.getD 0 0) (xs.getD 1 0) (xs.getD 2 0) (xs.getD 3 0) =
      wordOf (ys.getD 0 0) (ys.getD 1 0) (ys.getD 2 0) (ys.getD 3 0)) : xs = ys := by
  match xs, ys, xs_length, ys_length with
  | [a, b, c, d], [a', b', c', d'], _, _ =>
    change wordOf a b c d = wordOf a' b' c' d' at same
    have bounds := And.intro a.toNat_lt (And.intro b.toNat_lt (And.intro c.toNat_lt
      (And.intro d.toNat_lt (And.intro a'.toNat_lt (And.intro b'.toNat_lt
        (And.intro c'.toNat_lt d'.toNat_lt))))))
    unfold wordOf at same
    simp only [List.cons.injEq, ← UInt8.toNat_inj, and_true]
    omega

theorem binSize_eq {size sigLen : Nat} (long : sigLen + 4 ≤ size) (small : size < 2 ^ 32) :
    binSize size sigLen = size - sigLen - 4 := by
  have data : sub32 size sigLen = size - sigLen := sub32_of_le (by omega) small
  rw [binSize, data, sub32_of_le (by omega) (by omega)]

section check
variable {env : Env} {m : Machine} {sigLen : Nat}

/-- The trailer that was read is the last word of the image. -/
theorem trailer_iff (long : 4 ≤ m.updater.size)
    (bound : m.updater.startAddress + m.updater.size < 2 ^ 31)
    (length : (trailerRead env m).1 = sigLen) :
    lastWord (readRange m.board.flash m.updater.startAddress m.updater.size) = sigLen ↔
      Delivers env (m.updater.startAddress + m.updater.size - 4) (List.replicate 4 0) 4
        m.board := by
  have address : sub32 (add32 m.updater.startAddress m.updater.size) 4 =
      m.updater.startAddress + m.updater.size - 4 := by
    rw [add32_of_lt (by omega), sub32_of_le (by omega) (by omega)]
  have width := length_flashRead env (m.updater.startAddress + m.updater.size - 4)
    (List.replicate 4 0) m.board
  rw [trailerRead, signatureLength, address] at length
  dsimp only at length
  have last : (readRange m.board.flash m.updater.startAddress m.updater.size).drop
      (m.updater.size - 4) =
        readRange m.board.flash (m.updater.startAddress + m.updater.size - 4) 4 := by
    have part := readRange_drop_take m.board.flash m.updater.startAddress m.updater.size
      (m.updater.size - 4) 4 (by omega)
    rw [List.take_of_length_le (by rw [List.length_drop, length_readRange]; omega)] at part
    rw [part, Nat.add_sub_assoc long]
  rw [lastWord, length_readRange, last, Delivers, ← length,
    List.take_of_length_le (by rw [width]; rfl)]
  constructor
  · intro same
    exact (eq_of_wordOf (length_readRange _ _ _) width same).symm
  · intro same
    rw [same]

/-- The bytes hashed are those before the signature. -/
theorem image_iff (long : sigLen + 4 ≤ m.updater.size)
    (bound : m.updater.startAddress + m.updater.size < 2 ^ 31)
    (length : (trailerRead env m).1 = sigLen) :
    (imageRead env m).1 =
        readRange m.board.flash m.updater.startAddress (m.updater.size - sigLen - 4) ↔
      ChunksDeliver env m.updater.startAddress (m.updater.size - sigLen - 4 + 1) 0
        (m.updater.size - sigLen - 4) ((List.range 128).map env.heap) (trailerRead env m).2 := by
  have size : binSize m.updater.size sigLen = m.updater.size - sigLen - 4 :=
    binSize_eq long (by omega)
  have flash : (trailerRead env m).2.flash = m.board.flash :=
    (signatureLength_quiet env m.updater m.board).flash
  rw [imageRead, length, size, hashImage, if_pos (by omega)]
  rw [← hashLoop_eq_iff env m.updater.startAddress _ 0 _ _ _ (by omega)
    (by rw [List.length_map, List.length_range]) (by omega), flash,
    Nat.add_zero m.updater.startAddress]

/-- The signature is what stands between them and the trailer. -/
theorem signature_iff (long : sigLen + 4 ≤ m.updater.size)
    (bound : m.updater.startAddress + m.updater.size < 2 ^ 31)
    (length : (trailerRead env m).1 = sigLen) :
    (signatureRead env m).1 = readRange m.board.flash
        (m.updater.startAddress + (m.updater.size - sigLen - 4)) sigLen ↔
      Delivers env (m.updater.startAddress + (m.updater.size - sigLen - 4))
        ((List.range sigLen).map env.heap) sigLen (imageRead env m).2 := by
  have size : binSize m.updater.size sigLen = m.updater.size - sigLen - 4 :=
    binSize_eq long (by omega)
  have address : add32 m.updater.startAddress (m.updater.size - sigLen - 4) =
      m.updater.startAddress + (m.updater.size - sigLen - 4) := add32_of_lt (by omega)
  have trailer : Quiet m.board (trailerRead env m).2 := signatureLength_quiet env _ _
  have image : Quiet (trailerRead env m).2 (imageRead env m).2 := hashImage_quiet env _ _ _
  have flash := (trailer.trans image).flash
  have width := length_flashRead env
    (m.updater.startAddress + (m.updater.size - sigLen - 4)) ((List.range sigLen).map env.heap)
    (imageRead env m).2
  rw [List.length_map, List.length_range] at width
  rw [signatureRead, length, readSignature, size, address, Delivers, flash]
  dsimp only
  rw [List.take_of_length_le (Nat.le_of_eq width)]

/-- A check with the right trailer is about the image exactly when that is long enough and the
reads deliver. -/
theorem signed_iff (bound : m.updater.startAddress + m.updater.size < 2 ^ 31)
    (length : (trailerRead env m).1 = sigLen) :
    SignedBy sigLen (readRange m.board.flash m.updater.startAddress m.updater.size)
        (imageRead env m).1 (signatureRead env m).1 ↔
      sigLen + 4 ≤ m.updater.size ∧ ReadsDeliver env sigLen m := by
  have width : (readRange m.board.flash m.updater.startAddress m.updater.size).length =
      m.updater.size := length_readRange _ _ _
  by_cases long : sigLen + 4 ≤ m.updater.size
  · have data : (readRange m.board.flash m.updater.startAddress m.updater.size).take
        (m.updater.size - sigLen - 4) =
        readRange m.board.flash m.updater.startAddress (m.updater.size - sigLen - 4) := by
      have part := readRange_drop_take m.board.flash m.updater.startAddress m.updater.size 0
        (m.updater.size - sigLen - 4) (by omega)
      rwa [List.drop_zero, Nat.add_zero] at part
    have behind := readRange_drop_take m.board.flash m.updater.startAddress m.updater.size
      (m.updater.size - sigLen - 4) sigLen (by omega)
    have trailer := trailer_iff (by omega) bound length
    have image := image_iff long bound length
    have signature := signature_iff long bound length
    constructor
    · rintro ⟨-, word, hashed, signed⟩
      rw [width, data] at hashed
      rw [width, behind] at signed
      exact ⟨long, trailer.mp word, image.mp hashed, signature.mp signed⟩
    · rintro ⟨-, word, hashed, signed⟩
      refine ⟨by rw [width]; exact long, trailer.mpr word, ?_, ?_⟩
      · rw [width, data]
        exact image.mpr hashed
      · rw [width, behind]
        exact signature.mpr signed
  · exact ⟨fun signed => absurd (by rw [← width]; exact signed.long) long,
      fun both => absurd both.1 long⟩

end check

/-- **The signature covers the image** exactly when that has room for one, the last flush did not
fail and the reads deliver. -/
theorem signature_covers {env : Env} {size command : Nat} {around : Surroundings} {m : Machine}
    {calls : List UpdateCall} {r : Upload} {verifier : Verifier} (fits : size < 2 ^ 32)
    (began : (begin env size command around m).1 = true)
    (installed : m.updater.verify = some verifier) (sized : ∀ call ∈ calls, call.Sized)
    (ran : Runs.after (perform env) calls ⟨(begin env size command around m).2, []⟩ = r)
    (evenIfRemaining : Bool) {m' : Machine}
    (taken : takeRemaining env evenIfRemaining r.machine = m')
    (ended : (endUpdate env evenIfRemaining r.machine).1 = true) :
    ∃ hashed signature before, Unjudged m'.board before ∧
      verifier.verify hashed signature = true ∧
      Unjudged (before.note (.verify hashed signature true))
        (endUpdate env evenIfRemaining r.machine).2.board ∧
      (SignedBy verifier.length
          (readRange m'.board.flash m'.updater.startAddress m'.updater.size) hashed signature ↔
        verifier.length + 4 ≤ r.accepted.length ∧ LastFlushed env evenIfRemaining r.machine ∧
          ReadsDeliver env verifier.length m') := by
  obtain ⟨s, events, begun, uploads⟩ := update_uploads fits began sized
  rw [ran] at uploads
  have kept := (takeRemaining_keeps env evenIfRemaining r.machine).1
  rcases uploads.held with givenUp | ⟨flushed, mode, st, closed⟩
  · have skips : ¬ Checks evenIfRemaining r.machine.updater := fun checks =>
      checks.1 givenUp.idle.size
    rw [endUpdate_skips skips] at ended
    cases ended
  · rw [taken, st.verify, begun.verify_eq, installed] at kept
    obtain ⟨checks, length, accepted, recorded⟩ := endUpdate_signed taken kept ended
    refine ⟨_, _, _, signatureRead_unjudged env m', accepted, recorded, ?_⟩
    have bound := st.bound
    have count := st.length
    have size : (LastFlushed env evenIfRemaining r.machine ∧
        m'.updater.size = r.accepted.length ∧
          m'.updater.startAddress + m'.updater.size < 2 ^ 31) ∨
      m'.updater.size = 0 ∧ m'.updater.startAddress < 2 ^ 31 ∧
        (¬ LastFlushed env evenIfRemaining r.machine ∨ r.accepted.length = 0) := by
      by_cases some : 0 < r.accepted.length
      · rcases st.taken closed some checks with ⟨last, new, mode', -, complete⟩ |
          ⟨lost, -, ⟨error, -, updater⟩, -⟩
        · have inside := complete.bound
          have start := complete.start
          have whole := complete.size
          rw [taken] at start whole
          left
          refine ⟨last, whole, ?_⟩
          rw [whole, start]
          exact Nat.lt_of_le_of_lt inside (by decide)
        · right
          rw [← taken, updater]
          exact ⟨rfl, Nat.two_pow_pos 31, .inl lost⟩
      · obtain ⟨none, start⟩ := st.taken_nothing (by simpa using some) checks
        rw [taken] at none start
        right
        refine ⟨none, ?_, .inr (by omega)⟩
        rw [start]
        exact Nat.lt_of_le_of_lt s.start_le (by decide)
    rcases size with ⟨last, whole, inside⟩ | ⟨none, start, why⟩
    · rw [signed_iff inside length, whole]
      exact ⟨fun both => ⟨both.1, last, both.2⟩, fun all => ⟨all.1, all.2.2⟩⟩
    · rw [signed_iff (by omega) length, none]
      constructor
      · rintro ⟨long, -⟩
        omega
      · rintro ⟨long, last, -⟩
        rcases why with lost | few
        · exact absurd last lost
        · omega

/-- Four bytes with a signature that is their sum. -/
theorem signature_covers_sketch :
    let env : Env := {
      layout := ⟨0x40300000, 0x40310000, by decide, by decide, by decide, by decide, by decide⟩
      chip := ⟨0x140000, 2 ^ 20, by decide⟩
      fault := fun _ => none
      md5Hex := fun bytes => bytes
      mallocSucceeds := fun _ => true
      heap := fun _ => 0
      stack := fun _ => 0 }
    let board : Board := ⟨fun a => if a = 2 then 0 else 0xff, fun _ => 0, 4096, 0, []⟩
    let verifier : Verifier := ⟨4, fun hashed signature =>
      signature.headD 0 = hashed.foldl (· + ·) 0xff⟩
    let m : Machine := ⟨.construct 0 (some verifier) false, board⟩
    let r := Runs.after (perform env)
      [.write [0xe9, 0, 0, 0], .write [0xe8, 0, 0, 0, 4, 0, 0, 0]]
      ⟨(begin env 12 uFlash ⟨0, 0⟩ m).2, []⟩
    let m' := takeRemaining env false r.machine
    ∃ hashed signature, verifier.verify hashed signature = true ∧
      SignedBy 4 (readRange m'.board.flash m'.updater.startAddress m'.updater.size) hashed
        signature := by
  intro env board verifier m r m'
  obtain ⟨hashed, signature, before, -, accepted, -, signed⟩ := @signature_covers env 12 uFlash
    ⟨0, 0⟩ m _ r verifier (by decide) (by decide) rfl (by decide) rfl false m' rfl
    (by decide +kernel)
  exact ⟨hashed, signature, accepted,
    signed.mpr ⟨by decide, fun no => (nomatch no), by decide +kernel⟩⟩

/-- Five bytes that end with the length of the signature: nothing is hashed, and the signature is
read from three bytes before the image on. -/
theorem signature_outside :
    let env : Env := {
      layout := ⟨0x40300000, 0x40310000, by decide, by decide, by decide, by decide, by decide⟩
      chip := ⟨0x140000, 2 ^ 20, by decide⟩
      fault := fun _ => none
      md5Hex := fun bytes => bytes
      mallocSucceeds := fun _ => true
      heap := fun _ => 0
      stack := fun _ => 0 }
    let board : Board := ⟨fun a => if a = 2 then 0 else 0xff, fun _ => 0, 4096, 0, []⟩
    let verifier : Verifier := ⟨4, fun hashed signature =>
      signature.headD 0 = hashed.foldl (· + ·) 0xff⟩
    let m : Machine := ⟨.construct 0 (some verifier) false, board⟩
    let r := Runs.after (perform env) [.write [0xe9, 4, 0, 0, 0]]
      ⟨(begin env 5 uFlash ⟨0, 0⟩ m).2, []⟩
    let m' := takeRemaining env false r.machine
    (begin env 5 uFlash ⟨0, 0⟩ m).1 = true ∧ (endUpdate env false r.machine).1 = true ∧
      m'.updater.size < verifier.length + 4 ∧ (imageRead env m').1 = [] ∧
      (signatureRead env m').1 = readRange m'.board.flash (m'.updater.startAddress - 3) 4 := by
  intro env board verifier m r m'
  refine ⟨?_, ?_, ?_, ?_, ?_⟩ <;> decide

end Esp8266.Updater
