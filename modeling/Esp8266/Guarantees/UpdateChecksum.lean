import Esp8266.Updater.Remaining

/-!
# The checksum of an update

The first `_writeBuffer` replaces the flash mode of a sketch by the chip's and restores it before
the buffer is hashed, from the mode it was decoded to. A byte that names no mode comes back as
0xff: the bytes hashed are then not the bytes sent.
-/
set_option autoImplicit false

namespace Esp8266.Updater
open Esp8266.Lib Esp8266.Lib.NorFlash Esp8266.Lib.Word32 Esp8266.Source.Esp
  Esp8266.Source.Updater

/-! ## The restored byte -/

/-- A sketch, not compressed, whose byte 2 names no flash mode, on a chip whose own does. -/
def Garbled (command : Nat) (mode : FlashMode) (image : List UInt8) : Prop :=
  command = uFlash ∧ image.getD 0 0 ≠ 0x1f ∧ mode ≠ .unknown ∧ 3 ≤ image.length ∧
    3 < image.getD 2 0 ∧ image.getD 2 0 ≠ 0xff

instance (command : Nat) (mode : FlashMode) (image : List UInt8) :
    Decidable (Garbled command mode image) :=
  inferInstanceAs (Decidable (_ ∧ _ ∧ _ ∧ _ ∧ _ ∧ _))

theorem magicFlashChipMode_above {byte : UInt8} (above : 3 < byte) :
    magicFlashChipMode byte = .unknown := by
  have apart : ∀ mode : UInt8, mode ≤ 3 → byte ≠ mode := by
    rintro mode small rfl
    exact absurd above (UInt8.not_lt.mpr small)
  unfold magicFlashChipMode
  rw [if_neg (apart 0 (by decide)), if_neg (apart 1 (by decide)), if_neg (apart 2 (by decide)),
    if_neg (apart 3 (by decide))]

/-- A byte survives being decoded when it is one of the four modes, or 0xff. -/
theorem magicFlashChipMode_byte (byte : UInt8) :
    (magicFlashChipMode byte).byte = byte ↔ ¬ (3 < byte ∧ byte ≠ 0xff) := by
  by_cases above : 3 < byte
  · rw [magicFlashChipMode_above above]
    constructor
    · rintro same ⟨-, other⟩
      exact other same.symm
    · intro only
      by_contra other
      exact only ⟨above, fun same => other same.symm⟩
  · refine ⟨fun _ both => above both.1, fun _ => ?_⟩
    have range : byte = 0 ∨ byte = 1 ∨ byte = 2 ∨ byte = 3 := by
      simp only [UInt8.lt_iff_toNat_lt, ← UInt8.toNat_inj] at above ⊢
      change ¬ 3 < byte.toNat at above
      change byte.toNat = 0 ∨ byte.toNat = 1 ∨ byte.toNat = 2 ∨ byte.toNat = 3
      omega
    rcases range with rfl | rfl | rfl | rfl <;> decide

/-- Restoring a byte leaves a list as it was when the byte is right or the list is short. -/
theorem set_eq_self_iff {bytes : List UInt8} {x : UInt8} :
    bytes.set 2 x = bytes ↔ 3 ≤ bytes.length → x = bytes.getD 2 0 := by
  by_cases long : 3 ≤ bytes.length
  · simp only [long, true_imp_iff]
    constructor
    · intro same
      have third : (bytes.set 2 x).getD 2 0 = x := by
        rw [List.getD_eq_getElem?_getD, List.getElem?_set_self (by omega)]
        rfl
      rw [← third, same]
    · rintro rfl
      apply List.ext_getElem?
      intro i
      by_cases here : i = 2
      · subst here
        rw [List.getElem?_set_self (by omega), List.getD_eq_getElem?_getD,
          List.getElem?_eq_getElem (by omega)]
        rfl
      · rw [List.getElem?_set_ne (by omega)]
  · exact ⟨fun _ some => absurd some long, fun _ => List.set_eq_of_length_le (by omega)⟩

/-- The image as `_md5` sees it is the image unless that is garbled. -/
theorem md5Image_eq_iff (command : Nat) (mode : FlashMode) (image : List UInt8) :
    md5Image command mode image = image ↔ ¬ Garbled command mode image := by
  unfold md5Image
  by_cases patched : Patched command mode image
  · rw [if_pos patched, flashModeOffset, set_eq_self_iff, magicFlashChipMode_byte]
    obtain ⟨sketch, plain, differs⟩ := patched
    constructor
    · rintro right ⟨-, -, -, long, lost⟩
      exact right long lost
    · intro clean long lost
      refine clean ⟨sketch, plain, ?_, long, lost⟩
      rw [magicFlashChipMode_above lost.1] at differs
      exact differs.symm
  · rw [if_neg patched]
    refine ⟨fun _ garbled => patched ?_, fun _ => rfl⟩
    obtain ⟨sketch, plain, known, -, lost⟩ := garbled
    refine ⟨sketch, plain, ?_⟩
    rw [magicFlashChipMode_above lost.1]
    exact known.symm

/-! ## The bytes that were hashed -/

namespace Staging

variable {env : Env} {s : Session} {t : Trail} {m : Machine}

/-- Once all is flushed, the bytes hashed are those accepted unless these are garbled; a chip whose
mode could not be read garbles nothing. -/
theorem hashed_iff (st : Staging env s t m) (hashes : s.hashes)
    (all : t.flushed = t.accepted.length) :
    m.updater.md5 = t.accepted ↔
      ¬ (Garbled s.command s.chipMode t.accepted ∧ ∀ event ∈ t.events, event.Succeeded) := by
  have md5 := st.md5 hashes
  rw [all, List.take_length] at md5
  rw [md5, md5Image_eq_iff]
  rcases st.decoded with ⟨none | chip, succeeded⟩ | ⟨-, unread, event, member, failed⟩
  · have short : ∀ mode, ¬ Garbled s.command mode t.accepted := by
      rintro mode ⟨-, -, -, long, -⟩
      omega
    exact ⟨fun _ both => short _ both.1, fun _ => short _⟩
  · rw [chip]
    exact ⟨fun clean both => clean both.1, fun clean garbled => clean ⟨garbled, succeeded⟩⟩
  · rw [unread]
    exact ⟨fun _ both => failed (both.2 event member), fun _ garbled => garbled.2.2.1 rfl⟩

/-- What has been hashed when `end` compares the checksum. -/
theorem remaining_hashed (st : Staging env s t m) (closed : Closed s t) (hashes : s.hashes)
    {evenIfRemaining : Bool} (checks : Checks evenIfRemaining m.updater) :
    ∃ new, Follows m.board new (takeRemaining env evenIfRemaining m).board ∧
      ((takeRemaining env evenIfRemaining m).updater.md5 = t.accepted ↔
        LastFlushed env evenIfRemaining m ∧
          ¬ (Garbled s.command s.chipMode t.accepted ∧
            ∀ event ∈ new ++ t.events, event.Succeeded)) := by
  have length := st.length
  by_cases some : 0 < t.accepted.length
  · rcases st.taken closed some checks with ⟨flushed, new, mode, follows, kept⟩ |
      ⟨lost, -, ⟨error, -, updater⟩, new, follows, -⟩
    · refine ⟨new, follows, ?_⟩
      have hashed := kept.hashed_iff (cut_hashes s _ some closed.small ▸ hashes) rfl
      rw [cut_chipMode, cut_command] at hashed
      rw [hashed]
      exact ⟨fun clean => ⟨flushed, clean⟩, fun both => both.2⟩
    · refine ⟨new, follows, ?_⟩
      have short : (takeRemaining env evenIfRemaining m).updater.md5 ≠ t.accepted := by
        intro all
        -- a failed flush has bytes in the buffer, and these were not hashed
        have held : 0 < m.updater.bufferLen := by
          by_contra empty
          exact lost fun _ some => absurd some empty
        rw [updater, setError_md5, st.md5 hashes] at all
        have count := congrArg List.length all
        rw [length_md5Image, List.length_take] at count
        omega
      exact ⟨fun all => absurd all short, fun both => absurd both.1 lost⟩
  · have empty : ¬ 0 < m.updater.bufferLen := by omega
    have nothing : LastFlushed env evenIfRemaining m := fun _ held => absurd held empty
    have hashed := st.hashed_iff hashes (by omega)
    obtain ⟨size, same⟩ := @takeRemaining_empty env m empty evenIfRemaining
    refine ⟨[], ?_, ?_⟩
    · rw [same, resize_board]
      exact Follows.refl _
    · rw [same, resize_md5, hashed]
      exact ⟨fun clean => ⟨nothing, clean⟩, fun both => both.2⟩

end Staging

/-! ## The comparison -/

/-- `end` succeeds only where the expected MD5 is that of the bytes hashed. -/
theorem endUpdate_md5 {env : Env} {evenIfRemaining : Bool} {m : Machine}
    (plain : m.updater.verify = none) (ended : (endUpdate env evenIfRemaining m).1 = true)
    (expected : m.updater.targetMd5 ≠ []) :
    sameIgnoringCase m.updater.targetMd5
      (env.md5Hex (takeRemaining env evenIfRemaining m).updater.md5) = true := by
  obtain ⟨verify, target⟩ := takeRemaining_keeps env evenIfRemaining m
  by_cases checks : Checks evenIfRemaining m.updater
  · have checked : (checkImage env (takeRemaining env evenIfRemaining m)).1 = true := by
      rw [endUpdate_checks checks] at ended
      rcases result : checkImage env (takeRemaining env evenIfRemaining m) with ⟨passed, m'⟩
      rw [result] at ended
      cases passed with
      | true => rfl
      | false => cases ended
    have some : (takeRemaining env evenIfRemaining m).updater.targetMd5.length ≠ 0 := by
      rw [target]
      exact fun none => expected (List.eq_nil_of_length_eq_zero none)
    rw [checkImage, verify, plain] at checked
    dsimp only at checked
    rw [if_pos some, target] at checked
    by_contra differs
    rw [if_neg differs] at checked
    cases checked
  · rw [endUpdate_skips checks] at ended
    cases ended

/-- The flash mode in the chip's header once the first sector of the update is erased. -/
def chipMode (m : Machine) : FlashMode :=
  magicFlashChipMode (erase m.updater.startAddress flashSectorSize m.board.flash 2)

/-- All that was accepted is flushed, and the sent image is not garbled or the chip's mode could
not be read: `new` is what happened to the flash since `begin`. -/
def Covered (env : Env) (evenIfRemaining : Bool) (command : Nat) (mode : FlashMode) (r : Upload)
    (new : List Event) : Prop :=
  LastFlushed env evenIfRemaining r.machine ∧
    ¬ (Garbled command mode r.accepted ∧ ∀ event ∈ new, event.Succeeded)

section run
variable {env : Env} {size command : Nat} {around : Surroundings} {m : Machine}
  {calls : List UpdateCall} {r : Upload}

/-- What has been hashed after a run of calls, when `end` goes on to check. -/
theorem run_hashed (fits : size < 2 ^ 32) (began : (begin env size command around m).1 = true)
    (plain : m.updater.verify = none) (sized : ∀ call ∈ calls, call.Sized)
    (ran : Runs.after (perform env) calls ⟨(begin env size command around m).2, []⟩ = r)
    {evenIfRemaining : Bool} (checks : Checks evenIfRemaining r.machine.updater) :
    r.machine.updater.verify = none ∧
      ∃ new, (takeRemaining env evenIfRemaining r.machine).board.log =
          new ++ (begin env size command around m).2.board.log ∧
        ((takeRemaining env evenIfRemaining r.machine).updater.md5 = r.accepted ↔
          Covered env evenIfRemaining command (chipMode (begin env size command around m).2) r
            new) := by
  obtain ⟨s, events, begun, uploads⟩ := update_uploads fits began sized
  rw [ran] at uploads
  have hashes : s.hashes := begun.hashes_iff.mpr plain
  have chip : s.chipMode = chipMode (begin env size command around m).2 := by
    rw [chipMode, begun.staging.start, ← begun.board_eq]
    rfl
  have older := uploads.follows.log
  rw [begun.board_eq] at older
  rcases uploads.held with givenUp | ⟨flushed, mode, st, closed⟩
  · exact absurd givenUp.idle.size checks.1
  · refine ⟨by rw [st.verify, s.hashes_plain hashes], ?_⟩
    obtain ⟨new, follows, hashed⟩ := st.remaining_hashed closed hashes checks
    refine ⟨new ++ events, by rw [follows.log, older, List.append_assoc], ?_⟩
    rw [begun.command_eq, chip] at hashed
    exact hashed

/-- **The checksum covers what was sent** exactly when all of it was flushed and its mode byte was
restored. Then `end` succeeds only if the expected MD5 is that of the bytes accepted. -/
theorem checksum_covers (fits : size < 2 ^ 32)
    (began : (begin env size command around m).1 = true) (plain : m.updater.verify = none)
    (sized : ∀ call ∈ calls, call.Sized)
    (ran : Runs.after (perform env) calls ⟨(begin env size command around m).2, []⟩ = r)
    (evenIfRemaining : Bool) (checks : Checks evenIfRemaining r.machine.updater) :
    ∃ new, (takeRemaining env evenIfRemaining r.machine).board.log =
        new ++ (begin env size command around m).2.board.log ∧
      ((takeRemaining env evenIfRemaining r.machine).updater.md5 = r.accepted ↔
        Covered env evenIfRemaining command (chipMode (begin env size command around m).2) r
          new) ∧
      (Covered env evenIfRemaining command (chipMode (begin env size command around m).2) r new →
        (endUpdate env evenIfRemaining r.machine).1 = true → r.machine.updater.targetMd5 ≠ [] →
        sameIgnoringCase r.machine.updater.targetMd5 (env.md5Hex r.accepted) = true) := by
  obtain ⟨verify, new, log, hashed⟩ := run_hashed fits began plain sized ran checks
  refine ⟨new, log, hashed, ?_⟩
  intro covered ended expected
  have compared := endUpdate_md5 verify ended expected
  rw [hashed.mpr covered] at compared
  exact compared

end run

/-- A sketch of four bytes for a chip in DIO mode. -/
theorem checksum_covers_sketch :
    let env : Env := {
      layout := ⟨0x40300000, 0x40310000, by decide, by decide, by decide, by decide, by decide⟩
      chip := ⟨0x140000, 2 ^ 20, by decide⟩
      fault := fun _ => none
      md5Hex := fun bytes => bytes
      mallocSucceeds := fun _ => true
      heap := fun _ => 0
      stack := fun _ => 0 }
    let board : Board := ⟨fun a => if a = 2 then 2 else 0xff, fun _ => 0, 4096, 0, []⟩
    let m : Machine := ⟨.construct 0 none false, board⟩
    let calls : List UpdateCall := [.write [0xe9, 0x01], .write [0x03, 0x00]]
    let r := Runs.after (perform env) calls ⟨(begin env 4 uFlash ⟨0, 0⟩ m).2, []⟩
    (takeRemaining env false r.machine).updater.md5 = r.accepted := by
  intro env board m calls r
  have checks : Checks false r.machine.updater := ⟨by decide, by decide⟩
  have clean : ¬ Garbled uFlash (chipMode (begin env 4 uFlash ⟨0, 0⟩ m).2) r.accepted := by
    decide
  obtain ⟨new, -, hashed, -⟩ := @checksum_covers env 4 uFlash ⟨0, 0⟩ m calls r (by decide)
    (by decide) rfl (by decide) rfl false checks
  exact hashed.mpr ⟨fun no => (nomatch no), fun both => clean both.1⟩

/-- Byte 2 is 5: what is hashed has 0xff there. -/
theorem checksum_garbled :
    let env : Env := {
      layout := ⟨0x40300000, 0x40310000, by decide, by decide, by decide, by decide, by decide⟩
      chip := ⟨0x140000, 2 ^ 20, by decide⟩
      fault := fun _ => none
      md5Hex := fun bytes => bytes
      mallocSucceeds := fun _ => true
      heap := fun _ => 0
      stack := fun _ => 0 }
    let board : Board := ⟨fun a => if a = 2 then 2 else 0xff, fun _ => 0, 4096, 0, []⟩
    let m : Machine := ⟨.construct 0 none false, board⟩
    let r := Runs.after (perform env) [.write [0xe9, 0x01, 0x05, 0x00]]
      ⟨(begin env 4 uFlash ⟨0, 0⟩ m).2, []⟩
    (begin env 4 uFlash ⟨0, 0⟩ m).1 = true ∧ m.updater.verify = none ∧
      Checks false r.machine.updater ∧ r.accepted = [0xe9, 0x01, 0x05, 0x00] ∧
      (takeRemaining env false r.machine).updater.md5 = [0xe9, 0x01, 0xff, 0x00] ∧
      (takeRemaining env false r.machine).updater.md5 ≠ r.accepted := by
  intro env board m r
  have sent : r.accepted = [0xe9, 0x01, 0x05, 0x00] := by decide
  have hashed : (takeRemaining env false r.machine).updater.md5 = [0xe9, 0x01, 0xff, 0x00] := by
    decide
  refine ⟨by decide, rfl, ⟨by decide, by decide⟩, sent, hashed, ?_⟩
  rw [sent, hashed]
  decide

end Esp8266.Updater
