import Esp8266.Guarantees.UpdateChecksum

/-!
# What is staged

While no error is set, what is in flash and what is in the buffer are what the calls have accepted,
except for the flash mode of a sketch. Where the flash mode of the chip cannot be read,
`_writeBuffer` takes it for unknown and puts that into the image.
-/
set_option autoImplicit false

namespace Esp8266.Updater
open Esp8266.Lib Esp8266.Lib.NorFlash Esp8266.Source.Esp Esp8266.Source.Updater

/-- The part of the image that is in flash, and the part in the buffer. -/
def stagedBytes (m : Machine) : List UInt8 :=
  readRange m.board.flash m.updater.startAddress
      (m.updater.currentAddress - m.updater.startAddress) ++
    (m.updater.buffer.getD []).take m.updater.bufferLen

/-- The image is what was accepted; of a sketch that is not compressed, byte 2 may be the flash
mode of the chip. -/
def StagedImage (mode : FlashMode) (r : Upload) : Prop :=
  stagedBytes r.machine = r.accepted ∨
    r.machine.updater.command = uFlash ∧ r.accepted.getD 0 0 ≠ 0x1f ∧
      stagedBytes r.machine = r.accepted.set flashModeOffset mode.byte

/-- All reads of the flash succeeded. -/
def ReadsSucceed (events : List Event) : Prop :=
  ∀ offset size ok, .read offset size ok ∈ events → ok = true

/-- Where erases and writes succeeded and reads did too, everything did. -/
theorem succeeded_of_reads {events : List Event} (settled : ∀ event ∈ events, event.Settled)
    (reads : ReadsSucceed events) : ∀ event ∈ events, event.Succeeded := by
  intro event member
  have done := settled event member
  cases event with
  | erase sector ok => exact done
  | write offset data ok => exact done
  | read offset size ok => exact reads offset size ok member
  | verify hashed signature accepted => trivial
  | command action args => trivial
  | progress amount total => trivial

namespace Staging

variable {env : Env} {s : Session} {t : Trail} {m : Machine}

/-- The staged bytes are the image of the accepted ones. -/
theorem stagedBytes_eq (st : Staging env s t m) :
    stagedBytes m = if t.flushed = 0 then t.accepted
      else flashImage s.command t.mode t.accepted := by
  obtain ⟨buffer, held, -, content⟩ := st.buffer
  have inFlash : m.updater.currentAddress - m.updater.startAddress = t.flushed := by
    rw [st.current, st.start, Nat.add_sub_cancel_left]
  rw [stagedBytes, inFlash, st.start, held, Option.getD_some, content, st.staged]
  split
  · rename_i none
    rw [none, List.take_zero, flashImage_nil, List.drop_zero, List.nil_append]
  · rename_i started
    exact (st.image_grows _ (flashImage_append s.command t.mode) started).symm

/-- Where all reads succeeded, an image is patched with the flash mode of the chip only. -/
theorem stagedImage (st : Staging env s t m) (reads : ReadsSucceed t.events) :
    StagedImage s.chipMode ⟨m, t.accepted⟩ := by
  have succeeded := succeeded_of_reads st.settled reads
  have mode : t.flushed = 0 ∨ t.mode = s.chipMode := by
    rcases st.decoded with ⟨chip, -⟩ | ⟨-, -, event, member, failed⟩
    · exact chip
    · exact absurd (succeeded event member) failed
  have staged := st.stagedBytes_eq
  by_cases none : t.flushed = 0
  · rw [if_pos none] at staged
    exact .inl staged
  · rw [if_neg none, mode.resolve_left none, flashImage] at staged
    split at staged
    · rename_i patched
      exact .inr ⟨st.command.trans patched.1, patched.2.1, staged⟩
    · exact .inl staged

/-- Where a read failed, the image is that of an unknown flash mode. -/
theorem stagedBytes_unread (st : Staging env s t m) (unread : ¬ ReadsSucceed t.events) :
    stagedBytes m = flashImage s.command .unknown t.accepted := by
  rcases st.decoded with ⟨-, succeeded⟩ | ⟨started, unknown, -⟩
  · exact absurd (fun offset size ok member => succeeded _ member) unread
  · rw [st.stagedBytes_eq, if_neg started, unknown]

/-- The image is staged, unless a sketch was patched with a flash mode that could not be read. -/
theorem stagedImage_iff (st : Staging env s t m) :
    StagedImage s.chipMode ⟨m, t.accepted⟩ ↔
      ReadsSucceed t.events ∨ t.accepted.length < 3 ∨ ¬ Patched s.command .unknown t.accepted ∨
        s.chipMode = .unknown := by
  by_cases reads : ReadsSucceed t.events
  · exact iff_of_true (st.stagedImage reads) (.inl reads)
  have staged := st.stagedBytes_unread reads
  rw [or_iff_right reads]
  by_cases short : t.accepted.length < 3
  · refine iff_of_true (.inl (staged.trans ?_)) (.inl short)
    rw [flashImage, List.set_eq_of_length_le (by unfold flashModeOffset; omega), ite_self]
  rw [or_iff_right short]
  by_cases patched : Patched s.command .unknown t.accepted
  · rw [or_iff_right (not_not.2 patched)]
    rw [flashImage, if_pos patched] at staged
    have long : flashModeOffset < t.accepted.length := by unfold flashModeOffset; omega
    have modes := patched.2.2
    constructor
    · intro image
      have byte := congrArg (fun l => l.getD flashModeOffset 0) staged
      simp only [List.getD_eq_getElem?_getD, List.getElem?_set_self long, Option.getD_some] at byte
      rcases image with same | ⟨-, -, same⟩
      · refine absurd ?_ modes
        rw [show stagedBytes m = t.accepted from same, ← List.getD_eq_getElem?_getD] at byte
        rw [show t.accepted.getD 2 0 = FlashMode.unknown.byte from byte]
        rfl
      · rw [show stagedBytes m = t.accepted.set flashModeOffset s.chipMode.byte from same,
          List.getElem?_set_self long, Option.getD_some] at byte
        generalize s.chipMode = chip at byte
        cases chip <;> first | rfl | cases byte
    · intro unknown
      exact .inr ⟨st.command.trans patched.1, patched.2.1, by rw [unknown]; exact staged⟩
  · rw [flashImage, if_neg patched] at staged
    exact iff_of_true (.inl staged) (.inl patched)

end Staging

/-- **What is staged.** After a successful `begin` and any calls, every write went to erased bytes.
While no error is set, the staged image is what was accepted, unless the flash mode of the chip
could not be read and a sketch was patched with an unknown one. -/
theorem staged_images {env : Env} {size command : Nat} {around : Surroundings} {m : Machine}
    (fits : size < 2 ^ 32) (began : (begin env size command around m).1 = true)
    {calls : List UpdateCall} (sized : ∀ call ∈ calls, call.Sized) {r : Upload}
    (ran : Runs.after (perform env) calls ⟨(begin env size command around m).2, []⟩ = r) :
    ∃ events, Follows (begin env size command around m).2.board events r.machine.board ∧
      WellErased events ∧
      (r.machine.updater.error = .ok →
        (StagedImage (chipMode (begin env size command around m).2) r ↔
          ReadsSucceed events ∨ r.accepted.length < 3 ∨
            ¬ Patched command .unknown r.accepted ∨
            chipMode (begin env size command around m).2 = .unknown)) := by
  obtain ⟨s, events, begun, uploads⟩ := update_uploads fits began sized
  rw [ran] at uploads
  have chip : s.chipMode = chipMode (begin env size command around m).2 := by
    rw [Session.chipMode, chipMode, begun.board_eq, begun.staging.start]
  refine ⟨events, begun.board_eq ▸ uploads.follows, uploads.writes, fun fine => ?_⟩
  rcases uploads.held with givenUp | ⟨flushed, mode, st, -⟩
  · exact absurd fine givenUp.error
  · have staged := st.stagedImage_iff
    rwa [chip, begun.command_eq] at staged

/-- A chip of a megabyte; `fault` says which flash calls fail. -/
def exampleEnv (fault : Nat → Option (Nat → UInt8)) : Env where
  layout := ⟨0x40300000, 0x40310000, by decide, by decide, by decide, by decide, by decide⟩
  chip := ⟨0x140000, 2 ^ 20, by decide⟩
  fault := fault
  md5Hex := fun bytes => bytes
  mallocSucceeds := fun _ => true
  heap := fun _ => 0
  stack := fun _ => 0

/-- A sketch of a sector, and a chip with the flash mode QIO. -/
def exampleBoard : Board := ⟨fun a => if a = 2 then 0 else 0xff, fun _ => 0, 4096, 0, []⟩

/-- Four bytes of a sketch whose flash mode is not the chip's. -/
theorem staged_images_four :
    let env := exampleEnv fun _ => none
    let m : Machine := ⟨.construct 0 none false, exampleBoard⟩
    let started := (begin env 4 uFlash ⟨0, 0⟩ m).2
    let r := Runs.after (perform env) [.write [0xe9, 0, 2, 0]] ⟨started, []⟩
    ∃ events, Follows started.board events r.machine.board ∧ WellErased events ∧
      (r.machine.updater.error = .ok →
        (StagedImage (chipMode started) r ↔ ReadsSucceed events ∨ r.accepted.length < 3 ∨
          ¬ Patched uFlash .unknown r.accepted ∨ chipMode started = .unknown)) := by
  intro env m started r
  exact staged_images (by decide) (by decide) (by decide) rfl

/-- The read of the flash mode fails: no error is set, and the sketch has a flash mode that is
neither its own nor the chip's. -/
theorem staged_unread_mode :
    let env := exampleEnv fun k => if k = 2 then some fun _ => 0 else none
    let m : Machine := ⟨.construct 0 none false, exampleBoard⟩
    let started := (begin env 4 uFlash ⟨0, 0⟩ m).2
    let r := Runs.after (perform env) [.write [0xe9, 0, 2, 0]] ⟨started, []⟩
    (begin env 4 uFlash ⟨0, 0⟩ m).1 = true ∧ r.machine.updater.error = .ok ∧
      ¬ StagedImage (chipMode started) r := by
  intro env m started r
  have accepted : r.accepted = [0xe9, 0, 2, 0] := by decide
  have staged : stagedBytes r.machine = [0xe9, 0, 0xff, 0] := by decide
  have mode : chipMode started = .qio := by decide
  refine ⟨by decide, by decide, ?_⟩
  rw [StagedImage, accepted, staged, mode]
  decide

end Esp8266.Updater
