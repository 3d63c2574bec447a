import Esp8266.Updater.Image

/-!
# The staging invariant

A session is what a successful `begin` fixed; a trail is what the calls since then have done.
`Staging` ties the updater, the flash and the log to them. Filling the buffer and flushing it
keep it; the write paths are built from these two steps.
-/
set_option autoImplicit false

namespace Esp8266.Updater
open Esp8266.Lib.NorFlash Esp8266.Lib.Word32 Esp8266.Source.Esp Esp8266.Source.Updater

/-- What a successful `begin` fixed, and the board it left. -/
structure Session where
  start : Nat
  size : Nat
  command : Nat
  bufferSize : Nat
  verify : Option Verifier
  /-- No verifier has been installed since the MD5 was begun. -/
  hashes : Prop
  board : Board
  command_known : command = uFlash ∨ command = uFs
  hashes_plain : hashes → verify = none
  start_aligned : start % flashSectorSize = 0
  start_le : start ≤ 2 ^ 24
  size_pos : 0 < size
  size_lt : size < 2 ^ 32
  bufferSize_eq : bufferSize = 4096 ∨ bufferSize = 256

/-- The flash mode that the first `_writeBuffer` reads, after it has erased its sector. -/
def Session.chipMode (s : Session) : FlashMode :=
  magicFlashChipMode (erase s.start flashSectorSize s.board.flash 2)

/-- The bytes accepted since `begin`, how many of them are in flash, the flash mode that the
first flush read, and the events since `begin`, newest first. -/
structure Trail where
  accepted : List UInt8
  flushed : Nat
  mode : FlashMode
  events : List Event

/-- The end of the sector that `a` is in, or `a` at its start. -/
def sectorEnd (a : Nat) : Nat := (a + 4095) / 4096 * 4096

structure Staging (env : Env) (s : Session) (t : Trail) (m : Machine) : Prop where
  error : m.updater.error = .ok
  size : m.updater.size = s.size
  start : m.updater.startAddress = s.start
  command : m.updater.command = s.command
  bufferSize : m.updater.bufferSize = s.bufferSize
  verify : m.updater.verify = s.verify
  current : m.updater.currentAddress = s.start + t.flushed
  bound : s.start + t.flushed ≤ 2 ^ 24
  buffer : ∃ buffer, m.updater.buffer = some buffer ∧ buffer.length = s.bufferSize ∧
    buffer.take m.updater.bufferLen = t.accepted.drop t.flushed
  length : t.flushed + m.updater.bufferLen = t.accepted.length
  fits : m.updater.bufferLen ≤ s.bufferSize
  aligned : t.flushed % s.bufferSize = 0 ∨ t.flushed = s.size
  complete : t.flushed = s.size → m.updater.bufferLen = 0
  untouched : t.flushed = 0 → m.board.flash = s.board.flash
  decoded : ((t.flushed = 0 ∨ t.mode = s.chipMode) ∧ ∀ event ∈ t.events, event.Succeeded) ∨
    (t.flushed ≠ 0 ∧ t.mode = .unknown ∧ ∃ event ∈ t.events, ¬ event.Succeeded)
  staged : readRange m.board.flash s.start t.flushed =
    flashImage s.command t.mode (t.accepted.take t.flushed)
  md5 : s.hashes → m.updater.md5 = md5Image s.command t.mode (t.accepted.take t.flushed)
  follows : Follows s.board t.events m.board
  erased : ∀ a, s.start + t.flushed ≤ a → a < sectorEnd (s.start + t.flushed) →
    m.board.flash a = 0xff ∧ ErasedSince t.events a
  writes : WellErased t.events
  settled : ∀ event ∈ t.events, event.Settled

namespace Staging

variable {env : Env} {s : Session} {t : Trail} {m : Machine}

theorem bufferLen_le (st : Staging env s t m) : m.updater.bufferLen ≤ 4096 := by
  have fits := st.fits
  rcases s.bufferSize_eq with h | h <;> omega

theorem progress_eq (st : Staging env s t m) : m.updater.progress = t.flushed := by
  have bound := st.bound
  rw [UpdaterClass.progress, st.current, st.start, sub32_of_le (by omega) (by omega)]
  omega

theorem remaining_eq (st : Staging env s t m) :
    m.updater.remaining = sub32 s.size t.flushed := by
  have progress := st.progress_eq
  unfold UpdaterClass.progress at progress
  rw [UpdaterClass.remaining, progress, st.size]

theorem remaining_of_le (st : Staging env s t m) (inside : t.flushed ≤ s.size) :
    m.updater.remaining = s.size - t.flushed := by
  rw [st.remaining_eq, sub32_of_le inside s.size_lt]

/-- `remaining()` is zero exactly at the end of the image. -/
theorem remaining_eq_zero (st : Staging env s t m) :
    m.updater.remaining = 0 ↔ t.flushed = s.size := by
  have bound := st.bound
  have size := s.size_lt
  rw [st.remaining_eq]
  unfold sub32
  omega

theorem running (st : Staging env s t m) :
    (m.updater.hasError || !m.updater.isRunning) = false := by
  have positive := s.size_pos
  simp [UpdaterClass.hasError, UpdaterClass.isRunning, st.error, st.size, positive]

/-- `remaining()` while the image is not passed: the bytes that are not in flash yet. -/
theorem accepted_take_flushed (st : Staging env s t m) :
    (t.accepted.take t.flushed).length = t.flushed := by
  have length := st.length
  simp
  omega

/-- Filling the buffer. -/
theorem fill (st : Staging env s t m) (bytes : List UInt8)
    (room : m.updater.bufferLen + bytes.length ≤ s.bufferSize)
    (open_ : bytes = [] ∨ t.flushed ≠ s.size) :
    Staging env s { t with accepted := t.accepted ++ bytes } (m.fill bytes) := by
  obtain ⟨buffer, held, allocated, content⟩ := st.buffer
  have length := st.length
  have small := st.bufferLen_le
  have size := s.bufferSize_eq
  have newLen : add32 m.updater.bufferLen bytes.length = m.updater.bufferLen + bytes.length :=
    add32_of_lt (by omega)
  have inside : t.flushed ≤ t.accepted.length := by omega
  have taken : (t.accepted ++ bytes).take t.flushed = t.accepted.take t.flushed :=
    List.take_append_of_le_length inside
  exact {
    st with
    buffer := by
      refine ⟨buffer.take m.updater.bufferLen ++ bytes ++
        buffer.drop (m.updater.bufferLen + bytes.length), ?_, ?_, ?_⟩
      · simp only [Machine.fill, held, Option.map_some]
      · have := st.fits
        simp
        omega
      · have width : (buffer.take m.updater.bufferLen ++ bytes).length =
            m.updater.bufferLen + bytes.length := by
          have := st.fits
          simp
          omega
        change List.take (add32 m.updater.bufferLen bytes.length) _ = _
        rw [newLen, List.take_left' width, content, List.drop_append_of_le_length inside]
    length := by
      change t.flushed + add32 m.updater.bufferLen bytes.length = (t.accepted ++ bytes).length
      rw [newLen, List.length_append]
      omega
    fits := by
      change add32 m.updater.bufferLen bytes.length ≤ s.bufferSize
      rw [newLen]
      exact room
    complete := by
      intro finished
      change add32 m.updater.bufferLen bytes.length = 0
      rcases open_ with rfl | unfinished
      · rw [newLen, st.complete finished]
        rfl
      · exact absurd finished unfinished
    staged := by
      change readRange m.board.flash s.start t.flushed = _
      rw [taken, st.staged]
    md5 := by
      intro plain
      change m.updater.md5 = _
      rw [taken, st.md5 plain] }

end Staging

/-! ## One flush -/

/-- What `_writeBuffer` does to the flash at address `base` with `len` bytes in the buffer. -/
def FlushEvent (base len : Nat) : Event → Prop
  | .erase sector _ => base % flashSectorSize = 0 ∧ sector = base / flashSectorSize
  | .write offset data _ => offset = base ∧ data.length = len
  | _ => True

theorem flushEvent_of_silent {base len : Nat} {event : Event} (silent : event.Silent) :
    FlushEvent base len event := by
  cases event <;> trivial

theorem le_sectorEnd (a : Nat) : a ≤ sectorEnd a := by
  unfold sectorEnd
  omega

/-- The erase at the start of a sector, for an address on the chip. -/
theorem eraseSector_cases (env : Env) (u : UpdaterClass) (board : Board)
    (bound : u.currentAddress ≤ 2 ^ 24) :
    ∃ events, Follows board events (eraseSector env u board).2 ∧
      ((u.currentAddress % flashSectorSize = 0 ∧
          events = [.erase (u.currentAddress / flashSectorSize) (eraseSector env u board).1] ∧
          ((eraseSector env u board).1 = true →
            u.currentAddress + flashSectorSize ≤ env.chip.size ∧
            (eraseSector env u board).2.flash =
              erase u.currentAddress flashSectorSize board.flash)) ∨
        (u.currentAddress % flashSectorSize ≠ 0 ∧ events = [] ∧
          (eraseSector env u board).1 = true ∧ (eraseSector env u board).2 = board)) := by
  by_cases opens : u.currentAddress % flashSectorSize = 0
  · have sector : u.currentAddress / flashSectorSize % 2 ^ 16 =
        u.currentAddress / flashSectorSize := by
      unfold flashSectorSize
      omega
    have address : u.currentAddress / flashSectorSize * flashSectorSize = u.currentAddress := by
      unfold flashSectorSize at *
      omega
    have call : eraseSector env u board =
        flashEraseSector env (u.currentAddress / flashSectorSize) board := if_pos opens
    have recorded := flashEraseSector_follows env (u.currentAddress / flashSectorSize) board
    rw [sector] at recorded
    rw [call]
    refine ⟨_, recorded, .inl ⟨opens, rfl, ?_⟩⟩
    intro ok
    have done := flashChange_done ok
    simp only [sector, address] at done
    refine ⟨done.1, ?_⟩
    have flash := done.2
    unfold flashEraseSector
    simp only [sector, address]
    exact flash
  · have skip : eraseSector env u board = (true, board) := if_neg opens
    rw [skip]
    exact ⟨[], Follows.refl board, .inr ⟨opens, rfl, rfl, rfl⟩⟩

theorem getFlashChipMode_cases (env : Env) (board : Board) :
    ∃ events, Follows board events (getFlashChipMode env board).2 ∧
      (∀ event ∈ events, event.Silent) ∧
      (getFlashChipMode env board).2.flash = board.flash ∧
      (((getFlashChipMode env board).1 = magicFlashChipMode (board.flash 2) ∧
          ∀ event ∈ events, event.Succeeded) ∨
        ((getFlashChipMode env board).1 = .unknown ∧ ∃ event ∈ events, ¬ event.Succeeded)) := by
  obtain ⟨recorded, same⟩ := flashRead_follows env 0 (List.replicate 4 0) board
  refine ⟨_, recorded, ?_, same, ?_⟩
  · intro event member
    rw [List.mem_singleton.mp member]
    trivial
  · cases ok : (flashRead env 0 (List.replicate 4 0) board).1 with
    | true =>
      left
      have bytes := flashRead_done ok
      constructor
      · unfold getFlashChipMode
        simp only [ok, bytes, if_true]
        rfl
      · intro event member
        rw [List.mem_singleton.mp member]
        rfl
    | false =>
      right
      have unread : (getFlashChipMode env board).1 = .unknown := by
        unfold getFlashChipMode
        simp only [ok, Bool.false_eq_true, if_false]
      refine ⟨unread, _, List.mem_singleton_self _, ?_⟩
      simp [Event.Succeeded]

/-- At the first page the buffer is written and restored as the image of some flash mode, which
is the chip's unless the read failed; elsewhere it is written as it is. -/
theorem patchFlashMode_cases (env : Env) (u : UpdaterClass) (board : Board)
    (buffer : List UInt8) (held : u.buffer = some buffer) :
    ∃ events mode, Follows board events (patchFlashMode env u board).2 ∧
      (∀ event ∈ events, event.Silent) ∧
      (patchFlashMode env u board).2.flash = board.flash ∧
      ((mode = magicFlashChipMode (board.flash 2) ∧ ∀ event ∈ events, event.Succeeded) ∨
        (mode = .unknown ∧ ∃ event ∈ events, ¬ event.Succeeded)) ∧
      (u.currentAddress = add32 u.startAddress flashModePage →
        (patchFlashMode env u board).1.written = flashImage u.command mode buffer ∧
        (patchFlashMode env u board).1.restored = md5Image u.command mode buffer) ∧
      (u.currentAddress ≠ add32 u.startAddress flashModePage → events = [] ∧
        (patchFlashMode env u board).1.written = buffer ∧
        (patchFlashMode env u board).1.restored = buffer) := by
  by_cases first : u.currentAddress = add32 u.startAddress flashModePage ∧
      buffer.getD 0 0 ≠ 0x1f ∧ u.command = uFlash
  · obtain ⟨events, recorded, silent, same, mode⟩ := getFlashChipMode_cases env board
    refine ⟨events, (getFlashChipMode env board).1, ?_, silent, ?_, mode, ?_, ?_⟩
    · unfold patchFlashMode
      simp only [held, Option.getD_some, if_pos first]
      split <;> exact recorded
    · unfold patchFlashMode
      simp only [held, Option.getD_some, if_pos first]
      split <;> exact same
    · intro _
      have patched : Patched u.command (getFlashChipMode env board).1 buffer ↔
          magicFlashChipMode (buffer.getD flashModeOffset 0) ≠ (getFlashChipMode env board).1 :=
        ⟨fun h => h.2.2, fun h => ⟨first.2.2, first.2.1, h⟩⟩
      unfold patchFlashMode flashImage md5Image
      simp only [held, Option.getD_some, if_pos first, patched]
      by_cases differ :
          magicFlashChipMode (buffer.getD flashModeOffset 0) ≠ (getFlashChipMode env board).1
      · simp only [if_pos differ, List.set_set]
        exact ⟨trivial, rfl⟩
      · simp only [if_neg differ]
        trivial
    · intro other
      exact absurd first.1 other
  · refine ⟨[], magicFlashChipMode (board.flash 2), ?_, by simp, ?_, .inl ⟨rfl, by simp⟩, ?_, ?_⟩
    · unfold patchFlashMode
      simp only [held, Option.getD_some, if_neg first]
      exact Follows.refl board
    · unfold patchFlashMode
      simp only [held, Option.getD_some, if_neg first]
    · intro page
      have never : ¬ Patched u.command (magicFlashChipMode (board.flash 2)) buffer :=
        fun patched => first ⟨page, patched.2.1, patched.1⟩
      unfold patchFlashMode flashImage md5Image
      simp only [held, Option.getD_some, if_neg first, if_neg never]
      trivial
    · intro _
      unfold patchFlashMode
      simp only [held, Option.getD_some, if_neg first]
      exact ⟨trivial, trivial, trivial⟩

namespace Staging

variable {env : Env} {s : Session} {t : Trail} {m : Machine}

/-- The buffer always ends in the sector that is open, or opened by this flush. -/
theorem room_in_sector (st : Staging env s t m) :
    ((s.start + t.flushed) % flashSectorSize = 0 ∧
      sectorEnd (s.start + t.flushed + m.updater.bufferLen) ≤
        s.start + t.flushed + flashSectorSize) ∨
    ((s.start + t.flushed) % flashSectorSize ≠ 0 ∧
      sectorEnd (s.start + t.flushed + m.updater.bufferLen) ≤ sectorEnd (s.start + t.flushed)) := by
  have start := s.start_aligned
  have fits := st.fits
  have complete := st.complete
  unfold sectorEnd flashSectorSize at *
  rcases s.bufferSize_eq with whole | small
  · rw [whole] at fits
    rcases st.aligned with aligned | finished
    · rw [whole] at aligned
      omega
    · have := complete finished
      omega
  · rw [small] at fits
    rcases st.aligned with aligned | finished
    · rw [small] at aligned
      omega
    · have := complete finished
      omega

/-- Once its sector is open, everything the buffer covers is erased, and so is the rest of that
sector; what is in flash already stays. -/
theorem opened (st : Staging env s t m) :
    ∃ events, Follows m.board events (eraseSector env m.updater m.board).2 ∧
      WellErased (events ++ t.events) ∧
      (∀ event ∈ events, FlushEvent (s.start + t.flushed) m.updater.bufferLen event) ∧
      ((eraseSector env m.updater m.board).1 = false → ∃ event ∈ events, ¬ event.Succeeded) ∧
      ((eraseSector env m.updater m.board).1 = true →
        (∀ a, s.start + t.flushed ≤ a →
          a < sectorEnd (s.start + t.flushed + m.updater.bufferLen) →
          (eraseSector env m.updater m.board).2.flash a = 0xff ∧
            ErasedSince (events ++ t.events) a) ∧
        (∀ a, a < s.start + t.flushed →
          (eraseSector env m.updater m.board).2.flash a = m.board.flash a) ∧
        (t.flushed = 0 → (eraseSector env m.updater m.board).2.flash =
          erase s.start flashSectorSize m.board.flash) ∧
        ∀ event ∈ events, event.Settled ∧ event.Succeeded) := by
  have bound := st.bound
  obtain ⟨events, recorded, cases_⟩ := eraseSector_cases env m.updater m.board
    (by rw [st.current]; exact bound)
  rw [st.current] at cases_
  refine ⟨events, recorded, ?_⟩
  rcases cases_ with ⟨opens, rfl, done⟩ | ⟨inside, rfl, ok, same⟩
  · refine ⟨st.writes, ?_, ?_, ?_⟩
    · intro event member
      rw [List.mem_singleton.mp member]
      exact ⟨opens, rfl⟩
    · intro failed
      exact ⟨_, List.mem_singleton_self _, by simp [Event.Succeeded, failed]⟩
    · intro ok
      obtain ⟨-, flash⟩ := done ok
      have room := st.room_in_sector
      refine ⟨?_, ?_, ?_, ?_⟩
      · intro a low high
        have sector : s.start + t.flushed ≤ a ∧ a < s.start + t.flushed + flashSectorSize := by
          omega
        have address : (s.start + t.flushed) / flashSectorSize * flashSectorSize =
            s.start + t.flushed := by
          unfold flashSectorSize at *
          omega
        rw [flash, erase_inside _ sector]
        refine ⟨rfl, ?_⟩
        simp only [List.singleton_append, ErasedSince, address, if_pos sector, ok]
      · intro a below
        rw [flash, erase_outside _ (Or.inl below)]
      · intro start
        rw [flash, start, Nat.add_zero]
      · intro event member
        rw [List.mem_singleton.mp member]
        exact ⟨ok, ok⟩
  · refine ⟨st.writes, by simp, ?_, ?_⟩
    · intro failed
      rw [ok] at failed
      cases failed
    · intro _
      have room := st.room_in_sector
      refine ⟨?_, ?_, ?_, by simp⟩
      · intro a low high
        rw [same]
        exact st.erased a low (by omega)
      · intro a _
        rw [same]
      · intro start
        have aligned := s.start_aligned
        rw [start, Nat.add_zero] at inside
        exact absurd aligned inside

/-- What the buffer adds to an image that is in flash already. -/
theorem image_grows (st : Staging env s t m) (image : List UInt8 → List UInt8)
    (append : ∀ xs ys : List UInt8, 3 ≤ xs.length → image (xs ++ ys) = image xs ++ ys)
    (started : t.flushed ≠ 0) :
    image t.accepted = image (t.accepted.take t.flushed) ++ t.accepted.drop t.flushed := by
  have length := st.length
  have flushed := st.accepted_take_flushed
  have whole := List.take_append_drop t.flushed t.accepted
  by_cases long : 3 ≤ t.flushed
  · rw [← append _ _ (by omega), whole]
  · have finished : t.flushed = s.size := by
      rcases st.aligned with aligned | finished
      · rcases s.bufferSize_eq with h | h <;> rw [h] at aligned <;> omega
      · exact finished
    have empty : t.accepted.drop t.flushed = [] := by
      apply List.drop_eq_nil_of_le
      have := st.complete finished
      omega
    rw [empty, List.append_nil] at whole
    rw [whole, empty, List.append_nil]

/-- The bytes a flush writes and the bytes it adds to the MD5, whichever page it is at. -/
theorem patched (st : Staging env s t m) (board : Board)
    (fresh : t.flushed = 0 → board.flash = erase s.start flashSectorSize s.board.flash) :
    ∃ events mode, Follows board events (patchFlashMode env m.updater board).2 ∧
      (∀ event ∈ events, event.Silent) ∧
      (patchFlashMode env m.updater board).2.flash = board.flash ∧
      ((t.flushed = 0 ∧ mode = s.chipMode ∧ ∀ event ∈ events, event.Succeeded) ∨
        (t.flushed ≠ 0 ∧ mode = t.mode ∧ ∀ event ∈ events, event.Succeeded) ∨
        (t.flushed = 0 ∧ mode = .unknown ∧ ∃ event ∈ events, ¬ event.Succeeded)) ∧
      ((patchFlashMode env m.updater board).1.written.take m.updater.bufferLen).length =
        m.updater.bufferLen ∧
      flashImage s.command mode t.accepted =
        flashImage s.command t.mode (t.accepted.take t.flushed) ++
          (patchFlashMode env m.updater board).1.written.take m.updater.bufferLen ∧
      md5Image s.command mode t.accepted =
        md5Image s.command t.mode (t.accepted.take t.flushed) ++
          (patchFlashMode env m.updater board).1.restored.take m.updater.bufferLen ∧
      (patchFlashMode env m.updater board).1.restored.length = s.bufferSize := by
  obtain ⟨buffer, held, allocated, content⟩ := st.buffer
  have fits := st.fits
  have bound := st.bound
  obtain ⟨events, mode, recorded, silent, same, read, page, other⟩ :=
    patchFlashMode_cases env m.updater board buffer held
  have first : m.updater.currentAddress = add32 m.updater.startAddress flashModePage ↔
      t.flushed = 0 := by
    rw [st.current, st.start, flashModePage, add32_of_lt (by omega)]
    omega
  by_cases started : t.flushed = 0
  · obtain ⟨written, restored⟩ := page (first.mpr started)
    rw [started, List.drop_zero] at content
    rw [st.command] at written restored
    refine ⟨events, mode, recorded, silent, same, ?_, ?_, ?_, ?_, ?_⟩
    · rcases read with ⟨chip, succeeded⟩ | failed
      · left
        rw [chip, fresh started, Session.chipMode]
        exact ⟨started, rfl, succeeded⟩
      · exact .inr (.inr ⟨started, failed⟩)
    · rw [written]
      simp
      omega
    · rw [written, take_flashImage _ _ _ _ (by omega), content, started, List.take_zero,
        flashImage_nil, List.nil_append]
    · rw [restored, take_md5Image _ _ _ _ (by omega), content, started, List.take_zero,
        md5Image_nil, List.nil_append]
    · rw [restored, length_md5Image, allocated]
  · obtain ⟨unread, written, restored⟩ := other (fun at_page => started (first.mp at_page))
    refine ⟨events, t.mode, recorded, silent, same,
      .inr (.inl ⟨started, rfl, by rw [unread]; simp⟩), ?_, ?_, ?_, ?_⟩
    · rw [written]
      simp
      omega
    · rw [written, content]
      exact st.image_grows _ (flashImage_append s.command t.mode) started
    · rw [restored, content]
      exact st.image_grows _ (md5Image_append s.command t.mode) started
    · rw [restored, allocated]

/-- **One flush.** It erases and writes at the current address only; it ends with the buffer in
flash and empty, or with an error and the update given up. -/
theorem flush (st : Staging env s t m)
    (next : (t.flushed + m.updater.bufferLen) % s.bufferSize = 0 ∨
      t.flushed + m.updater.bufferLen = s.size)
    (work : t.flushed + m.updater.bufferLen ≠ 0) :
    ∃ new, Follows m.board new (writeBuffer env m).2.board ∧ WellErased (new ++ t.events) ∧
      (∀ event ∈ new, FlushEvent (s.start + t.flushed) m.updater.bufferLen event) ∧
      (((writeBuffer env m).1 = true ∧ ∃ mode, Staging env s
          { accepted := t.accepted
            flushed := t.flushed + m.updater.bufferLen
            mode := mode
            events := new ++ t.events } (writeBuffer env m).2) ∨
        ((writeBuffer env m).1 = false ∧ (∃ event ∈ new, ¬ event.Succeeded) ∧
          ∃ error, error ≠ .ok ∧ (writeBuffer env m).2.updater = m.updater.setError error)) := by
  obtain ⟨opening, openFollows, openWrites, openEvents, openFailed, openDone⟩ := st.opened
  have length := st.length
  have start := st.current
  rcases eraseEq : eraseSector env m.updater m.board with ⟨eraseResult, b1⟩
  rw [eraseEq] at openFollows openFailed openDone
  cases eraseResult with
  | false =>
    -- the patch still runs, on a board whose sector could not be erased
    obtain ⟨buffer, held, -, -⟩ := st.buffer
    obtain ⟨patching, mode, patchFollows, silent, -⟩ :=
      patchFlashMode_cases env m.updater b1 buffer held
    have result : writeBuffer env m =
        (false, { m with board := (patchFlashMode env m.updater b1).2 }.setError .erase) := by
      simp [writeBuffer, eraseEq]
    rw [result]
    refine ⟨patching ++ opening, openFollows.trans patchFollows, ?_, ?_, .inr ⟨rfl, ?_, ?_⟩⟩
    · rw [List.append_assoc, wellErased_silent silent]
      exact openWrites
    · intro event member
      rcases List.mem_append.mp member with patched | opened
      · exact flushEvent_of_silent (silent event patched)
      · exact openEvents event opened
    · obtain ⟨event, member, failed⟩ := openFailed rfl
      exact ⟨event, List.mem_append_right _ member, failed⟩
    · exact ⟨.erase, by decide, rfl⟩
  | true =>
    obtain ⟨erasedHere, below, atStart, openSettled⟩ := openDone rfl
    obtain ⟨patching, mode, patchFollows, silent, patchFlash, modeFrom, width, inFlash, inMd5,
      restoredLength⟩ := st.patched b1 fun fresh => by rw [atStart fresh, st.untouched fresh]
    rcases patchEq : patchFlashMode env m.updater b1 with ⟨patch, b2⟩
    rw [patchEq] at patchFollows patchFlash width inFlash inMd5 restoredLength
    have writeFollows := flashWrite_follows env m.updater.currentAddress
      (patch.written.take m.updater.bufferLen) b2
    rcases writeEq : flashWrite env m.updater.currentAddress
      (patch.written.take m.updater.bufferLen) b2 with ⟨writeResult, b3⟩
    rw [writeEq] at writeFollows
    have follows := (openFollows.trans patchFollows).trans writeFollows
    have sector := le_sectorEnd (s.start + t.flushed + m.updater.bufferLen)
    have writes : WellErased ((([Event.write m.updater.currentAddress
        (patch.written.take m.updater.bufferLen) writeResult] ++ (patching ++ opening))) ++
          t.events) := by
      rw [List.append_assoc, List.append_assoc, List.singleton_append, WellErased]
      refine ⟨?_, (wellErased_silent silent).mpr openWrites⟩
      intro a low high
      rw [width, start] at high
      rw [start] at low
      exact (erasedSince_silent silent a).mpr (erasedHere a low (by omega)).2
    have events : ∀ event ∈ [Event.write m.updater.currentAddress
        (patch.written.take m.updater.bufferLen) writeResult] ++ (patching ++ opening),
        FlushEvent (s.start + t.flushed) m.updater.bufferLen event := by
      intro event member
      rcases List.mem_append.mp member with wrote | before
      · rw [List.mem_singleton.mp wrote]
        exact ⟨start, width⟩
      · rcases List.mem_append.mp before with patched | opened
        · exact flushEvent_of_silent (silent event patched)
        · exact openEvents event opened
    cases writeResult with
    | false =>
      have result : writeBuffer env m = (false, { m with board := b3 }.setError .write) := by
        simp [writeBuffer, eraseEq, patchEq, writeEq]
      rw [result]
      refine ⟨_, follows, writes, events, .inr ⟨rfl, ?_, ⟨.write, by decide, rfl⟩⟩⟩
      exact ⟨_, List.mem_append_left _ (List.mem_singleton_self _), by simp [Event.Succeeded]⟩
    | true =>
      have result : writeBuffer env m = (true, { m with
          board := b3
          updater := { m.updater with
            buffer := some patch.restored
            md5 := if m.updater.verify.isNone then
                m.updater.md5 ++ patch.restored.take m.updater.bufferLen
              else m.updater.md5
            currentAddress := add32 m.updater.currentAddress m.updater.bufferLen
            bufferLen := 0 } }) := by
        simp [writeBuffer, eraseEq, patchEq, writeEq]
      rw [result]
      refine ⟨_, follows, writes, events, .inl ⟨rfl, mode, ?_⟩⟩
      have done := flashWrite_done writeEq
      rw [width, start] at done
      have flash : b3.flash = program (s.start + t.flushed) m.updater.bufferLen
          (fun i => (patch.written.take m.updater.bufferLen).getD i 0) b1.flash := by
        rw [done.2]
        exact congrArg _ patchFlash
      have chip := env.chip.size_le
      have whole : t.accepted.take (t.flushed + m.updater.bufferLen) = t.accepted := by
        rw [length, List.take_length]
      have advanced : add32 m.updater.currentAddress m.updater.bufferLen =
          s.start + (t.flushed + m.updater.bufferLen) := by
        rw [start, add32_of_lt (by omega)]
        omega
      exact {
        error := st.error
        size := st.size
        start := st.start
        command := st.command
        bufferSize := st.bufferSize
        verify := st.verify
        current := advanced
        bound := by
          change s.start + (t.flushed + m.updater.bufferLen) ≤ 2 ^ 24
          omega
        buffer := by
          refine ⟨patch.restored, rfl, restoredLength, ?_⟩
          change List.take 0 patch.restored = t.accepted.drop (t.flushed + m.updater.bufferLen)
          rw [length, List.drop_length, List.take_zero]
        length := by
          change t.flushed + m.updater.bufferLen + 0 = t.accepted.length
          omega
        fits := Nat.zero_le _
        aligned := next
        complete := fun _ => rfl
        untouched := fun none => absurd none work
        decoded := by
          have others : (∀ event ∈ patching, event.Succeeded) →
              (∀ event ∈ t.events, event.Succeeded) →
              ∀ event ∈ ([Event.write m.updater.currentAddress
                (patch.written.take m.updater.bufferLen) true] ++ (patching ++ opening)) ++
                  t.events, event.Succeeded := by
            intro patched earlier event member
            rcases List.mem_append.mp member with new | old
            · rcases List.mem_append.mp new with wrote | before
              · rw [List.mem_singleton.mp wrote]
                rfl
              · rcases List.mem_append.mp before with read | opened
                · exact patched event read
                · exact (openSettled event opened).2
            · exact earlier event old
          rcases modeFrom with ⟨fresh, chip, succeeded⟩ | ⟨started, same, succeeded⟩ |
            ⟨-, unread, event, member, failed⟩
          · rcases st.decoded with ⟨-, earlier⟩ | ⟨started, -⟩
            · exact .inl ⟨.inr chip, others succeeded earlier⟩
            · exact absurd fresh started
          · rcases st.decoded with ⟨from_, earlier⟩ | ⟨-, unread, event, member, failed⟩
            · have chip := from_.resolve_left started
              exact .inl ⟨.inr (same.trans chip), others succeeded earlier⟩
            · exact .inr ⟨work, same.trans unread, event, List.mem_append_right _ member, failed⟩
          · refine .inr ⟨work, unread, event, List.mem_append_left _ ?_, failed⟩
            exact List.mem_append_right _ (List.mem_append_left _ member)
        staged := by
          change readRange b3.flash s.start (t.flushed + m.updater.bufferLen) =
            flashImage s.command mode (t.accepted.take (t.flushed + m.updater.bufferLen))
          have before : readRange b3.flash s.start t.flushed =
              readRange m.board.flash s.start t.flushed := by
            apply readRange_congr
            intro a low high
            rw [flash, program_outside _ _ (Or.inl high), below a high]
          have added := readRange_program b1.flash (s.start + t.flushed)
            (patch.written.take m.updater.bufferLen) fun a low high =>
              (erasedHere a low (by rw [width] at high; omega)).1
          rw [width, ← flash] at added
          rw [readRange_add, before, added, st.staged, whole, inFlash]
        md5 := by
          intro plain
          have sum : (if m.updater.verify.isNone then
                m.updater.md5 ++ patch.restored.take m.updater.bufferLen
              else m.updater.md5) =
              m.updater.md5 ++ patch.restored.take m.updater.bufferLen :=
            if_pos (by rw [st.verify, s.hashes_plain plain]; rfl)
          change (if m.updater.verify.isNone then _ else _) =
            md5Image s.command mode (t.accepted.take (t.flushed + m.updater.bufferLen))
          rw [sum, st.md5 plain, whole, inMd5]
        follows := st.follows.trans follows
        erased := by
          intro a low high
          change s.start + (t.flushed + m.updater.bufferLen) ≤ a at low
          change a < sectorEnd (s.start + (t.flushed + m.updater.bufferLen)) at high
          rw [← Nat.add_assoc] at low high
          obtain ⟨blank, since⟩ := erasedHere a (by omega) high
          constructor
          · change b3.flash a = 0xff
            rw [flash, program_outside _ _ (Or.inr low), blank]
          · have apart : ¬ (m.updater.currentAddress ≤ a ∧ a < m.updater.currentAddress +
                (patch.written.take m.updater.bufferLen).length) := by
              rw [width, start]
              omega
            change ErasedSince (([Event.write m.updater.currentAddress
              (patch.written.take m.updater.bufferLen) true] ++ (patching ++ opening)) ++
                t.events) a
            rw [List.append_assoc, List.append_assoc, List.singleton_append, ErasedSince]
            exact ⟨apart, (erasedSince_silent silent a).mpr since⟩
        writes := writes
        settled := by
          intro event member
          rcases List.mem_append.mp member with new | old
          · rcases List.mem_append.mp new with wrote | before
            · rw [List.mem_singleton.mp wrote]
              rfl
            · rcases List.mem_append.mp before with patched | opened
              · exact (silent event patched).settled
              · exact (openSettled event opened).1
          · exact st.settled event old }

end Staging

end Esp8266.Updater
