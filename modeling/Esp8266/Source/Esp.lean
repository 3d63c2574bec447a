import Esp8266.Lib.NorFlash
import Esp8266.Lib.Word32
import Esp8266.Source.RtcCommand

/-!
# The board and its flash calls

EspClass (cores/esp8266/Esp.cpp) over the flash calls of the SDK. A call succeeds and does its
job, is refused because it reaches past the chip, or fails and leaves anything in the range it
was given; which call fails is up to `Env.fault`. Everything that reaches the flash or the
RTC memory is recorded in `Board.log`, newest first.
-/
set_option autoImplicit false

namespace Esp8266.Source.Esp
open Esp8266.Lib.NorFlash Esp8266.Lib.Word32 Esp8266.Source.RtcCommand

/-- `FLASH_SECTOR_SIZE` and `APP_START_OFFSET` of spi_flash_geometry.h. -/
def flashSectorSize : Nat := 0x1000
def appStartOffset : Nat := 0x1000

/-- The address at which the flash is mapped. -/
def flashMap : Nat := 0x40200000

/-- `_FS_start` and `_FS_end`, as the linker scripts place them: sector aligned, in the map of
the largest chip. -/
structure Layout where
  fsStart : Nat
  fsEnd : Nat
  mapped : flashMap ≤ fsStart
  ordered : fsStart ≤ fsEnd
  inside : fsEnd ≤ flashMap + 2 ^ 24
  start_aligned : fsStart % 4096 = 0
  end_aligned : fsEnd % 4096 = 0

/-- The flash chip: its id word, and the bytes the 24-bit addresses of its commands reach. -/
structure Chip where
  id : Nat
  size : Nat
  size_le : size ≤ 2 ^ 24

/-- What the code runs on. `fault k` is what the `k`-th flash call leaves in its range when it
fails; `heap` and `stack` are the contents of uninitialised memory. -/
structure Env where
  layout : Layout
  chip : Chip
  fault : Nat → Option (Nat → UInt8)
  md5Hex : List UInt8 → List UInt8
  mallocSucceeds : Nat → Bool
  heap : Nat → UInt8
  stack : Nat → UInt32

inductive Event where
  | erase (sector : Nat) (ok : Bool)
  | write (offset : Nat) (data : List UInt8) (ok : Bool)
  | read (offset size : Nat) (ok : Bool)
  | verify (hashed signature : List UInt8) (accepted : Bool)
  | command (action : UInt32) (args : Fin 29 → UInt32)
  | progress (done total : Nat)

structure Board where
  flash : Flash
  rtc : Rtc
  /-- The static `result` of `getSketchSize`. -/
  sketchSize : Nat
  /-- Flash calls made so far. -/
  calls : Nat
  log : List Event

inductive Outcome where
  | done
  | refused
  | failed (junk : Nat → UInt8)

/-- How the next flash call ends. -/
def Env.outcome (env : Env) (board : Board) (base len : Nat) : Outcome :=
  match env.fault board.calls with
  | some junk => .failed junk
  | none => if base + len ≤ env.chip.size then .done else .refused

def Board.note (event : Event) (board : Board) : Board := { board with log := event :: board.log }

/-- A flash call that changes the range it is given. -/
def flashChange (env : Env) (event : Bool → Event) (base len : Nat) (effect : Flash → Flash)
    (board : Board) : Bool × Board :=
  let called := { board with calls := board.calls + 1 }
  match env.outcome board base len with
  | .done => (true, { called with flash := effect board.flash }.note (event true))
  | .refused => (false, called.note (event false))
  | .failed junk =>
    (false, { called with flash := spoil base len junk board.flash }.note (event false))

/-- Esp.cpp:669; `spi_flash_erase_sector` takes a 16-bit sector number. -/
def flashEraseSector (env : Env) (sector : Nat) (board : Board) : Bool × Board :=
  let sec := sector % 2 ^ 16
  flashChange env (.erase sec) (sec * flashSectorSize) flashSectorSize
    (erase (sec * flashSectorSize) flashSectorSize) board

/-- Esp.cpp:716. -/
def flashWrite (env : Env) (offset : Nat) (data : List UInt8) (board : Board) : Bool × Board :=
  flashChange env (.write offset data) offset data.length
    (program offset data.length fun i => data.getD i 0) board

/-- Esp.cpp:731, into a buffer that held `old`. -/
def flashRead (env : Env) (offset : Nat) (old : List UInt8) (board : Board) :
    Bool × List UInt8 × Board :=
  let called := { board with calls := board.calls + 1 }
  match env.outcome board offset old.length with
  | .done => (true, readRange board.flash offset old.length,
      called.note (.read offset old.length true))
  | .refused => (false, old, called.note (.read offset old.length false))
  | .failed junk => (false, (List.range old.length).map junk,
      called.note (.read offset old.length false))

/-! ## Chip configuration -/

inductive FlashMode where
  | qio | qout | dio | dout | unknown
  deriving DecidableEq, Repr

/-- The values of `FlashMode_t`. -/
def FlashMode.byte : FlashMode → UInt8
  | .qio => 0x00
  | .qout => 0x01
  | .dio => 0x02
  | .dout => 0x03
  | .unknown => 0xff

/-- Esp.cpp:353. -/
def magicFlashChipMode (byte : UInt8) : FlashMode :=
  if byte = 0x00 then .qio
  else if byte = 0x01 then .qout
  else if byte = 0x02 then .dio
  else if byte = 0x03 then .dout
  else .unknown

/-- Esp.cpp:317. -/
def magicFlashChipSize (byte : UInt8) : Nat :=
  match (byte &&& 0x0f).toNat with
  | 0x0 => 512 * 1024
  | 0x1 => 256 * 1024
  | 0x2 => 1024 * 1024
  | 0x3 => 2 * 1024 * 1024
  | 0x4 => 4 * 1024 * 1024
  | 0x8 => 8 * 1024 * 1024
  | 0x9 => 16 * 1024 * 1024
  | _ => 0

/-- Esp.cpp:280. -/
def getFlashChipRealSize (env : Env) : Nat := 2 ^ ((env.chip.id >>> 16) % 256) % 2 ^ 32

/-- Esp.cpp:285. -/
def getFlashChipSize (env : Env) (board : Board) : Nat × Board :=
  let (ok, bytes, board) := flashRead env 0 (List.replicate 4 0) board
  (if ok then magicFlashChipSize ((bytes.getD 3 0 &&& 0xf0) >>> 4) else 0, board)

/-- Esp.cpp:307. -/
def getFlashChipMode (env : Env) (board : Board) : FlashMode × Board :=
  let (ok, bytes, board) := flashRead env 0 (List.replicate 4 0) board
  (if ok then magicFlashChipMode (bytes.getD 2 0) else .unknown, board)

/-- Esp.cpp:443, with `needsEquals` false. -/
def checkFlashConfig (env : Env) (board : Board) : Bool × Board :=
  let (size, board) := getFlashChipSize env board
  (decide (size ≤ getFlashChipRealSize env), board)

/-- The loop over the section headers in `getSketchSize`. -/
def sketchSections (env : Env) : Nat → Nat → Board → Option Nat × Board
  | 0, pos, board => (some pos, board)
  | sections + 1, pos, board =>
    let (ok, header, board) := flashRead env pos (List.replicate 8 0) board
    if ok then
      let size := wordOf (header.getD 4 0) (header.getD 5 0) (header.getD 6 0) (header.getD 7 0)
      sketchSections env sections (add32 (add32 pos 8) size) board
    else (none, board)

/-- Esp.cpp:582. A failed read gives zero and is not cached. -/
def getSketchSize (env : Env) (board : Board) : Nat × Board :=
  if board.sketchSize ≠ 0 then (board.sketchSize, board)
  else
    let (ok, imageHeader, board) := flashRead env appStartOffset (List.replicate 8 0) board
    if ok then
      match sketchSections env (imageHeader.getD 1 0).toNat (appStartOffset + 8) board with
      | (none, board) => (0, board)
      | (some pos, board) =>
        let result := add32 pos 16 &&& (2 ^ 32 - 2 ^ 4)
        (result, { board with sketchSize := result })
    else (0, board)

/-- Esp.cpp:616. -/
def getFreeSketchSpace (env : Env) (board : Board) : Nat × Board :=
  let (usedSize, board) := getSketchSize env board
  let freeSpaceStart := add32 usedSize (flashSectorSize - 1) &&& (2 ^ 32 - flashSectorSize)
  let freeSpaceEnd := sub32 env.layout.fsStart flashMap
  (sub32 freeSpaceEnd freeSpaceStart, board)

/-- `eboot_command_write` of the sketch core. -/
def ebootCommand (cmd : EbootCommand) (board : Board) : Board :=
  { board with rtc := ebootCommandWrite cmd board.rtc }.note (.command cmd.action cmd.args)

/-! ## What the calls leave alone -/

/-- The bytes that an event may have changed. -/
def Event.Touches : Event → Nat → Prop
  | .erase sector _, a => sector * flashSectorSize ≤ a ∧ a < sector * flashSectorSize + flashSectorSize
  | .write offset data _, a => offset ≤ a ∧ a < offset + data.length
  | _, _ => False

/-- The event records a flash call that succeeded, or no flash call at all. -/
def Event.Succeeded : Event → Prop
  | .erase _ ok => ok = true
  | .write _ _ ok => ok = true
  | .read _ _ ok => ok = true
  | _ => True

/-- The event is no flash change, or one that succeeded. -/
def Event.Settled : Event → Prop
  | .erase _ ok => ok = true
  | .write _ _ ok => ok = true
  | _ => True

/-- `board'` follows from `board` with the events `new`: nothing else was recorded, the command
block stayed, and a byte that none of them touches is as it was. -/
structure Follows (board : Board) (new : List Event) (board' : Board) : Prop where
  log : board'.log = new ++ board.log
  rtc : board'.rtc = board.rtc
  frame : ∀ a, (∀ event ∈ new, ¬ event.Touches a) → board'.flash a = board.flash a

theorem Follows.refl (board : Board) : Follows board [] board :=
  ⟨rfl, rfl, fun _ _ => rfl⟩

theorem Follows.trans {b b' b'' : Board} {new new' : List Event} (first : Follows b new b')
    (second : Follows b' new' b'') : Follows b (new' ++ new) b'' where
  log := by rw [second.log, first.log, List.append_assoc]
  rtc := second.rtc.trans first.rtc
  frame := by
    intro a away
    rw [second.frame a fun event member => away event (List.mem_append_left _ member),
      first.frame a fun event member => away event (List.mem_append_right _ member)]

theorem Board.note_follows (event : Event) (board : Board) :
    Follows board [event] (board.note event) :=
  ⟨rfl, rfl, fun _ _ => rfl⟩

/-- A change is recorded with its result and stays in its range. -/
theorem flashChange_follows (env : Env) (event : Bool → Event) (base len : Nat)
    (effect : Flash → Flash) (board : Board)
    (covers : ∀ ok a, base ≤ a ∧ a < base + len → (event ok).Touches a)
    (stays : ∀ flash a, a < base ∨ base + len ≤ a → effect flash a = flash a) :
    Follows board [event (flashChange env event base len effect board).1]
      (flashChange env event base len effect board).2 := by
  have outside : ∀ ok a, (∀ e ∈ [event ok], ¬ e.Touches a) → a < base ∨ base + len ≤ a := by
    intro ok a away
    have untouched := away (event ok) (List.mem_singleton_self _)
    by_contra inside
    exact untouched (covers ok a (by omega))
  unfold flashChange
  cases env.outcome board base len with
  | done => exact ⟨rfl, rfl, fun a away => stays _ a (outside true a away)⟩
  | refused => exact ⟨rfl, rfl, fun _ _ => rfl⟩
  | failed junk => exact ⟨rfl, rfl, fun a away => spoil_outside junk _ (outside false a away)⟩

/-- A change that succeeds was in the chip and did its job. -/
theorem flashChange_done {env : Env} {event : Bool → Event} {base len : Nat}
    {effect : Flash → Flash} {board : Board}
    (ok : (flashChange env event base len effect board).1 = true) :
    base + len ≤ env.chip.size ∧
      (flashChange env event base len effect board).2.flash = effect board.flash := by
  unfold flashChange at ok ⊢
  cases result : env.outcome board base len with
  | done =>
    refine ⟨?_, rfl⟩
    unfold Env.outcome at result
    split at result
    · cases result
    · split at result
      · assumption
      · cases result
  | refused => rw [result] at ok; cases ok
  | failed junk => rw [result] at ok; cases ok

theorem flashEraseSector_follows (env : Env) (sector : Nat) (board : Board) :
    Follows board [.erase (sector % 2 ^ 16) (flashEraseSector env sector board).1]
      (flashEraseSector env sector board).2 :=
  flashChange_follows env _ _ _ _ board (fun _ _ inside => inside)
    (fun flash _ outside => erase_outside flash outside)

theorem flashWrite_follows (env : Env) (offset : Nat) (data : List UInt8) (board : Board) :
    Follows board [.write offset data (flashWrite env offset data board).1]
      (flashWrite env offset data board).2 :=
  flashChange_follows env _ _ _ _ board (fun _ _ inside => inside)
    (fun flash _ outside => program_outside _ flash outside)

theorem flashWrite_done {env : Env} {offset : Nat} {data : List UInt8} {board board' : Board}
    (ok : flashWrite env offset data board = (true, board')) :
    offset + data.length ≤ env.chip.size ∧
      board'.flash = program offset data.length (fun i => data.getD i 0) board.flash := by
  obtain rfl : (flashWrite env offset data board).2 = board' := congrArg Prod.snd ok
  exact flashChange_done (congrArg Prod.fst ok)

theorem flashRead_follows (env : Env) (offset : Nat) (old : List UInt8) (board : Board) :
    Follows board [.read offset old.length (flashRead env offset old board).1]
      (flashRead env offset old board).2.2 ∧
    (flashRead env offset old board).2.2.flash = board.flash := by
  unfold flashRead
  cases env.outcome board offset old.length <;> exact ⟨⟨rfl, rfl, fun _ _ => rfl⟩, rfl⟩

theorem flashRead_done {env : Env} {offset : Nat} {old : List UInt8} {board : Board}
    (ok : (flashRead env offset old board).1 = true) :
    (flashRead env offset old board).2.1 = readRange board.flash offset old.length := by
  unfold flashRead at ok ⊢
  cases result : env.outcome board offset old.length with
  | done => rfl
  | refused => rw [result] at ok; cases ok
  | failed junk => rw [result] at ok; cases ok

/-- Events that change no flash. -/
def Event.Silent : Event → Prop
  | .erase .. => False
  | .write .. => False
  | _ => True

theorem Event.Silent.not_touches {event : Event} (silent : event.Silent) (a : Nat) :
    ¬ event.Touches a := by
  cases event <;> simp_all [Event.Silent, Event.Touches]

theorem Event.Silent.settled {event : Event} (silent : event.Silent) : event.Settled := by
  cases event <;> trivial

/-- Nothing was changed, however many reads were made. -/
def Quiet (board board' : Board) : Prop :=
  ∃ new, Follows board new board' ∧ ∀ event ∈ new, event.Silent

theorem Quiet.flash {board board' : Board} (quiet : Quiet board board') :
    board'.flash = board.flash := by
  obtain ⟨new, follows, silent⟩ := quiet
  funext a
  exact follows.frame a fun event member => (silent event member).not_touches a

theorem Quiet.refl (board : Board) : Quiet board board := ⟨[], Follows.refl board, by simp⟩

theorem Quiet.trans {b b' b'' : Board} (first : Quiet b b') (second : Quiet b' b'') :
    Quiet b b'' := by
  obtain ⟨new, follows, silent⟩ := first
  obtain ⟨new', follows', silent'⟩ := second
  refine ⟨new' ++ new, follows.trans follows', ?_⟩
  intro event member
  rcases List.mem_append.mp member with late | early
  · exact silent' event late
  · exact silent event early

theorem flashRead_quiet (env : Env) (offset : Nat) (old : List UInt8) (board : Board) :
    Quiet board (flashRead env offset old board).2.2 := by
  refine ⟨_, (flashRead_follows env offset old board).1, ?_⟩
  intro event member
  rw [List.mem_singleton.mp member]
  trivial

theorem checkFlashConfig_quiet (env : Env) (board : Board) :
    Quiet board (checkFlashConfig env board).2 :=
  flashRead_quiet env 0 (List.replicate 4 0) board

theorem sketchSections_quiet (env : Env) (sections : Nat) :
    ∀ pos board, Quiet board (sketchSections env sections pos board).2 := by
  induction sections with
  | zero => intro pos board; exact Quiet.refl board
  | succ sections ih =>
    intro pos board
    have read := flashRead_quiet env pos (List.replicate 8 0) board
    rw [sketchSections]
    dsimp only
    split
    · exact read.trans (ih _ _)
    · exact read

theorem getSketchSize_quiet (env : Env) (board : Board) :
    Quiet board (getSketchSize env board).2 := by
  unfold getSketchSize
  split
  · exact Quiet.refl board
  · have read := flashRead_quiet env appStartOffset (List.replicate 8 0) board
    dsimp only
    split
    · have sections := sketchSections_quiet env
        ((flashRead env appStartOffset (List.replicate 8 0) board).2.1.getD 1 0).toNat
        (appStartOffset + 8) (flashRead env appStartOffset (List.replicate 8 0) board).2.2
      split
      · rename_i failed
        rw [failed] at sections
        exact read.trans sections
      · rename_i summed
        rw [summed] at sections
        exact (read.trans sections).trans ⟨[], ⟨rfl, rfl, fun _ _ => rfl⟩, by simp⟩
    · exact read

end Esp8266.Source.Esp
