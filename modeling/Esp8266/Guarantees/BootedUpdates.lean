import Esp8266.Guarantees.EbootCopies
import Esp8266.Guarantees.StagedImages
import Esp8266.Updater.Begin
import Esp8266.Updater.Committed

/-!
# From the update to the flash

What `end` has staged is what the bootloader copies to the start of the flash, unless it is staged
at the start already. A copy that a reset interrupts is made again; that is harmless where the
image is staged behind its destination.
-/
set_option autoImplicit false

namespace Esp8266.Updater
open Esp8266.Lib Esp8266.Lib.NorFlash Esp8266.Lib.Resets Esp8266.Lib.Word32
  Esp8266.Source.RtcCommand Esp8266.Source.Esp Esp8266.Source.Updater Esp8266.Source.Eboot

/-- A whole image that `end` has accepted. -/
structure StagedWhole (env : Env) (start size : Nat) (image : List UInt8) (board : Board) :
    Prop where
  length : image.length = size
  aligned : start % 4096 = 0
  bound : start + size ≤ 2 ^ 24
  positive : 0 < size
  region : start = updateEnd env.layout - roundSector size
  begins : BeginsSketch board.flash start
  first : ∀ i < 2, i < size → board.flash (start + i) = image.getD i 0
  behind : ∀ a, start + size ≤ a → a < sectorEnd (start + size) → board.flash a = 0xff
  command : ∃ cmd, ebootCommandRead board.rtc = (0, cmd) ∧ cmd.action = actionCopyRaw ∧
    (cmd.args 0).toNat = start ∧ (cmd.args 1).toNat = 0 ∧ (cmd.args 2).toNat = size

/-- The first two bytes are not patched. -/
theorem flashImage_first (command : Nat) (mode : FlashMode) (image : List UInt8) {i : Nat}
    (early : i < 2) : (flashImage command mode image).getD i 0 = image.getD i 0 := by
  unfold flashImage
  split
  · rw [List.getD_eq_getElem?_getD, List.getElem?_set_ne (by unfold flashModeOffset; omega),
      ← List.getD_eq_getElem?_getD]
  · rfl

/-- **What a successful `end` leaves of a whole image.** -/
theorem stagedWhole_of_end {env : Env} {size : Nat} {around : Surroundings} {m started m' : Machine}
    (fits : size < 2 ^ 32) (began : begin env size uFlash around m = (true, started))
    {calls : List UpdateCall} (sized : ∀ call ∈ calls, call.Sized)
    (whole : (Runs.after (perform env) calls ⟨started, []⟩).accepted.length = size)
    {evenIfRemaining : Bool} (ended : endUpdate env evenIfRemaining
      (Runs.after (perform env) calls ⟨started, []⟩).machine = (true, m')) :
    StagedWhole env started.updater.startAddress size
      (Runs.after (perform env) calls ⟨started, []⟩).accepted m'.board := by
  obtain ⟨s, events, begun, uploads⟩ := update_uploads fits (congrArg Prod.fst began) sized
  rw [began] at begun uploads
  dsimp only at begun uploads
  generalize Runs.after (perform env) calls ⟨started, []⟩ = r at *
  have accepted := endUpdate_accepted (congrArg Prod.fst ended)
  rw [ended] at accepted
  obtain ⟨checks, accepted⟩ := accepted
  rcases uploads.held with givenUp | ⟨flushed, mode, st, closed⟩
  · exact absurd givenUp.idle.size checks.1
  have full : flushed = s.size := by
    rcases closed with open_ | ⟨-, complete⟩
    · rw [begun.size_eq, ← whole] at open_
      exact absurd open_ (Nat.lt_irrefl _)
    · exact complete
  rw [st.takeRemaining_complete full] at accepted
  have command : r.machine.updater.command = uFlash := st.command.trans begun.command_eq
  have start : r.machine.updater.startAddress = s.start := st.start
  have size_eq : r.machine.updater.size = size := st.size.trans begun.size_eq
  have place : started.updater.startAddress = s.start := begun.staging.start
  have bound : s.start + size ≤ 2 ^ 24 := by
    rw [← begun.size_eq, ← full]
    exact st.bound
  have rtc := accepted.rtc
  rw [if_pos command, start, size_eq] at rtc
  obtain ⟨found, action, args⟩ := ebootCommandRead_write (copyCommand env s.start size)
    r.machine.board.rtc
  rw [← rtc] at found action args
  have small : s.start < 2 ^ 32 ∧ size < 2 ^ 32 := by omega
  have staged : readRange r.machine.board.flash s.start s.size =
      flashImage uFlash mode r.accepted := by
    have staged := st.staged
    dsimp only at staged
    rw [full, begun.command_eq, List.take_of_length_le (by rw [whole, begun.size_eq])] at staged
    exact staged
  rw [place]
  exact {
    length := whole
    aligned := s.start_aligned
    bound := bound
    positive := begun.size_eq ▸ s.size_pos
    region := (updateRegion_sketch begun.region).1
    begins := by
      have begins := accepted.begins command
      rw [start, ← accepted.flash] at begins
      exact begins
    first := by
      intro i early inside
      have within : i < (readRange r.machine.board.flash s.start s.size).length := by
        rw [length_readRange, begun.size_eq]
        exact inside
      rw [accepted.flash, ← flashImage_first uFlash mode r.accepted early, ← staged,
        List.getD_eq_getElem _ _ within, getElem_readRange]
    behind := by
      intro a low high
      rw [accepted.flash]
      refine (st.erased a ?_ ?_).1
      · rw [full, begun.size_eq]
        exact low
      · rw [full, begun.size_eq]
        exact high
    command := by
      refine ⟨_, Prod.ext found rfl, action, ?_, ?_, ?_⟩
      · rw [args]
        exact (UInt32.toNat_ofNat').trans (Nat.mod_eq_of_lt small.1)
      · rw [args]
        rfl
      · rw [args]
        exact (UInt32.toNat_ofNat').trans (Nat.mod_eq_of_lt small.2) }

/-! ## The copy of a whole image -/

/-- The image is not a gzip stream. -/
def IsPlain (image : List UInt8) : Prop := image.take 2 ≠ [0x1f, 0x8b]

instance (image : List UInt8) : Decidable (IsPlain image) :=
  inferInstanceAs (Decidable (_ ≠ _))

section

variable {env : Env} {start size : Nat} {image : List UInt8} {board : Board}
  (staged : StagedWhole env start size image board)

include staged

theorem StagedWhole.plain (plain : IsPlain image) :
    ¬(board.flash start = 0x1f ∧ board.flash (start + 1) = 0x8b) := by
  rintro ⟨first, second⟩
  have positive := staged.positive
  have length := staged.length
  by_cases one : size = 1
  · have aligned := staged.aligned
    have erased := staged.behind (start + 1) (by omega) (by unfold sectorEnd; omega)
    rw [second] at erased
    exact absurd erased (by decide)
  · refine plain ?_
    match image, length with
    | [], length => exact absurd length.symm (Nat.ne_of_gt positive)
    | [_], length => exact absurd length.symm one
    | byte0 :: byte1 :: rest, _ =>
      have head : byte0 = 0x1f := (staged.first 0 (by decide) (by omega)).symm.trans first
      have next : byte1 = 0x8b := (staged.first 1 (by decide) (by omega)).symm.trans second
      rw [head, next]
      rfl

theorem StagedWhole.begins_plain (plain : IsPlain image) : board.flash start = 0xe9 := by
  rcases staged.begins with sketch | zipped
  · exact sketch
  · exact absurd zipped (staged.plain plain)

theorem StagedWhole.sectors : roundSector size = 4096 * ((size + 4095) / 4096) := by
  have bound := staged.bound
  rw [roundSector_of_lt (by omega), sectorEnd, Nat.mul_comm]

theorem StagedWhole.sectors_bound : start + 4096 * ((size + 4095) / 4096) < 2 ^ 31 := by
  have bound := staged.bound
  omega

end

/-- `copy_raw` ends with 0 for the command, and the image is at the start of the flash. -/
structure Copies (rom : Rom) (uzlib : Uzlib) (start size : Nat) (board : Board) : Prop where
  copied : ∃ cmd, ebootCommandRead board.rtc = (0, cmd) ∧ cmd.action = actionCopyRaw ∧
    (cmd.args 0).toNat = start ∧ (cmd.args 1).toNat = 0 ∧ (cmd.args 2).toNat = size ∧
    ∃ s, copyRaw rom uzlib false (cmd.args 0).toNat (cmd.args 1).toNat (cmd.args 2).toNat
        ⟨board.flash, 0, []⟩ = .returned 0 s ∧
      readRange s.flash 0 size = readRange board.flash start size

/-- No reset comes. -/
def Steady (rom : Rom) : Prop := ∀ k, rom.reset k = false

theorem ends_steady {α : Type} {rom : Rom} (steady : Steady rom) {program : Boot α} {s : Spi}
    {found : Flash → Prop} {post : α → Spi → Prop} (ends : program.Ends s (Cut rom found) post) :
    ∃ a s', program s = .returned a s' ∧ post a s' := by
  refine (ends.weaken (fun s' cut => ?_) fun _ _ holds => holds).returns
  obtain ⟨⟨k, reset⟩, -⟩ := cut
  rw [steady k] at reset
  cases reset

theorem readRange_inj {flash flash' : Flash} {base base' len : Nat}
    (same : readRange flash base len = readRange flash' base' len) (i : Nat) (inside : i < len) :
    flash (base + i) = flash' (base' + i) :=
  List.map_inj_left.1 same i (List.mem_range.2 inside)

/-- A staged image is copied, unless it is staged at the start of the flash. -/
theorem StagedWhole.copies_iff {env : Env} {start size : Nat} {image : List UInt8} {board : Board}
    (staged : StagedWhole env start size image board) (plain : IsPlain image) {rom : Rom}
    (works : rom.Works) (steady : Steady rom) (uzlib : Uzlib) :
    Copies rom uzlib start size board ↔ start ≠ 0 := by
  obtain ⟨cmd, read, action, source, destination, length⟩ := staged.command
  have positive := staged.positive
  constructor
  · rintro ⟨cmd', read', -, -, -, -, s, returned, same⟩ rfl
    obtain rfl : cmd = cmd' := congrArg Prod.snd (read.symm.trans read')
    rw [source, destination, length] at returned
    have bound := staged.sectors_bound
    obtain ⟨code, s', returned', -, lost, -⟩ := ends_steady steady
      (@ends_copyRaw_lost rom works (fun _ => True) ⟨board.flash, 0, []⟩ uzlib size _
        staged.sectors (by omega) (staged.plain plain) fun _ _ => trivial)
    rw [returned] at returned'
    cases returned'
    have first := readRange_inj same 0 positive
    rw [lost 0 (by omega), staged.begins_plain plain] at first
    exact absurd first (by decide)
  · intro behind
    obtain ⟨code, s', returned, zero, moved, -⟩ := ends_steady steady
      (@ends_copyRaw_moved rom works (fun _ => True) ⟨board.flash, 0, []⟩ uzlib start size _ behind
        staged.aligned staged.sectors staged.sectors_bound (staged.plain plain) fun _ _ => trivial)
    refine ⟨cmd, read, action, source, destination, length, s', ?_, ?_⟩
    · rw [source, destination, length, returned, zero]
    · refine List.map_congr_left fun i member => ?_
      rw [Nat.zero_add]
      exact moved i (by have := List.mem_range.1 member; omega)

/-- **The bootloader copies what was staged** exactly where the rounded image is smaller than the
space below the file system. `begin` sees to this when it has read the size of the sketch. -/
theorem staged_image_copied {env : Env} {size : Nat} {around : Surroundings}
    {m started m' : Machine} (fits : size < 2 ^ 32)
    (began : begin env size uFlash around m = (true, started))
    {calls : List UpdateCall} (sized : ∀ call ∈ calls, call.Sized)
    (whole : (Runs.after (perform env) calls ⟨started, []⟩).accepted.length = size)
    (plain : IsPlain (Runs.after (perform env) calls ⟨started, []⟩).accepted)
    {evenIfRemaining : Bool} (ended : endUpdate env evenIfRemaining
      (Runs.after (perform env) calls ⟨started, []⟩).machine = (true, m'))
    {rom : Rom} (works : rom.Works) (steady : Steady rom) (uzlib : Uzlib) :
    Copies rom uzlib started.updater.startAddress size m'.board ↔
      roundSector size < updateEnd env.layout := by
  have staged := stagedWhole_of_end fits began sized whole ended
  have region := staged.region
  rw [staged.copies_iff plain works steady uzlib]
  omega

/-- A ROM without faults and resets. -/
def exampleRom : Rom := ⟨fun _ => none, fun _ => false, fun _ => 0⟩

/-- A decoder that takes nothing. -/
def exampleUzlib : Uzlib := ⟨Unit, .ends (.error, ()), fun _ _ => .ends (.error, [], ())⟩

theorem four_sized : ∀ call ∈ [UpdateCall.write [0xe9, 0, 2, 0]], call.Sized := by
  intro call member
  rw [List.mem_singleton.1 member]
  exact (by decide : 4 < 2 ^ 31)

/-- Four bytes of a sketch. -/
theorem staged_image_copied_four :
    let env := exampleEnv fun _ => none
    let m : Machine := ⟨.construct 0 none false, exampleBoard⟩
    let started := (begin env 4 uFlash ⟨0, 0⟩ m).2
    let r := Runs.after (perform env) [.write [0xe9, 0, 2, 0]] ⟨started, []⟩
    Copies exampleRom exampleUzlib started.updater.startAddress 4
      (endUpdate env false r.machine).2.board := by
  intro env m started r
  have begins : (begin env 4 uFlash ⟨0, 0⟩ m).1 = true := by decide +kernel
  have began : begin env 4 uFlash ⟨0, 0⟩ m = (true, started) := Prod.ext begins rfl
  have accepted : r.accepted = [0xe9, 0, 2, 0] := by decide +kernel
  have whole : r.accepted.length = 4 := by rw [accepted]; rfl
  have plain : IsPlain r.accepted := by rw [accepted]; decide
  have ends : (endUpdate env false r.machine).1 = true := by decide +kernel
  have ended : endUpdate env false r.machine = (true, (endUpdate env false r.machine).2) :=
    Prod.ext ends rfl
  have smaller : roundSector 4 < updateEnd env.layout := by decide +kernel
  exact (staged_image_copied (by decide) began four_sized whole plain ended (fun _ => rfl)
    (fun _ => rfl) exampleUzlib).2 smaller

/-- A chip with a sector below the file system. -/
def exampleTightEnv (fault : Nat → Option (Nat → UInt8)) (fsStart : Nat)
    (placed : flashMap ≤ fsStart ∧ fsStart ≤ flashMap + 2 ^ 24 ∧ fsStart % 4096 = 0) : Env :=
  { exampleEnv fault with
    layout := ⟨fsStart, fsStart, placed.1, Nat.le_refl _, placed.2.1, placed.2.2, placed.2.2⟩ }

/-- The size of the sketch cannot be read, and the image takes all that there is. -/
theorem staged_at_start_lost :
    let env := exampleTightEnv (fun k => if k = 1 then some fun _ => 0 else none) 0x40201000
      (by decide)
    let m : Machine := ⟨.construct 0 none false, { exampleBoard with sketchSize := 0 }⟩
    let started := (begin env 4 uFlash ⟨0, 0⟩ m).2
    let r := Runs.after (perform env) [.write [0xe9, 0, 2, 0]] ⟨started, []⟩
    (begin env 4 uFlash ⟨0, 0⟩ m).1 = true ∧ (endUpdate env false r.machine).1 = true ∧
      ¬ Copies exampleRom exampleUzlib started.updater.startAddress 4
        (endUpdate env false r.machine).2.board := by
  intro env m started r
  have begins : (begin env 4 uFlash ⟨0, 0⟩ m).1 = true := by decide +kernel
  have began : begin env 4 uFlash ⟨0, 0⟩ m = (true, started) := Prod.ext begins rfl
  have accepted : r.accepted = [0xe9, 0, 2, 0] := by decide +kernel
  have whole : r.accepted.length = 4 := by rw [accepted]; rfl
  have plain : IsPlain r.accepted := by rw [accepted]; decide
  have ends : (endUpdate env false r.machine).1 = true := by decide +kernel
  have ended : endUpdate env false r.machine = (true, (endUpdate env false r.machine).2) :=
    Prod.ext ends rfl
  have start : started.updater.startAddress = 0 := by decide +kernel
  have staged := stagedWhole_of_end (by decide) began four_sized whole ended
  exact ⟨begins, ends, fun copies =>
    (staged.copies_iff plain (fun _ => rfl) (fun _ => rfl) _).1 copies start⟩

/-! ## Copies that are interrupted -/

/-- `main` with a command to copy to the start of the flash. -/
theorem ends_main {rtc : Rtc} {cmd : EbootCommand} {start size : Nat}
    (read : ebootCommandRead rtc = (0, cmd)) (action : cmd.action = actionCopyRaw)
    (source : (cmd.args 0).toNat = start) (destination : (cmd.args 1).toNat = 0)
    (length : (cmd.args 2).toNat = size) {rom : Rom} (works : rom.Works) {uzlib : Uzlib} {s : Spi}
    {atReset : Spi → Prop} {post : Booted → Spi → Prop}
    (reset : rom.reset s.calls = true → ∀ s', s'.flash = s.flash → atReset s')
    (copies : ∀ s', s'.flash = s.flash → s'.calls = s.calls + 1 →
      (copyRaw rom uzlib false start 0 size).Ends s' atReset fun code s'' =>
        post ⟨code, ebootCommandClear rtc, if code = 0 then some 0 else none⟩ s'') :
    (main rom uzlib rtc).Ends s atReset post := by
  unfold main
  refine Program.ends_bind (ends_spiRead works reset fun _ s₁ same count => ?_)
  rw [read]
  dsimp only
  rw [if_pos rfl, if_pos action, if_pos rfl, source, destination, length]
  exact Program.ends_bind (copies s₁ same count)

/-- `main` copies the image or is reset; what is behind the destination is kept. -/
theorem StagedWhole.main_copies {env : Env} {start size : Nat} {image : List UInt8} {board : Board}
    (staged : StagedWhole env start size image board) (plain : IsPlain image)
    (apart : roundSector size ≤ start) {rom : Rom} (works : rom.Works) {uzlib : Uzlib} {s : Spi}
    (kept : ∀ a, start ≤ a → s.flash a = board.flash a) :
    (main rom uzlib board.rtc).Ends s
      (Cut rom fun flash => ∀ a, start ≤ a → flash a = board.flash a) fun booted s' =>
        booted.res = 0 ∧ readRange s'.flash 0 size = readRange board.flash start size := by
  obtain ⟨cmd, read, action, source, destination, length⟩ := staged.command
  have positive := staged.positive
  have sectors := staged.sectors
  rw [sectors] at apart
  refine ends_main read action source destination length works
    (fun cut s' same => ⟨⟨_, cut⟩, same ▸ kept⟩) fun s₁ same _ => ?_
  have moved := @ends_copyRaw_moved rom works
    (fun flash => ∀ a, start ≤ a → flash a = board.flash a) s₁ uzlib start size _ (by omega) staged.aligned sectors staged.sectors_bound
    (by
      rw [same, kept start (Nat.le_refl _), kept (start + 1) (Nat.le_succ _)]
      exact staged.plain plain)
    (fun flash rest a behind => by
      rw [rest a (by omega), same]
      exact kept a behind)
  refine moved.weaken (fun _ cut => cut) fun code s' done => ?_
  refine ⟨done.1, List.map_congr_left fun i member => ?_⟩
  have inside := List.mem_range.1 member
  rw [Nat.zero_add, done.2.1 i (by omega), same]
  exact kept _ (Nat.le_add_right _ _)

/-- However often it is interrupted, the copy is made in the end. -/
theorem StagedWhole.interrupted {env : Env} {start size : Nat} {image : List UInt8} {board : Board}
    (staged : StagedWhole env start size image board) (plain : IsPlain image)
    (apart : roundSector size ≤ start) {uzlib : Uzlib} {last : Rom} (lastWorks : last.Works)
    (steady : Steady last) {roms : List Rom} :
    ∀ {flash : Flash}, (∀ rom ∈ roms, rom.Works) → (∀ a, start ≤ a → flash a = board.flash a) →
      ∃ booted flash', powerOn uzlib board.rtc (roms ++ [last]) flash =
          some (booted, flash') ∧ booted.res = 0 ∧
        readRange flash' 0 size = readRange board.flash start size := by
  induction roms with
  | nil =>
    intro flash _ kept
    obtain ⟨booted, s, returned, res, same⟩ :=
      ends_steady steady (staged.main_copies plain apart lastWorks (s := ⟨flash, 0, []⟩) kept)
    refine ⟨booted, s.flash, ?_, res, same⟩
    rw [List.nil_append, powerOn, returned]
  | cons rom roms ih =>
    intro flash works kept
    have ends := @StagedWhole.main_copies env start size image board staged plain apart rom
      (works rom List.mem_cons_self) uzlib ⟨flash, 0, []⟩ kept
    rw [List.cons_append, powerOn]
    unfold Program.Ends at ends
    cases run : main rom uzlib board.rtc ⟨flash, 0, []⟩ with
    | reset s =>
      rw [run] at ends
      exact ih (fun r member => works r (List.mem_cons_of_mem _ member)) ends.2
    | returned booted s =>
      rw [run] at ends
      exact ⟨booted, s.flash, rfl, ends.1, ends.2⟩

/-- Where the destination reaches into the image, a reset behind the erase of the first sector of
the image loses it. -/
theorem StagedWhole.lost_again {env : Env} {start size : Nat} {image : List UInt8} {board : Board}
    (staged : StagedWhole env start size image board) (plain : IsPlain image)
    (behind : start ≠ 0) (inside : start < roundSector size) {uzlib : Uzlib} {last : Rom}
    (lastWorks : last.Works) (steady : Steady last) :
    ∃ rom booted flash, rom.Works ∧ powerOn uzlib board.rtc [rom, last] board.flash =
      some (booted, flash) ∧ flash 0 = 0xff := by
  obtain ⟨cmd, read, action, source, destination, length⟩ := staged.command
  have aligned := staged.aligned
  have bound := staged.sectors_bound
  have sectors := staged.sectors
  have first := staged.begins_plain plain
  have empty : (0xff : UInt8) ≠ 0x1f := by decide
  -- one call for the version, one for the first byte, and three for each sector before
  let rom : Rom := ⟨fun _ => none, fun k => k = 2 + 3 * (start / 4096), fun _ => 0⟩
  have works : rom.Works := fun _ => rfl
  have only : ∀ k, rom.reset k = true ↔ k = 2 + 3 * (start / 4096) := fun k => decide_eq_true_iff
  have cut := @ends_main board.rtc cmd start size read action source destination length rom works
    uzlib ⟨board.flash, 0, []⟩ (fun s' => ∀ a, start ≤ a → a < start + 4096 → s'.flash a = 0xff)
    (fun _ _ => False) (fun cut => absurd ((only 0).1 cut) (by omega))
    fun s₁ (same : s₁.flash = board.flash) (count : s₁.calls = 1) => by
      rw [copyRaw, if_neg (by unfold bufferSize; omega)]
      refine Program.ends_bind (ends_isGzip works (fun k cut first' => ?_)
        fun s₂ same' count' => ?_)
      · have here := (only _).1 cut
        rcases first' with zero | zipped
        · omega
        · rw [same, first] at zipped
          exact absurd zipped (by decide)
      · rw [same, first] at count' ⊢
        rw [decide_eq_false (show ¬(0xe9 : UInt8) = 0x1f by decide), Bool.false_and,
          if_neg Bool.false_ne_true, sectors, toInt32_of_lt (by omega)]
        have loop := @ends_copyLoop_cut rom works s₂ uzlib _ only (start / 4096)
          ((List.range bufferSize).map rom.stack) (4096 * ((size + 4095) / 4096) : Nat) start 0
          (by rw [count' (by decide), count]) (by omega) rfl (by omega)
        exact loop.weaken (fun s' found a low high => found.1 a (by omega) (by omega))
          fun _ _ never => never
  unfold Program.Ends at cut
  cases run : main rom uzlib board.rtc ⟨board.flash, 0, []⟩ with
  | returned booted s =>
    rw [run] at cut
    exact cut.elim
  | reset s =>
    rw [run] at cut
    have erased : s.flash start = 0xff := cut start (Nat.le_refl _) (by omega)
    obtain ⟨booted, s', returned, lost⟩ := ends_steady steady (@ends_main board.rtc cmd start size
      read action source destination length last lastWorks uzlib ⟨s.flash, 0, []⟩
      (Cut last fun _ => True) (fun _ s' => s'.flash 0 = 0xff) (fun cut _ _ => ⟨⟨_, cut⟩, trivial⟩)
      fun s₁ same _ => by
        have moved := @ends_copyRaw_moved last lastWorks (fun _ => True) s₁ uzlib start size _
          behind aligned sectors bound
          (by rw [same, erased]; exact fun zipped => empty zipped.1) fun _ _ => trivial
        refine moved.weaken (fun _ cut => cut) fun _ s' done => ?_
        rw [done.2.1 0 (by omega), same]
        exact erased)
    refine ⟨rom, booted, s'.flash, works, ?_, lost⟩
    rw [powerOn, run]
    dsimp only
    rw [powerOn, returned]

/-- An image at the start of the flash is lost at once. -/
theorem StagedWhole.lost_at_start {env : Env} {size : Nat} {image : List UInt8} {board : Board}
    (staged : StagedWhole env 0 size image board) (plain : IsPlain image) {uzlib : Uzlib}
    {last : Rom} (lastWorks : last.Works) (steady : Steady last) :
    ∃ booted flash, powerOn uzlib board.rtc [last] board.flash = some (booted, flash) ∧
      flash 0 = 0xff := by
  obtain ⟨cmd, read, action, source, destination, length⟩ := staged.command
  have bound := staged.sectors_bound
  have positive := staged.positive
  obtain ⟨booted, s', returned, lost⟩ := ends_steady steady (@ends_main board.rtc cmd 0 size
    read action source destination length last lastWorks uzlib ⟨board.flash, 0, []⟩
    (Cut last fun _ => True) (fun _ s' => s'.flash 0 = 0xff) (fun cut _ _ => ⟨⟨_, cut⟩, trivial⟩)
    fun s₁ same _ => by
      have erased := @ends_copyRaw_lost last lastWorks (fun _ => True) s₁ uzlib size _
        staged.sectors (by omega) (same ▸ staged.plain plain) fun _ _ => trivial
      exact erased.weaken (fun _ cut => cut) fun _ s' done => done.2.1 0 (by omega))
  refine ⟨booted, s'.flash, ?_, lost⟩
  rw [powerOn, returned]

/-- However often the copy is interrupted, in the end the image is at the start of the flash. -/
def CopiesInterrupted (uzlib : Uzlib) (start size : Nat) (board : Board) : Prop :=
  ∀ roms : List Rom, (∀ rom ∈ roms, rom.Works) → ∀ last : Rom, last.Works → Steady last →
    ∃ booted flash, powerOn uzlib board.rtc (roms ++ [last]) board.flash = some (booted, flash) ∧
      booted.res = 0 ∧ readRange flash 0 size = readRange board.flash start size

theorem StagedWhole.interrupted_iff {env : Env} {start size : Nat} {image : List UInt8}
    {board : Board} (staged : StagedWhole env start size image board) (plain : IsPlain image)
    (uzlib : Uzlib) : CopiesInterrupted uzlib start size board ↔ roundSector size ≤ start := by
  have positive := staged.positive
  have begins := staged.begins_plain plain
  constructor
  · intro copies
    by_contra overlap
    let last : Rom := ⟨fun _ => none, fun _ => false, fun _ => 0⟩
    have works : last.Works := fun _ => rfl
    have steady : Steady last := fun _ => rfl
    -- in either case the first byte is empty in the end
    obtain ⟨roms, booted, flash, romsWork, powered, lost⟩ : ∃ roms booted flash,
        (∀ rom ∈ roms, rom.Works) ∧
        powerOn uzlib board.rtc (roms ++ [last]) board.flash = some (booted, flash) ∧
        flash 0 = 0xff := by
      by_cases zero : start = 0
      · subst zero
        obtain ⟨booted, flash, powered, lost⟩ := staged.lost_at_start plain works steady
        exact ⟨[], booted, flash, fun _ member => absurd member List.not_mem_nil, powered, lost⟩
      · obtain ⟨rom, booted, flash, romWorks, powered, lost⟩ :=
          staged.lost_again plain zero (by omega) works steady
        exact ⟨[rom], booted, flash, fun r member => List.mem_singleton.1 member ▸ romWorks,
          powered, lost⟩
    obtain ⟨booted', flash', powered', -, same⟩ := copies roms romsWork last works steady
    cases powered.symm.trans powered'
    have first := readRange_inj same 0 positive
    rw [Nat.zero_add, Nat.add_zero, lost, begins] at first
    exact absurd first (by decide)
  · intro apart roms works last lastWorks steady
    exact staged.interrupted plain apart lastWorks steady works fun _ _ => rfl

/-- **Interrupted copies** end well exactly where the image is staged behind its destination. -/
theorem interrupted_copies {env : Env} {size : Nat} {around : Surroundings}
    {m started m' : Machine} (fits : size < 2 ^ 32)
    (began : begin env size uFlash around m = (true, started))
    {calls : List UpdateCall} (sized : ∀ call ∈ calls, call.Sized)
    (whole : (Runs.after (perform env) calls ⟨started, []⟩).accepted.length = size)
    (plain : IsPlain (Runs.after (perform env) calls ⟨started, []⟩).accepted)
    {evenIfRemaining : Bool} (ended : endUpdate env evenIfRemaining
      (Runs.after (perform env) calls ⟨started, []⟩).machine = (true, m')) (uzlib : Uzlib) :
    CopiesInterrupted uzlib started.updater.startAddress size m'.board ↔
      roundSector size ≤ started.updater.startAddress := by
  exact (stagedWhole_of_end fits began sized whole ended).interrupted_iff plain uzlib

/-- Four bytes of a sketch, far behind their destination. -/
theorem interrupted_copies_four :
    let env := exampleEnv fun _ => none
    let m : Machine := ⟨.construct 0 none false, exampleBoard⟩
    let started := (begin env 4 uFlash ⟨0, 0⟩ m).2
    let r := Runs.after (perform env) [.write [0xe9, 0, 2, 0]] ⟨started, []⟩
    CopiesInterrupted exampleUzlib started.updater.startAddress 4
      (endUpdate env false r.machine).2.board := by
  intro env m started r
  have begins : (begin env 4 uFlash ⟨0, 0⟩ m).1 = true := by decide +kernel
  have began : begin env 4 uFlash ⟨0, 0⟩ m = (true, started) := Prod.ext begins rfl
  have accepted : r.accepted = [0xe9, 0, 2, 0] := by decide +kernel
  have whole : r.accepted.length = 4 := by rw [accepted]; rfl
  have plain : IsPlain r.accepted := by rw [accepted]; decide
  have ends : (endUpdate env false r.machine).1 = true := by decide +kernel
  have ended : endUpdate env false r.machine = (true, (endUpdate env false r.machine).2) :=
    Prod.ext ends rfl
  have apart : roundSector 4 ≤ started.updater.startAddress := by decide +kernel
  exact (interrupted_copies (by decide) began four_sized whole plain ended exampleUzlib).2 apart

/-- Two sectors, staged behind the first one of a chip: the second pass of the copy erases the
first sector of the image. -/
theorem interrupted_copy_lost :
    let env := exampleTightEnv (fun _ => none) 0x40203000 (by decide)
    let m : Machine := ⟨.construct 0 none false, exampleBoard⟩
    let started := (begin env 4097 uFlash ⟨0, 0x10000⟩ m).2
    let r := Runs.after (perform env) [.write (List.replicate 4097 0xe9)] ⟨started, []⟩
    (begin env 4097 uFlash ⟨0, 0x10000⟩ m).1 = true ∧ (endUpdate env false r.machine).1 = true ∧
      ¬ CopiesInterrupted exampleUzlib started.updater.startAddress 4097
        (endUpdate env false r.machine).2.board := by
  intro env m started r
  have begins : (begin env 4097 uFlash ⟨0, 0x10000⟩ m).1 = true := by decide +kernel
  have began : begin env 4097 uFlash ⟨0, 0x10000⟩ m = (true, started) := Prod.ext begins rfl
  have whole : r.accepted.length = 4097 := by decide +kernel
  have plain : IsPlain r.accepted := by decide +kernel
  have ends : (endUpdate env false r.machine).1 = true := by decide +kernel
  have ended : endUpdate env false r.machine = (true, (endUpdate env false r.machine).2) :=
    Prod.ext ends rfl
  have overlap : ¬ roundSector 4097 ≤ started.updater.startAddress := by decide +kernel
  have sized : ∀ call ∈ [UpdateCall.write (List.replicate 4097 0xe9)], call.Sized := by
    intro call member
    rw [List.mem_singleton.1 member, UpdateCall.Sized, List.length_replicate]
    decide
  have staged := stagedWhole_of_end (by decide) began sized whole ended
  exact ⟨begins, ends, fun copies => overlap ((staged.interrupted_iff plain _).1 copies)⟩

end Esp8266.Updater
