import Esp8266.Source.Eboot
import Esp8266.Source.Elf2bin
import Esp8266.Source.Esp

/-!
# Builder, bootloader and sketch agree on the image

What the builder writes is said once: the headers, the segments and a tail that fills up the last
sixteen bytes. The two readers then walk over the same list of segments, each with its own
position.
-/
set_option autoImplicit false

namespace Esp8266.Source.Elf2bin
open Esp8266.Lib.NorFlash Esp8266.Lib.Word32 Esp8266.Source.Esp Esp8266.Source.Eboot

/-! ## What the builder writes -/

/-- A segment in the file. -/
def encode (segment : Segment) : List UInt8 := segmentHeader segment ++ segment.raw

theorem length_encode (segment : Segment) : (encode segment).length = 8 + segment.raw.length := by
  simp only [encode, segmentHeader, List.length_append, length_wordBytes]

theorem writeSegments_eq (segments : List Segment) : ∀ p : Progress,
    (∀ segment ∈ segments, segment.raw.length = segment.size) →
    ∃ checksum, writeSegments segments p = some
      ⟨p.out ++ segments.flatMap encode, p.totalSize + (segments.flatMap encode).length,
        checksum⟩ := by
  induction segments with
  | nil =>
    intro p _
    exact ⟨p.checksum, by rw [List.flatMap_nil, List.append_nil]; rfl⟩
  | cons segment segments ih =>
    intro p same
    have first := same segment List.mem_cons_self
    obtain ⟨checksum, written⟩ := ih
      ⟨p.out ++ segmentHeader segment ++ segment.raw, p.totalSize + 8 + segment.raw.length,
        segment.raw.foldl (· ^^^ ·) p.checksum⟩
      (fun s mem => same s (List.mem_cons_of_mem _ mem))
    refine ⟨checksum, ?_⟩
    rw [writeSegments, if_neg (not_not_intro first), written, List.flatMap_cons, encode]
    simp only [List.append_assoc, List.length_append, Option.some.injEq, Progress.mk.injEq,
      true_and, and_true]
    simp [segmentHeader]
    omega

/-- The zero bytes come to the next multiple of 16. -/
theorem padTo16_eq (fuel : Nat) : ∀ (totalSize : Nat) (out : List UInt8),
    (16 - totalSize % 16) % 16 ≤ fuel →
    padTo16 fuel totalSize out = (totalSize + (16 - totalSize % 16) % 16,
      out ++ List.replicate ((16 - totalSize % 16) % 16) 0) := by
  have low (n : Nat) : n &&& 15 = n % 16 := Nat.and_two_pow_sub_one_eq_mod n 4
  induction fuel with
  | zero =>
    intro totalSize out enough
    rw [Nat.eq_zero_of_le_zero enough]
    simp [padTo16]
  | succ fuel ih =>
    intro totalSize out enough
    rw [padTo16, low]
    by_cases full : totalSize % 16 = 0
    · rw [if_neg (not_not_intro full), full]
      simp
    · have step : (16 - (totalSize + 1) % 16) % 16 + 1 = (16 - totalSize % 16) % 16 := by omega
      rw [if_pos full, ih (totalSize + 1) _ (by omega), ← step, List.append_assoc,
        List.replicate_succ]
      exact Prod.ext (by dsimp only; omega) rfl

/-- `totalSize` at the end of a program with these segments. -/
def paddedSize (segments : List Segment) : Nat :=
  (8 + (segments.flatMap encode).length + 16) / 16 * 16

/-- A program in the file: header, segments, and a tail up to the padded size. -/
theorem writeBin_eq (args : Args) (entry : Nat) (segments : List Segment) (toAddr : Nat)
    (out : List UInt8) (few : segments.length < 256)
    (same : ∀ segment ∈ segments, segment.raw.length = segment.size)
    (fits : toAddr = 0 ∨ paddedSize segments + 8 ≤ toAddr) :
    ∃ tail, writeBin args entry segments toAddr out =
        some (out ++
          (imageHeader args entry segments.length ++ (segments.flatMap encode ++ tail))) ∧
      8 + (segments.flatMap encode).length + tail.length =
        if toAddr = 0 then paddedSize segments else toAddr := by
  obtain ⟨checksum, written⟩ := writeSegments_eq segments
    ⟨out ++ imageHeader args entry segments.length, 8, 0xef⟩ same
  have padded := padTo16_eq 15 (8 + (segments.flatMap encode).length + 1)
    (out ++ imageHeader args entry segments.length ++ segments.flatMap encode) (by omega)
  have total : 8 + (segments.flatMap encode).length + 1 +
      (16 - (8 + (segments.flatMap encode).length + 1) % 16) % 16 = paddedSize segments := by
    rw [paddedSize]
    omega
  rw [total] at padded
  generalize (16 - (8 + (segments.flatMap encode).length + 1) % 16) % 16 = k at padded total
  rw [writeBin, if_neg (by omega), written]
  dsimp only
  rw [padded]
  dsimp only
  by_cases alone : toAddr = 0
  · refine ⟨List.replicate k 0 ++ [checksum], ?_, ?_⟩
    · rw [if_neg (not_not_intro alone)]
      simp only [List.append_assoc]
    · rw [if_pos alone, List.length_append, List.length_replicate, List.length_singleton]
      omega
  · refine ⟨List.replicate k 0 ++ ([checksum] ++
      List.replicate (toAddr - paddedSize segments) 0xaa), ?_, ?_⟩
    · rw [if_pos alone, if_neg (by omega)]
      simp only [List.append_assoc]
    · rw [if_neg alone]
      simp only [List.length_append, List.length_replicate, List.length_singleton]
      omega

/-! ## What the readers find -/

/-- From `pos` on, the flash reads as `data`. -/
def Holds (flash : Flash) (pos : Nat) (data : List UInt8) : Prop :=
  readRange flash pos data.length = data

theorem Holds.append {flash : Flash} {pos : Nat} {front back : List UInt8}
    (holds : Holds flash pos (front ++ back)) :
    Holds flash pos front ∧ Holds flash (pos + front.length) back := by
  rw [Holds, List.length_append, readRange_add] at holds
  exact List.append_inj holds (length_readRange _ _ _)

theorem word_wordBytes (before after : List UInt8) (val : Nat) :
    word (before ++ (wordBytes val ++ after)) before.length = val % 2 ^ 32 := by
  have at_ (i : Nat) : (before ++ (wordBytes val ++ after)).getD (before.length + i) 0 =
      (wordBytes val ++ after).getD i 0 := by
    rw [List.getD_eq_getElem?_getD, List.getElem?_append_right (Nat.le_add_right _ _),
      Nat.add_sub_cancel_left, ← List.getD_eq_getElem?_getD]
  have first := at_ 0
  rw [Nat.add_zero] at first
  rw [word, first, at_, at_, at_]
  exact wordOf_wordBytes rfl

theorem word_address (segment : Segment) : word (segmentHeader segment) 0 = segment.addr % 2 ^ 32 :=
  word_wordBytes [] (wordBytes segment.size) segment.addr

theorem word_size (segment : Segment) : word (segmentHeader segment) 4 = segment.size % 2 ^ 32 := by
  have := word_wordBytes (wordBytes segment.addr) [] segment.size
  rwa [List.append_nil] at this

/-- A read inside the chip succeeds where no call fails. -/
theorem flashRead_works {env : Env} (works : ∀ k, env.fault k = none) {offset : Nat}
    {data : List UInt8} {board : Board} (holds : Holds board.flash offset data)
    (inside : offset + data.length ≤ env.chip.size) (old : List UInt8)
    (room : old.length = data.length) :
    ∃ board', flashRead env offset old board = (true, data, board') ∧
      board'.flash = board.flash ∧ board'.sketchSize = board.sketchSize := by
  have outcome : env.outcome board offset old.length = .done := by
    rw [Env.outcome, works, room]
    exact if_pos inside
  refine ⟨{ board with calls := board.calls + 1 }.note (.read offset data.length true), ?_, rfl,
    rfl⟩
  rw [flashRead, outcome, room]
  dsimp only
  rw [holds]

/-- The sections of `getSketchSize` add up to the end of the segments. -/
theorem sketchSections_eq {env : Env} (works : ∀ k, env.fault k = none) (segments : List Segment) :
    ∀ (pos : Nat) (board : Board), Holds board.flash pos (segments.flatMap encode) →
    (∀ segment ∈ segments, segment.raw.length = segment.size) →
    pos + (segments.flatMap encode).length ≤ env.chip.size →
    (sketchSections env segments.length pos board).1 =
      some (pos + (segments.flatMap encode).length) := by
  induction segments with
  | nil => intro pos board _ _ _; rfl
  | cons segment segments ih =>
    intro pos board holds same inside
    have limit := env.chip.size_le
    have size := same segment List.mem_cons_self
    rw [List.flatMap_cons] at holds inside ⊢
    rw [List.length_append, length_encode] at inside
    obtain ⟨here, later⟩ := holds.append
    obtain ⟨board', read, flash, _⟩ := flashRead_works works here.append.1
      (by simp [segmentHeader]; omega) (List.replicate 8 0) rfl
    rw [List.length_cons, sketchSections, read]
    have held : word (segmentHeader segment) 4 = segment.raw.length := by
      rw [word_size, ← size, Nat.mod_eq_of_lt (by omega)]
    have next : add32 (add32 pos 8) (word (segmentHeader segment) 4) =
        pos + (encode segment).length := by
      rw [held, add32_of_lt (a := pos) (by omega), add32_of_lt (by omega), length_encode]
      omega
    change (sketchSections env segments.length
      (add32 (add32 pos 8) (word (segmentHeader segment) 4)) board').1 = _
    rw [next, ih _ board' (by rw [flash]; exact later)
      (fun s mem => same s (List.mem_cons_of_mem _ mem)) (by rw [length_encode]; omega),
      List.length_append, Nat.add_assoc]

/-- The offsets of the segment headers, the first of them at `start`. -/
def headerOffsets (start : Nat) : List Segment → List Nat
  | [] => []
  | segment :: segments => start :: headerOffsets (start + (encode segment).length) segments

/-- What is loaded: the segments in RAM, each to its address. -/
def loadedSegments (segments : List Segment) : List (Nat × List UInt8) :=
  (segments.filter fun segment => loads (segment.addr % 2 ^ 32)).map fun segment =>
    (segment.addr % 2 ^ 32, segment.raw)

theorem loadedSegments_cons (segment : Segment) (segments : List Segment) :
    loadedSegments (segment :: segments) =
      if loads (segment.addr % 2 ^ 32) then
        (segment.addr % 2 ^ 32, segment.raw) :: loadedSegments segments
      else loadedSegments segments := by
  rw [loadedSegments, List.filter_cons]
  split
  · rfl
  · rfl

/-- The bootloader comes to every header and loads what is to be loaded. -/
theorem loadSections_eq {flash : Flash} {chipSize : Nat} {spiRead : SpiRead}
    (limit : chipSize ≤ 2 ^ 24)
    (reads : ∀ pos n, pos % 4 = 0 → n % 4 = 0 → pos + n ≤ chipSize →
      spiRead pos n = some (readRange flash pos n)) (entry : Nat) (segments : List Segment) :
    ∀ pos, Holds flash pos (segments.flatMap encode) → pos % 4 = 0 →
    (∀ segment ∈ segments, segment.raw.length = segment.size ∧ segment.size % 4 = 0) →
    pos + (segments.flatMap encode).length ≤ chipSize →
    loadSections spiRead entry segments.length pos =
      ⟨headerOffsets pos segments, loadedSegments segments, .ok entry⟩ := by
  induction segments with
  | nil => intro pos _ _ _ _; rfl
  | cons segment segments ih =>
    intro pos holds aligned same inside
    obtain ⟨size, quads⟩ := same segment List.mem_cons_self
    rw [List.flatMap_cons] at holds inside
    rw [List.length_append, length_encode] at inside
    obtain ⟨here, later⟩ := holds.append
    obtain ⟨header, data⟩ := here.append
    have eight : (segmentHeader segment).length = 8 := by simp [segmentHeader]
    have first : spiRead pos 8 = some (segmentHeader segment) := by
      rw [reads pos 8 aligned (by decide) (by omega)]
      exact congrArg some (eight ▸ header)
    have held : word (segmentHeader segment) 4 = segment.raw.length := by
      rw [word_size, ← size, Nat.mod_eq_of_lt (by omega)]
    have start : add32 pos 8 = pos + 8 := add32_of_lt (by omega)
    have second : spiRead (pos + 8) segment.raw.length = some segment.raw := by
      rw [reads _ _ (by omega) (by omega) (by omega)]
      exact congrArg some (eight ▸ data)
    have next : add32 (pos + 8) segment.raw.length = pos + (encode segment).length := by
      rw [add32_of_lt (by omega), length_encode]
      omega
    have rest := ih _ later (by rw [length_encode]; omega)
      (fun s mem => same s (List.mem_cons_of_mem _ mem)) (by rw [length_encode]; omega)
    rw [List.length_cons, loadSections, first]
    dsimp only
    rw [held, start, next, rest, word_address, headerOffsets, loadedSegments_cons]
    cases ram : loads (segment.addr % 2 ^ 32) with
    | true =>
      rw [second]
      rfl
    | false => rfl

/-- The sketch rounds the end of the segments up to the end of the file. -/
theorem getSketchSize_eq {env : Env} {board board' last : Board} {header : List UInt8}
    {stop total : Nat} (fresh : board.sketchSize = 0)
    (read : flashRead env 4096 (List.replicate 8 0) board = (true, header, board'))
    (sections : sketchSections env (header.getD 1 0).toNat 4104 board' = (some stop, last))
    (small : stop + 16 < 2 ^ 32) (rounded : (stop + 16) / 16 * 16 = total) :
    (getSketchSize env board).1 = total := by
  rw [getSketchSize, if_neg (not_not_intro fresh),
    show Esp.appStartOffset = 4096 from rfl, read]
  dsimp only
  rw [if_pos rfl, sections, ← rounded, ← add32_of_lt small]
  exact and_clear_low _ 4 (by rw [add32_of_lt small]; exact small) (by decide)

theorem loadAppFromFlashRaw_eq {spiRead : SpiRead} {header : List UInt8} {load : Load}
    (read : spiRead 4096 8 = some header)
    (sections : loadSections spiRead (word header 4) (header.getD 1 0).toNat 4104 = load) :
    loadAppFromFlashRaw spiRead 0 = load := by
  rw [loadAppFromFlashRaw, show add32 0 Eboot.appStartOffset = 4096 from rfl, read, ← sections]
  rfl

/-- At these offsets the file has the headers. -/
theorem headerOffsets_eq (tail : List UInt8) (segments : List Segment) :
    ∀ before : List UInt8, (headerOffsets before.length segments).map
        (fun pos => ((before ++ (segments.flatMap encode ++ tail)).drop pos).take 8) =
      segments.map segmentHeader := by
  induction segments with
  | nil => intro before; rfl
  | cons segment segments ih =>
    intro before
    have eight : (segmentHeader segment).length = 8 := by simp [segmentHeader]
    have rest := ih (before ++ encode segment)
    rw [List.length_append] at rest
    rw [headerOffsets, List.map_cons, List.map_cons, List.flatMap_cons, List.append_assoc,
      ← List.append_assoc before, rest, List.append_assoc, List.drop_left, encode,
      List.append_assoc, List.take_left' eight]

/-- The image: the bootloader's 4096 bytes, and the sketch padded to its size. -/
theorem writeImage_eq (args : Args) (ebootEntry appEntry : Nat) {eboot : Segment}
    {app : List Segment} (bootFits : paddedSize [eboot] + 8 ≤ 4096) (few : app.length < 256)
    (boot : eboot.raw.length = eboot.size)
    (sizes : ∀ segment ∈ app, segment.raw.length = segment.size) :
    ∃ out tail, writeImage args ebootEntry eboot appEntry app =
        some (out ++ (imageHeader args appEntry app.length ++ (app.flatMap encode ++ tail))) ∧
      out.length = 4096 ∧
      (imageHeader args appEntry app.length ++ (app.flatMap encode ++ tail)).length =
        paddedSize app := by
  obtain ⟨bootTail, bootFile, bootLength⟩ := writeBin_eq args ebootEntry [eboot] 4096 []
    (by rw [List.length_singleton]; decide) (by simpa using boot) (.inr bootFits)
  rw [List.nil_append] at bootFile
  obtain ⟨tail, appFile, length⟩ := writeBin_eq args appEntry app 0
    (imageHeader args ebootEntry [eboot].length ++ ([eboot].flatMap encode ++ bootTail)) few sizes
    (.inl rfl)
  rw [if_pos rfl] at length
  refine ⟨_, tail, by rw [writeImage, bootFile]; exact appFile, ?_, ?_⟩
  · rw [List.length_append, List.length_append, ← Nat.add_assoc]
    exact bootLength
  · rw [List.length_append, List.length_append, ← Nat.add_assoc]
    exact length

/-- **Builder, bootloader and sketch agree.** The image that is written to the flash at 0 has the
length that the sketch works out, and the bootloader finds its headers and loads its segments. -/
theorem layout_agreed (args : Args) (ebootEntry appEntry : Nat) (eboot : Segment)
    (app : List Segment) (bootFits : paddedSize [eboot] + 8 ≤ 4096) (few : app.length < 256)
    (boot : eboot.raw.length = eboot.size)
    (sizes : ∀ segment ∈ app, segment.raw.length = segment.size ∧ segment.size % 4 = 0) :
    ∃ file, writeImage args ebootEntry eboot appEntry app = some file ∧
      ∀ (env : Env) (board : Board) (spiRead : SpiRead), file.length ≤ env.chip.size →
        Holds board.flash 0 file → (∀ k, env.fault k = none) → board.sketchSize = 0 →
        (∀ pos n, pos % 4 = 0 → n % 4 = 0 → pos + n ≤ env.chip.size →
          spiRead pos n = some (readRange board.flash pos n)) →
        (getSketchSize env board).1 = file.length ∧
        (loadAppFromFlashRaw spiRead 0) =
          ⟨headerOffsets 4104 app, loadedSegments app, .ok (appEntry % 2 ^ 32)⟩ ∧
        (headerOffsets 4104 app).map (fun pos => (file.drop pos).take 8) =
          app.map segmentHeader := by
  obtain ⟨out, tail, built, start, padded⟩ :=
    writeImage_eq args ebootEntry appEntry bootFits few boot fun segment mem => (sizes segment mem).1
  refine ⟨_, built, ?_⟩
  intro env board spiRead inside holds works fresh reads
  have limit := env.chip.size_le
  have eight : (imageHeader args appEntry app.length).length = 8 := rfl
  have fileLength : (out ++ (imageHeader args appEntry app.length ++
      (app.flatMap encode ++ tail))).length = 4096 + paddedSize app := by
    rw [List.length_append, start, padded]
  have room : paddedSize app = 8 + ((app.flatMap encode).length + tail.length) := by
    rw [← padded, List.length_append, List.length_append, eight]
  rw [fileLength] at inside ⊢
  have sketch := holds.append.2
  rw [start, Nat.zero_add] at sketch
  obtain ⟨header, body⟩ := sketch.append
  rw [eight] at body
  have segments := body.append.1
  have count : ((imageHeader args appEntry app.length).getD 1 0).toNat = app.length := by
    change (UInt8.ofNat app.length).toNat = app.length
    rw [UInt8.toNat_ofNat']
    exact Nat.mod_eq_of_lt few
  have entry : word (imageHeader args appEntry app.length) 4 = appEntry % 2 ^ 32 := by
    have := word_wordBytes [0xe9, UInt8.ofNat app.length, UInt8.ofNat (fmodeb args.flashMode),
      UInt8.ofNat (ffreqb args.flashFreq + 16 * fsizeb args.flashSize)] [] appEntry
    rwa [List.append_nil] at this
  refine ⟨?_, ?_, ?_⟩
  · obtain ⟨board', read, flash, _⟩ := flashRead_works works header (by rw [eight]; omega)
      (List.replicate 8 0) rfl
    have sum := sketchSections_eq works app 4104 board' (by rw [flash]; exact segments)
      (fun segment mem => (sizes segment mem).1) (by omega)
    obtain ⟨last, sections⟩ : ∃ last, sketchSections env app.length 4104 board' =
        (some (4104 + (app.flatMap encode).length), last) := ⟨_, Prod.ext sum rfl⟩
    exact getSketchSize_eq fresh read (by rw [count]; exact sections) (by omega) (by
      rw [paddedSize]
      omega)
  · have first : spiRead 4096 8 = some (imageHeader args appEntry app.length) := by
      rw [reads 4096 8 (by decide) (by decide) (by omega)]
      exact congrArg some header
    have rest := loadSections_eq limit reads (appEntry % 2 ^ 32) app 4104 segments (by decide)
      sizes (by omega)
    exact loadAppFromFlashRaw_eq first (by rw [count, entry]; exact rest)
  · have found := headerOffsets_eq tail app (out ++ imageHeader args appEntry app.length)
    rw [List.length_append, start, eight, List.append_assoc] at found
    exact found

theorem layout_agreed_small : ∃ (file : List UInt8) (env : Env) (board : Board),
    writeImage ⟨.dio, .mhz40, .mb4⟩ 0 ⟨4, 0x4010f000, [1, 2, 3, 4]⟩ 0x40100004
      [⟨4, 0x40100000, [5, 6, 7, 8]⟩] = some file ∧ Holds board.flash 0 file ∧
    (getSketchSize env board).1 = file.length := by
  obtain ⟨file, built, agreed⟩ := layout_agreed ⟨.dio, .mhz40, .mb4⟩ 0 0x40100004
    ⟨4, 0x4010f000, [1, 2, 3, 4]⟩ [⟨4, 0x40100000, [5, 6, 7, 8]⟩] (by decide) (by decide) rfl
    (by decide)
  obtain ⟨out, tail, image, start, padded⟩ := @writeImage_eq ⟨.dio, .mhz40, .mb4⟩ 0 0x40100004
    ⟨4, 0x4010f000, [1, 2, 3, 4]⟩ [⟨4, 0x40100000, [5, 6, 7, 8]⟩] (by decide) (by decide) rfl
    (by decide)
  have length : file.length = 4128 := by
    rw [Option.some.inj (built.symm.trans image), List.length_append, start, padded]
    rfl
  let env : Env := ⟨⟨flashMap, flashMap, Nat.le_refl _, Nat.le_refl _, by decide, by decide,
    by decide⟩, ⟨0, 2 ^ 20, by decide⟩, fun _ => none, id, fun _ => true, fun _ => 0, fun _ => 0⟩
  let board : Board := ⟨fun a => file.getD a 0, fun _ => 0, 0, 0, []⟩
  have holds : Holds board.flash 0 file := readRange_eq _ 0 file fun i _ => by
    rw [Nat.zero_add]
  refine ⟨file, env, board, built, holds, (agreed env board
    (fun pos n => some (readRange board.flash pos n)) ?_ holds (fun _ => rfl) rfl
    fun _ _ _ _ _ => rfl).1⟩
  rw [length]
  decide

end Esp8266.Source.Elf2bin
