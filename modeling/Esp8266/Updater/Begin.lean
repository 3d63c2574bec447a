import Esp8266.Updater.Calls

/-!
# begin

A `begin` that succeeds starts a session whose region ends below the file system; one that fails
leaves the updater idle, or as it was when an update is running.
-/
set_option autoImplicit false

namespace Esp8266.Updater
open Esp8266.Lib.NorFlash Esp8266.Lib.Word32 Esp8266.Source.Esp Esp8266.Source.Updater

theorem roundSector_eq (n : Nat) : roundSector n = add32 n 4095 / 4096 * 4096 :=
  and_clear_low (add32 n 4095) 12 (Nat.mod_lt _ (by decide)) (by decide)

/-- Where nothing wraps, rounding goes up to the end of the sector. -/
theorem roundSector_of_lt {n : Nat} (small : n + 4095 < 2 ^ 32) : roundSector n = sectorEnd n := by
  rw [roundSector_eq, add32_of_lt small]
  rfl

/-- The end of the space that a sketch update may use. -/
def updateEnd (layout : Layout) : Nat := layout.fsStart - flashMap

theorem updateEnd_eq (layout : Layout) : sub32 layout.fsStart flashMap = updateEnd layout := by
  have ordered := layout.ordered
  have inside := layout.inside
  unfold flashMap at *
  exact sub32_of_le layout.mapped (by omega)

theorem updateEnd_le (layout : Layout) : updateEnd layout ≤ 2 ^ 24 := by
  have ordered := layout.ordered
  have inside := layout.inside
  unfold updateEnd
  omega

theorem updateEnd_aligned (layout : Layout) : updateEnd layout % 4096 = 0 := by
  have aligned := layout.start_aligned
  have mapped := layout.mapped
  unfold updateEnd flashMap at *
  omega

/-- The region of a sketch update. -/
theorem updateRegion_sketch {layout : Layout} {sketchSize size address : Nat}
    (region : updateRegion layout.fsStart layout.fsEnd sketchSize size uFlash = .start address) :
    address = updateEnd layout - roundSector size ∧ roundSector sketchSize ≤ address := by
  have bound := updateEnd_le layout
  have start : (if updateEnd layout > roundSector size then
      sub32 (updateEnd layout) (roundSector size) else 0) =
        updateEnd layout - roundSector size := by
    split
    · exact sub32_of_le (by omega) (by omega)
    · omega
  unfold updateRegion at region
  simp only [if_true, updateEnd_eq, start] at region
  by_cases above : updateEnd layout - roundSector size < roundSector sketchSize
  · rw [if_pos above] at region
    cases region
  · rw [if_neg above, Region.start.injEq] at region
    exact ⟨region.symm, by omega⟩

/-- Every region starts at a sector of the largest chip. -/
theorem updateRegion_start {layout : Layout} {sketchSize size command address : Nat}
    (region : updateRegion layout.fsStart layout.fsEnd sketchSize size command = .start address) :
    address % 4096 = 0 ∧ address ≤ 2 ^ 24 ∧ (command = uFlash ∨ command = uFs) := by
  have bound := updateEnd_le layout
  have aligned := updateEnd_aligned layout
  by_cases sketch : command = uFlash
  · subst sketch
    obtain ⟨rfl, -⟩ := updateRegion_sketch region
    have rounded := roundSector_eq size
    exact ⟨by omega, by omega, .inl rfl⟩
  · unfold updateRegion at region
    simp only [if_neg sketch, updateEnd_eq] at region
    by_cases fileSystem : command = uFs
    · rw [if_pos fileSystem] at region
      split at region
      · cases region
      · simp only [Region.start.injEq] at region
        subst region
        exact ⟨aligned, bound, .inr fileSystem⟩
    · rw [if_neg fileSystem] at region
      cases region

/-- The sketch size that `begin` uses. -/
def sketchSizeSeen (env : Env) (board : Board) : Nat :=
  (getSketchSize env (checkFlashConfig env board).2).1

/-- What a session and its machine are right after `begin`. -/
structure Begun (env : Env) (size command : Nat) (around : Surroundings) (m : Machine)
    (s : Session) (m' : Machine) : Prop where
  size_eq : s.size = size
  command_eq : s.command = command
  bufferSize_eq : s.bufferSize = if around.freeHeap > 2 * flashSectorSize then flashSectorSize else 256
  verify_eq : s.verify = m.updater.verify
  hashes_iff : s.hashes ↔ m.updater.verify = none
  board_eq : s.board = m'.board
  region : updateRegion env.layout.fsStart env.layout.fsEnd (sketchSizeSeen env m.board) size
    command = .start s.start
  staging : Staging env s ⟨[], 0, s.chipMode, []⟩ m'

/-- Before the first byte the invariant is about the members alone. -/
theorem Staging.fresh {env : Env} {s : Session} {m : Machine} {buffer : List UInt8}
    (error : m.updater.error = .ok) (size : m.updater.size = s.size)
    (start : m.updater.startAddress = s.start) (current : m.updater.currentAddress = s.start)
    (command : m.updater.command = s.command) (bufferSize : m.updater.bufferSize = s.bufferSize)
    (verify : m.updater.verify = s.verify) (held : m.updater.buffer = some buffer)
    (allocated : buffer.length = s.bufferSize) (empty : m.updater.bufferLen = 0)
    (md5 : s.hashes → m.updater.md5 = []) (board : m.board = s.board) :
    Staging env s ⟨[], 0, s.chipMode, []⟩ m where
  error := error
  size := size
  start := start
  command := command
  bufferSize := bufferSize
  verify := verify
  current := current
  bound := s.start_le
  buffer := ⟨buffer, held, allocated, by rw [empty]; rfl⟩
  length := by rw [empty]; rfl
  fits := by rw [empty]; exact Nat.zero_le _
  aligned := .inl (Nat.zero_mod _)
  complete := fun _ => empty
  untouched := fun _ => by rw [board]
  decoded := .inl ⟨.inl rfl, by simp⟩
  staged := by rw [List.take_nil, flashImage_nil]; rfl
  md5 := fun plain => by rw [md5 plain, List.take_nil, md5Image_nil]
  follows := by rw [board]; exact Follows.refl _
  erased := by
    intro a low high
    have aligned := s.start_aligned
    unfold sectorEnd flashSectorSize at *
    simp only at low high
    omega
  writes := trivial
  settled := by simp

/-- **`begin`.** -/
theorem begin_cases (env : Env) (size command : Nat) (around : Surroundings) (m : Machine)
    (fits : size < 2 ^ 32) :
    (0 < m.updater.size ∧ begin env size command around m = (false, m)) ∨
    (m.updater.size = 0 ∧ Quiet m.board (begin env size command around m).2.board ∧
      (((begin env size command around m).1 = false ∧
          Idle (begin env size command around m).2.updater) ∨
        ((begin env size command around m).1 = true ∧
          ∃ s, Begun env size command around m s (begin env size command around m).2))) := by
  by_cases running : 0 < m.updater.size
  · exact .inl ⟨running, if_pos running⟩
  · refine .inr ⟨by omega, ?_⟩
    have configured := checkFlashConfig_quiet env m.board
    have measured := getSketchSize_quiet env (checkFlashConfig env m.board).2
    unfold begin
    rw [if_neg running]
    by_cases boot : around.bootMode = 1
    · rw [if_pos boot]
      exact ⟨Quiet.refl _, .inl ⟨rfl, idle_setError _ _⟩⟩
    · rw [if_neg boot]
      by_cases empty : size = 0
      · rw [if_pos empty]
        exact ⟨Quiet.refl _, .inl ⟨rfl, idle_setError _ _⟩⟩
      · rw [if_neg empty]
        dsimp only
        split
        · exact ⟨configured, .inl ⟨rfl, idle_setError _ _⟩⟩
        · split
          · exact ⟨configured.trans measured, .inl ⟨rfl, idle_setError _ _⟩⟩
          · exact ⟨configured.trans measured, .inl ⟨rfl, rfl, rfl, rfl, rfl, rfl, rfl⟩⟩
          · rename_i address region
            obtain ⟨aligned, bound, known⟩ := updateRegion_start region
            have buffer : (if around.freeHeap > 2 * flashSectorSize then flashSectorSize
                else 256) = 4096 ∨ (if around.freeHeap > 2 * flashSectorSize then
                  flashSectorSize else 256) = 256 := by
              split
              · exact .inl rfl
              · exact .inr rfl
            refine ⟨configured.trans measured, .inr ⟨rfl, {
              start := address
              size := size
              command := command
              bufferSize := if around.freeHeap > 2 * flashSectorSize then flashSectorSize else 256
              verify := m.updater.verify
              hashes := m.updater.verify = none
              board := (getSketchSize env (checkFlashConfig env m.board).2).2
              command_known := known
              hashes_plain := id
              start_aligned := aligned
              start_le := bound
              size_pos := by omega
              size_lt := fits
              bufferSize_eq := buffer }, rfl, rfl, rfl, rfl, Iff.rfl, rfl, region, ?_⟩⟩
            refine Staging.fresh rfl rfl rfl rfl rfl rfl rfl rfl ?_ rfl ?_ rfl
            · rw [List.length_map, List.length_range]
            · intro plain
              exact if_pos (by rw [Option.isNone_iff_eq_none]; exact plain)

end Esp8266.Updater
