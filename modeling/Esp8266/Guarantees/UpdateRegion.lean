import Esp8266.Updater.Begin

/-!
# Where an update is staged

`begin` places the update between the running sketch and the file system, or into the file system.
It computes in 32 bits: the region is right as long as nothing wraps.
-/
set_option autoImplicit false

namespace Esp8266.Updater
open Esp8266.Lib.Word32 Esp8266.Source.Esp Esp8266.Source.Updater

/-- The region of a sketch update lies behind the sketch and in front of the file system, that of
a file system update in the file system, where no rounded size and no sum goes over 32 bits. A
sketch of size zero, which is what a failed read gives, holds nothing off. -/
structure RegionInside (fsStart fsEnd sketchSize size command address : Nat) : Prop where
  sketch : command = uFlash → sketchSize + 4095 < 2 ^ 32 →
    0 < sketchSize ∨ size ≤ fsStart - flashMap →
      address % 4096 = 0 ∧ sectorEnd sketchSize ≤ address ∧ address + size ≤ fsStart - flashMap
  fileSystem : command = uFs → fsStart + sectorEnd size < 2 ^ 32 →
    address = fsStart - flashMap ∧ address + size ≤ fsEnd - flashMap

/-- The address computation, for any layout. -/
theorem updateRegion_inside {fsStart fsEnd sketchSize size command address : Nat}
    (mapped : flashMap ≤ fsStart) (ordered : fsStart ≤ fsEnd) (top : fsEnd < 2 ^ 32)
    (aligned : fsStart % 4096 = 0) (small : size + 4095 < 2 ^ 32)
    (region : updateRegion fsStart fsEnd sketchSize size command = .start address) :
    RegionInside fsStart fsEnd sketchSize size command address := by
  have space : sub32 fsStart flashMap = fsStart - flashMap := sub32_of_le mapped (by omega)
  have rounded : roundSector size = sectorEnd size := roundSector_of_lt small
  have above := le_sectorEnd size
  constructor
  · intro sketch wide known
    have sketchEnd : roundSector sketchSize = sectorEnd sketchSize := roundSector_of_lt wide
    unfold updateRegion at region
    rw [if_pos sketch, space, rounded, sketchEnd] at region
    have start : (if fsStart - flashMap > sectorEnd size then
        sub32 (fsStart - flashMap) (sectorEnd size) else 0) =
          fsStart - flashMap - sectorEnd size := by
      split
      · exact sub32_of_le (by omega) (by omega)
      · omega
    dsimp only at region
    rw [start] at region
    split at region
    · cases region
    · rename_i enough
      obtain rfl : fsStart - flashMap - sectorEnd size = address := Region.start.inj region
      unfold sectorEnd flashMap at *
      omega
  · intro fileSystem inside
    unfold updateRegion at region
    rw [if_neg (by rw [fileSystem]; decide), if_pos fileSystem, space, rounded,
      add32_of_lt inside] at region
    split at region
    · cases region
    · rename_i enough
      obtain rfl : fsStart - flashMap = address := Region.start.inj region
      exact ⟨rfl, by omega⟩

/-- **Where `begin` stages an update**, and that it leaves none behind when it fails, unless one is
running already. -/
theorem begin_region (env : Env) (size command : Nat) (around : Surroundings) (m : Machine)
    (fits : size < 2 ^ 32) :
    ((begin env size command around m).1 = true →
      (begin env size command around m).2.updater.size = size ∧
      (size + 4095 < 2 ^ 32 → RegionInside env.layout.fsStart env.layout.fsEnd
        (sketchSizeSeen env m.board) size command
        (begin env size command around m).2.updater.startAddress)) ∧
    (∀ fsStart fsEnd sketchSize address : Nat, flashMap ≤ fsStart → fsStart ≤ fsEnd →
      fsEnd < 2 ^ 32 → fsStart % 4096 = 0 → size + 4095 < 2 ^ 32 →
      updateRegion fsStart fsEnd sketchSize size command = .start address →
      RegionInside fsStart fsEnd sketchSize size command address) ∧
    ((begin env size command around m).1 = false →
      (begin env size command around m).2.updater.isRunning = false ∨
        m.updater.isRunning = true ∧ (begin env size command around m).2 = m) := by
  refine ⟨?_, fun _ _ _ _ mapped ordered top aligned small region =>
    updateRegion_inside mapped ordered top aligned small region, ?_⟩
  · intro began
    rcases begin_cases env size command around m fits with ⟨-, refused⟩ | ⟨-, -, outcome⟩
    · rw [refused] at began
      cases began
    · rcases outcome with ⟨failed, -⟩ | ⟨-, s, begun⟩
      · rw [failed] at began
        cases began
      · refine ⟨begun.staging.size.trans begun.size_eq, fun small => ?_⟩
        rw [begun.staging.start]
        exact updateRegion_inside env.layout.mapped env.layout.ordered
          (Nat.lt_of_le_of_lt env.layout.inside (by decide)) env.layout.start_aligned small
          begun.region
  · intro failed
    rcases begin_cases env size command around m fits with ⟨running, refused⟩ | ⟨-, -, outcome⟩
    · right
      rw [refused]
      exact ⟨decide_eq_true running, rfl⟩
    · left
      rcases outcome with ⟨-, idle⟩ | ⟨began, -⟩
      · rw [UpdaterClass.isRunning, idle.size]
        rfl
      · rw [failed] at began
        cases began

/-- A sketch of 5000 bytes behind one of 4096. -/
theorem begin_region_sketch :
    let env : Env := {
      layout := ⟨0x40300000, 0x40310000, by decide, by decide, by decide, by decide, by decide⟩
      chip := ⟨0x140000, 2 ^ 20, by decide⟩
      fault := fun _ => none
      md5Hex := fun bytes => bytes
      mallocSucceeds := fun _ => true
      heap := fun _ => 0
      stack := fun _ => 0 }
    let board : Board := ⟨fun _ => 0xff, fun _ => 0, 4096, 0, []⟩
    let m : Machine := ⟨.construct 0 none false, board⟩
    let address := (begin env 5000 uFlash ⟨0, 0⟩ m).2.updater.startAddress
    address % 4096 = 0 ∧ sectorEnd 4096 ≤ address ∧ address + 5000 ≤ 0x100000 := by
  intro env board m address
  obtain ⟨started, -, -⟩ := begin_region env 5000 uFlash ⟨0, 0⟩ m (by decide)
  obtain ⟨-, inside⟩ := started (by decide)
  have seen : sketchSizeSeen env m.board = 4096 := by decide
  have space : env.layout.fsStart - flashMap = 0x100000 := by decide
  have region := (inside (by decide)).sketch rfl (by rw [seen]; decide) (.inl (by rw [seen]; decide))
  rw [seen, space] at region
  exact region

/-- A second `begin` is refused, and the first update runs on. -/
theorem begin_refused_running :
    let env : Env := {
      layout := ⟨0x40300000, 0x40310000, by decide, by decide, by decide, by decide, by decide⟩
      chip := ⟨0x140000, 2 ^ 20, by decide⟩
      fault := fun _ => none
      md5Hex := fun bytes => bytes
      mallocSucceeds := fun _ => true
      heap := fun _ => 0
      stack := fun _ => 0 }
    let board : Board := ⟨fun _ => 0xff, fun _ => 0, 4096, 0, []⟩
    let m : Machine := ⟨.construct 0 none false, board⟩
    let started := (begin env 5000 uFlash ⟨0, 0⟩ m).2
    (begin env 5000 uFlash ⟨0, 0⟩ m).1 = true ∧ (begin env 1 uFlash ⟨0, 0⟩ started).1 = false ∧
      (begin env 1 uFlash ⟨0, 0⟩ started).2.updater.isRunning = true := by
  intro env board m started
  refine ⟨?_, ?_, ?_⟩ <;> decide

end Esp8266.Updater
