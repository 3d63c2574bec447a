import Esp8266.Guarantees.StagedImages
import Esp8266.Guarantees.UpdateRegion
import Esp8266.Updater.Requests

/-!
# An update stays in its region

What a sketch update erases and writes lies in the sectors that `begin` has set aside for it, and
in front of the file system, unless a call goes behind the image: a write of no bytes to a complete
image opens the next sector, and `writeStream` reads more than is missing where bytes are in the
buffer. Where the size of the sketch could not be read, `begin` takes more than there is.
-/
set_option autoImplicit false

namespace Esp8266.Updater
open Esp8266.Lib Esp8266.Lib.NorFlash Esp8266.Lib.Word32 Esp8266.Source.Esp
  Esp8266.Source.Updater

/-- A call after `begin`. -/
def Request.Later : Request → Prop
  | .begin .. => False
  | .make call => call.Sized
  | .end_ _ => True

instance (request : Request) : Decidable request.Later :=
  match request with
  | .begin .. => inferInstanceAs (Decidable False)
  | .make call => inferInstanceAs (Decidable call.Sized)
  | .end_ _ => inferInstanceAs (Decidable True)

/-- The call does not go behind the image of an update that is running. -/
def Request.Stays (request : Request) (m : Machine) : Prop :=
  match request with
  | .make call => m.updater.isRunning = true → call.Stays m.updater
  | _ => True

/-- What was recorded lies in the region, and there is no update any more or one that is staged. -/
structure Contained (env : Env) (s : Session) (m : Machine) : Prop where
  within : s.Within s.board m.board
  held : Idle m.updater ∨ ∃ t, Staging env s t m ∧ Closed s t

/-- One call. -/
theorem serve_contained {env : Env} {s : Session} {m : Machine} (contained : Contained env s m)
    {request : Request} (later : request.Later) (stays : request.Stays m) :
    Contained env s (request.serve env m).2 := by
  cases request with
  | begin size command around => exact later.elim
  | make call =>
    rw [serve_make]
    rcases contained.held with idle | ⟨t, st, closed⟩
    · obtain ⟨-, board, idle', -⟩ := make_idle env idle call
      exact ⟨board ▸ contained.within, .inl idle'⟩
    · have running : m.updater.isRunning = true := by
        rw [UpdaterClass.isRunning, st.size]
        exact decide_eq_true s.size_pos
      obtain ⟨new, traced, outcome⟩ := make_spec st closed call later
      refine ⟨contained.within.trans ⟨new, traced.follows.log, traced.inside (stays running)⟩, ?_⟩
      rcases outcome with ⟨flushed, mode, st', closed'⟩ | givenUp
      · exact .inr ⟨_, st', closed'⟩
      · exact .inl givenUp.idle
  | end_ evenIfRemaining =>
    refine ⟨?_, .inl (endUpdate_idle env evenIfRemaining m)⟩
    rcases contained.held with idle | ⟨t, st, closed⟩
    · have skips : ¬ Checks evenIfRemaining m.updater := fun checks => checks.1 idle.size
      show s.Within s.board (endUpdate env evenIfRemaining m).2.board
      rw [endUpdate_skips skips]
      exact contained.within
    · exact contained.within.trans (st.endUpdate_within closed evenIfRemaining)

/-- A run of calls. -/
theorem after_contained {env : Env} {s : Session} {requests : List Request} :
    ∀ {m : Machine}, Contained env s m → (∀ request ∈ requests, request.Later) →
      Runs.Admits (Request.serve env) Request.Stays requests m →
      Contained env s (Runs.after (Request.serve env) requests m) := by
  induction requests with
  | nil => intro m contained _ _; exact contained
  | cons request rest ih =>
    intro m contained later stays
    exact ih (serve_contained contained (later request List.mem_cons_self) stays.1)
      (fun r member => later r (List.mem_cons_of_mem _ member)) stays.2

/-- The size of the running sketch was read, or the update would fit without it. -/
def Measured (env : Env) (size : Nat) (m : Machine) : Prop :=
  sketchSizeSeen env m.board + 4095 < 2 ^ 32 ∧
    (0 < sketchSizeSeen env m.board ∨ size ≤ updateEnd env.layout)

instance (env : Env) (size : Nat) (m : Machine) : Decidable (Measured env size m) :=
  inferInstanceAs (Decidable (_ ∧ _))

/-- The region of a sketch update ends in front of the file system. -/
theorem region_below_fileSystem {env : Env} {size : Nat} {around : Surroundings} {m m' : Machine}
    {s : Session} (begun : Begun env size uFlash around m s m') (small : size < 2 ^ 31)
    (measured : Measured env size m) : s.start + sectorEnd s.size ≤ updateEnd env.layout := by
  obtain ⟨-, -, inside⟩ := (updateRegion_inside env.layout.mapped env.layout.ordered
    (Nat.lt_of_le_of_lt env.layout.inside (by decide)) env.layout.start_aligned (by omega)
    begun.region).sketch rfl measured.1 measured.2
  have aligned := s.start_aligned
  have fileSystem := updateEnd_aligned env.layout
  have size_eq := begun.size_eq
  unfold updateEnd at fileSystem ⊢
  unfold flashSectorSize at aligned
  unfold sectorEnd
  omega

/-- **A sketch update stays in its region**, in front of the file system, where no call goes behind
the image. -/
theorem update_contained {env : Env} {size : Nat} {around : Surroundings} {m started : Machine}
    (small : size < 2 ^ 31) (began : begin env size uFlash around m = (true, started))
    (measured : Measured env size m) {requests : List Request}
    (later : ∀ request ∈ requests, request.Later)
    (stays : Runs.Admits (Request.serve env) Request.Stays requests started) :
    ∃ events, (Runs.after (Request.serve env) requests started).board.log =
        events ++ started.board.log ∧
      ∀ event ∈ events, ∀ a, event.Touches a →
        started.updater.startAddress ≤ a ∧ a < started.updater.startAddress + sectorEnd size ∧
          a < updateEnd env.layout := by
  obtain ⟨s, begun⟩ : ∃ s, Begun env size uFlash around m s started := by
    rcases begin_cases env size uFlash around m (by omega) with ⟨-, refused⟩ | ⟨-, -, outcome⟩
    · rw [refused] at began
      cases began
    rw [began] at outcome
    rcases outcome with ⟨failed, -⟩ | ⟨-, begun⟩
    · cases failed
    · exact begun
  have initial : Contained env s started := by
    refine ⟨begun.board_eq ▸ s.within_refl _, .inr ⟨_, begun.staging, .inl s.size_pos⟩⟩
  obtain ⟨events, log, inside⟩ := (after_contained initial later stays).within
  rw [begun.board_eq] at log
  refine ⟨events, log, fun event member a touches => ?_⟩
  have region := region_below_fileSystem begun small measured
  obtain ⟨low, high⟩ := inside event member a touches
  rw [begun.staging.start, ← begun.size_eq]
  exact ⟨low, high, by omega⟩

/-- The event records an erase of this sector. -/
def erasesSector (sector : Nat) : Event → Bool
  | .erase sector' _ => sector' = sector
  | _ => false

/-- Eight bytes in two calls, and `end`. -/
theorem update_contained_two :
    let env := exampleEnv fun _ => none
    let m : Machine := ⟨.construct 0 none false, exampleBoard⟩
    let started := (begin env 8 uFlash ⟨0, 0⟩ m).2
    let requests : List Request :=
      [.make (.write [0xe9, 0, 0, 0]), .make (.write [0, 0, 0, 0]), .make (.write []),
        .end_ false]
    ∃ events, (Runs.after (Request.serve env) requests started).board.log =
        events ++ started.board.log ∧
      ∀ event ∈ events, ∀ a, event.Touches a →
        started.updater.startAddress ≤ a ∧ a < started.updater.startAddress + sectorEnd 8 ∧
          a < updateEnd env.layout := by
  intro env m started requests
  have stays : Runs.Admits (Request.serve env) Request.Stays requests started := by
    refine ⟨fun _ => .inr (.inl ?_), fun _ => .inr (.inl ?_), fun _ => .inr (.inl ?_), trivial,
      trivial⟩
    · decide +kernel
    · decide +kernel
    · decide +kernel
  have later : ∀ request ∈ requests, request.Later := by decide
  have measured : Measured env 8 m := by decide +kernel
  have succeeds : (begin env 8 uFlash ⟨0, 0⟩ m).1 = true := by decide +kernel
  have began : begin env 8 uFlash ⟨0, 0⟩ m = (true, started) := Prod.ext succeeds rfl
  exact update_contained (by decide) began measured later stays

/-- A write of no bytes to a complete image erases the first sector of the file system. -/
theorem empty_write_erases_fileSystem :
    let env := exampleEnv fun _ => none
    let m : Machine := ⟨.construct 0 none false, exampleBoard⟩
    let started := (begin env 4096 uFlash ⟨0, 0⟩ m).2
    let requests : List Request :=
      [.make (.write (List.replicate 4096 0xe9)), .make (.write [])]
    (begin env 4096 uFlash ⟨0, 0⟩ m).1 = true ∧
      started.updater.startAddress + sectorEnd 4096 = updateEnd env.layout ∧
      ∃ event ∈ (Runs.after (Request.serve env) requests started).board.log,
        event.Touches (updateEnd env.layout) := by
  intro env m started requests
  have erased : (Runs.after (Request.serve env) requests started).board.log.any
      (erasesSector 0x100) = true := by
    decide +kernel
  obtain ⟨event, recorded, erases⟩ := List.any_eq_true.1 erased
  refine ⟨by decide +kernel, by decide +kernel, event, recorded, ?_⟩
  cases event with
  | erase sector ok =>
    have place : updateEnd env.layout = 0x100 * flashSectorSize := by decide +kernel
    rw [of_decide_eq_true erases, place]
    exact ⟨Nat.le_refl _, Nat.lt_add_of_pos_right (by decide)⟩
  | _ => cases erases

end Esp8266.Updater
