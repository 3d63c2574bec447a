import Esp8266.Lib.Runs
import Esp8266.Source.Wiring

/-!
# The 64-bit clock

What `micros64` returns while the counter is looked at often enough: the elapsed time, as far as
64 bits hold it, whenever the ticks were.
-/
set_option autoImplicit false

namespace Esp8266.Source.Wiring
open Esp8266.Lib.Runs

/-! ## One wrap at most -/

theorem toNat_systemGetTime (t : Nat) : (systemGetTime t).toNat = t % 2 ^ 32 :=
  UInt32.toNat_ofNat'

/-- The counter is below its value at the last tick exactly if it wrapped since. -/
theorem systemGetTime_lt {last t : Nat} (later : last ≤ t) (recent : t < last + 2 ^ 32) :
    systemGetTime t < systemGetTime last ↔ t / 2 ^ 32 = last / 2 ^ 32 + 1 := by
  rw [UInt32.lt_iff_toNat_lt, toNat_systemGetTime, toNat_systemGetTime]
  omega

theorem wraps_at_most_once {last t : Nat} (later : last ≤ t) (recent : t < last + 2 ^ 32) :
    t / 2 ^ 32 = last / 2 ^ 32 + 1 ∨ t / 2 ^ 32 = last / 2 ^ 32 := by
  omega

/-- The state behind a tick at the time `last`. -/
def tickedAt (last : Nat) : Overflow := ⟨UInt32.ofNat (last / 2 ^ 32), systemGetTime last⟩

/-- The high word at the time `t`. -/
theorem high_word {last t : Nat} (later : last ≤ t) (recent : t < last + 2 ^ 32) :
    ((tickedAt last).count + if systemGetTime t < (tickedAt last).atLastTick then 1 else 0) =
      UInt32.ofNat (t / 2 ^ 32) := by
  have wrapped := systemGetTime_lt later recent
  split
  · rename_i below
    rw [wrapped.mp below, UInt32.ofNat_add]
    rfl
  · rename_i above
    have same := (wraps_at_most_once later recent).resolve_left fun w => above (wrapped.mpr w)
    rw [same, UInt32.add_zero]
    rfl

theorem microsOverflowTick_at {last t : Nat} (later : last ≤ t) (recent : t < last + 2 ^ 32) :
    microsOverflowTick (systemGetTime t) (tickedAt last) = tickedAt t := by
  have high := high_word later recent
  have count : (if systemGetTime t < (tickedAt last).atLastTick then (tickedAt last).count + 1
      else (tickedAt last).count) = UInt32.ofNat (t / 2 ^ 32) := by
    rw [← high]
    split
    · rfl
    · rw [UInt32.add_zero]
  rw [microsOverflowTick, count]
  rfl

/-- Two words side by side. -/
theorem toNat_words (high low : UInt32) :
    (high.toUInt64 <<< 32 ||| low.toUInt64).toNat = high.toNat * 2 ^ 32 + low.toNat := by
  have high_lt := high.toNat_lt
  have low_lt := low.toNat_lt
  rw [UInt64.toNat_or, UInt64.toNat_shiftLeft, UInt32.toNat_toUInt64, UInt32.toNat_toUInt64,
    show (32 : UInt64).toNat % 64 = 32 by decide, Nat.shiftLeft_eq,
    Nat.mod_eq_of_lt (by omega), Nat.mul_comm, Nat.two_pow_add_eq_or_of_lt low_lt]

theorem micros64_at {last t : Nat} (later : last ≤ t) (recent : t < last + 2 ^ 32) :
    (micros64 (systemGetTime t) (tickedAt last)).toNat = t % 2 ^ 64 := by
  rw [micros64, high_word later recent, toNat_words, toNat_systemGetTime, UInt32.toNat_ofNat']
  omega

/-! ## Runs -/

/-- A tick of the timer or a call, with the time of it. -/
inductive Event where
  | tick (t : Nat)
  | micros64 (t : Nat)

def step : Event → Overflow → Option UInt64 × Overflow
  | .tick t, o => (none, microsOverflowTick (systemGetTime t) o)
  | .micros64 t, o => (some (micros64 (systemGetTime t) o), o)

def Event.time : Event → Nat
  | .tick t => t
  | .micros64 t => t

/-- What the elapsed time is for a call, in 64 bits. -/
def Event.elapsed : Event → Option Nat
  | .tick _ => none
  | .micros64 t => some (t % 2 ^ 64)

/-- The events come in order behind the time `now`, each less than 2^32 microseconds after the
latest tick, or after the start. -/
def Paced : Nat → Nat → List Event → Prop
  | _, _, [] => True
  | last, now, .tick t :: events => now ≤ t ∧ t < last + 2 ^ 32 ∧ Paced t t events
  | last, now, .micros64 t :: events => now ≤ t ∧ t < last + 2 ^ 32 ∧ Paced last t events

theorem run_elapsed (events : List Event) : ∀ last now, last ≤ now → Paced last now events →
    (run step events (tickedAt last)).1.map (Option.map UInt64.toNat) =
      events.map Event.elapsed := by
  induction events with
  | nil => intro last now _ _; rfl
  | cons event events ih =>
    intro last now before paced
    cases event with
    | tick t =>
      obtain ⟨inOrder, recent, rest⟩ := paced
      have next := microsOverflowTick_at (before.trans inOrder) recent
      have later := ih t t le_rfl rest
      rw [← next] at later
      exact congrArg (none :: ·) later
    | micros64 t =>
      obtain ⟨inOrder, recent, rest⟩ := paced
      have value := micros64_at (before.trans inOrder) recent
      have later := ih last t (before.trans inOrder) rest
      exact congrArg₂ (some · :: ·) value later

theorem paced_later (events : List Event) : ∀ last now, Paced last now events →
    ∀ event ∈ events, now ≤ event.time := by
  induction events with
  | nil => intro last now _ event mem; cases mem
  | cons first events ih =>
    intro last now paced event mem
    cases first with
    | tick t =>
      rcases List.mem_cons.mp mem with rfl | rest
      · exact paced.1
      · exact paced.1.trans (ih t t paced.2.2 event rest)
    | micros64 t =>
      rcases List.mem_cons.mp mem with rfl | rest
      · exact paced.1
      · exact paced.1.trans (ih last t paced.2.2 event rest)

/-- The times of the calls, in order. -/
theorem elapsed_sorted (events : List Event) : ∀ last now, Paced last now events →
    (∀ event ∈ events, event.time < 2 ^ 64) →
    ((events.map Event.elapsed).filterMap id).Pairwise (· ≤ ·) := by
  induction events with
  | nil => intro last now _ _; exact List.Pairwise.nil
  | cons event events ih =>
    intro last now paced early
    have rest := fun e mem => early e (List.mem_cons_of_mem _ mem)
    cases event with
    | tick t => exact ih t t paced.2.2 rest
    | micros64 t =>
      refine List.Pairwise.cons (fun value mem => ?_) (ih last t paced.2.2 rest)
      obtain ⟨answer, among, rfl⟩ := List.mem_filterMap.mp mem
      obtain ⟨other, mem, is⟩ := List.mem_map.mp among
      have later := paced_later events last t paced.2.2 other mem
      have bound := rest other mem
      cases other with
      | tick t' => cases is
      | micros64 t' =>
        cases is
        change t ≤ t' at later
        change t' < 2 ^ 64 at bound
        rw [Nat.mod_eq_of_lt (lt_of_le_of_lt later bound), Nat.mod_eq_of_lt bound]
        exact later

/-- While a tick comes every 2^32 microseconds, the values of `micros64` are the elapsed times in
64 bits, whenever the ticks were; as long as these do not wrap they are the times themselves and
never decrease. -/
theorem micros64_elapsed (events : List Event) (paced : Paced 0 0 events) :
    (run step events .init).1.map (Option.map UInt64.toNat) = events.map Event.elapsed ∧
    ((∀ event ∈ events, event.time < 2 ^ 64) →
      (∀ t, .micros64 t ∈ events → (Event.micros64 t).elapsed = some t) ∧
      (((run step events .init).1.map (Option.map UInt64.toNat)).filterMap id).Pairwise (· ≤ ·)) := by
  have values := run_elapsed events 0 0 le_rfl paced
  refine ⟨values, fun early => ⟨fun t mem => ?_, ?_⟩⟩
  · exact congrArg some (Nat.mod_eq_of_lt (early _ mem))
  · have sorted := elapsed_sorted events 0 0 paced early
    rw [← values] at sorted
    exact sorted

theorem micros64_elapsed_wrap :
    (run step [.tick 60000, .micros64 (2 ^ 32 + 5), .tick (2 ^ 32 + 7)] .init).1.map
      (Option.map UInt64.toNat) = [none, some (2 ^ 32 + 5), none] := by
  have values := (micros64_elapsed [.tick 60000, .micros64 (2 ^ 32 + 5), .tick (2 ^ 32 + 7)]
    ⟨by decide, by decide, by decide, by decide, by decide, by decide, trivial⟩).1
  exact values

/-- A tick every 2^31 microseconds, and then a call. -/
def halfWraps (start : Nat) : Nat → List Event
  | 0 => [.micros64 start]
  | n + 1 => .tick (start + 2 ^ 31) :: halfWraps (start + 2 ^ 31) n

theorem halfWraps_paced (n : Nat) : ∀ start, Paced start start (halfWraps start n) := by
  induction n with
  | zero => intro start; exact ⟨le_rfl, by omega, trivial⟩
  | succ n ih => intro start; exact ⟨by omega, by omega, ih (start + 2 ^ 31)⟩

theorem halfWraps_call (n : Nat) : ∀ start,
    .micros64 (start + n * 2 ^ 31) ∈ halfWraps start n := by
  induction n with
  | zero => intro start; simp [halfWraps]
  | succ n ih =>
    intro start
    have next := ih (start + 2 ^ 31)
    rw [show start + 2 ^ 31 + n * 2 ^ 31 = start + (n + 1) * 2 ^ 31 by omega] at next
    exact List.mem_cons_of_mem _ next

/-- 2^64 microseconds after the start `micros64` is 0 again. -/
theorem micros64_wraps : ¬ ∀ events, Paced 0 0 events →
    (run step events .init).1.map (Option.map UInt64.toNat) =
      events.map fun | .tick _ => none | .micros64 t => some t := by
  intro exact
  have paced := halfWraps_paced (2 ^ 33) 0
  have values := run_elapsed _ 0 0 le_rfl paced
  have wanted := values.symm.trans (exact _ paced)
  have call := List.map_inj_left.mp wanted _ (halfWraps_call (2 ^ 33) 0)
  exact absurd call (by simp [Event.elapsed])

end Esp8266.Source.Wiring
