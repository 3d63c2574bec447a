import Esp8266.Lib.Runs
import Esp8266.Guarantees.PolledTimeouts
import Esp8266.Source.Waveform

/-!
# How long a timed waveform runs

A pin runs until a look of the interrupt finds its expiry cycle less than half a round of the
counter behind. That is the time asked for, if this is less than half a round and the expiry
cycle is not 0. Longer times are taken modulo a round: the pin stops at once, early or never.
-/
set_option autoImplicit false

namespace Esp8266.Source.Waveforms.Generator
open Esp8266.Lib
open Esp8266.Source.PolledTimeout (CpuFreq counter toNat_elapsed)

/-! ## One pin of the generator -/

/-- The test of the interrupt. -/
def Expired (expiryCycle now : UInt32) : Prop :=
  expiryCycle ≠ 0 ∧ (expiryCycle - now).toInt32 < 0

instance (expiryCycle now : UInt32) : Decidable (Expired expiryCycle now) :=
  inferInstanceAs (Decidable (_ ∧ _))

theorem toInt32_neg_iff (x : UInt32) : x.toInt32 < 0 ↔ 2 ^ 31 ≤ x.toNat := by
  rw [Int32.lt_iff_toInt_lt]
  have value : x.toInt32.toInt = if 2 * x.toNat < 2 ^ 32 then (x.toNat : Int)
      else (x.toNat : Int) - 2 ^ 32 := BitVec.toInt_eq_toNat_cond _
  have zero : (0 : Int32).toInt = 0 := rfl
  have bound := x.toNat_lt
  rw [value, zero]
  split <;> omega

/-- What a look does to its pin: nothing, stop it, or keep it running. -/
theorem look_cases (now : UInt32) (i : Nat) (g : Generator) :
    (g.waveformEnabled i = false ∧ g.look now i = g) ∨
    (g.waveformEnabled i = true ∧ Expired (g.waveform i).expiryCycle now ∧
      g.look now i = { g with
        waveformEnabled := Function.update g.waveformEnabled i false
        level := Function.update g.level i false }) ∨
    (g.waveformEnabled i = true ∧ ¬ Expired (g.waveform i).expiryCycle now ∧
      ∃ waveformState level nextServiceCycle, g.look now i = { g with
        waveformState
        level
        waveform := Function.update g.waveform i { g.waveform i with nextServiceCycle } }) := by
  cases enabled : g.waveformEnabled i with
  | false =>
    refine .inl ⟨rfl, ?_⟩
    rw [look, enabled]
    rfl
  | true =>
    refine .inr ?_
    rw [look, enabled, if_neg (by decide)]
    by_cases expired : Expired (g.waveform i).expiryCycle now
    · exact .inl ⟨rfl, expired, if_pos expired⟩
    · refine .inr ⟨rfl, expired, ?_⟩
      dsimp only
      rw [if_neg (show ¬ ((g.waveform i).expiryCycle ≠ 0 ∧
        ((g.waveform i).expiryCycle - now).toInt32 < 0) from expired)]
      split
      · exact ⟨_, _, _, rfl⟩
      · refine ⟨g.waveformState, g.level, (g.waveform i).nextServiceCycle, ?_⟩
        rw [Function.update_eq_self]

variable {pin : Nat}

/-- A look at another pin leaves the pin alone. -/
theorem look_other {i : Nat} (other : pin ≠ i) (now : UInt32) (g : Generator) :
    (g.look now i).waveformEnabled pin = g.waveformEnabled pin ∧
      ((g.look now i).waveform pin).expiryCycle = (g.waveform pin).expiryCycle := by
  rcases look_cases now i g with ⟨-, same⟩ | ⟨-, -, same⟩ | ⟨-, -, _, _, _, same⟩
  · rw [same]
    exact ⟨rfl, rfl⟩
  · rw [same]
    exact ⟨Function.update_of_ne other _ _, rfl⟩
  · rw [same]
    exact ⟨rfl, congrArg Waveform.expiryCycle (Function.update_of_ne other _ _)⟩

/-- A look at the pin stops it if it has expired. -/
theorem look_own (now : UInt32) (g : Generator) :
    (g.look now pin).waveformEnabled pin =
        (g.waveformEnabled pin && !decide (Expired (g.waveform pin).expiryCycle now)) ∧
      ((g.look now pin).waveform pin).expiryCycle = (g.waveform pin).expiryCycle := by
  rcases look_cases now pin g with ⟨off, same⟩ | ⟨on, expired, same⟩ | ⟨on, lasts, _, _, _, same⟩
  · rw [same, off]
    exact ⟨rfl, rfl⟩
  · rw [same, on, decide_eq_true expired]
    exact ⟨Function.update_self .., rfl⟩
  · rw [same, on, decide_eq_false lasts]
    refine ⟨rfl, ?_⟩
    dsimp only
    rw [Function.update_self]

/-- The requests and the range of the pins. -/
def SameFrame (g g' : Generator) : Prop :=
  g'.waveformToEnable = g.waveformToEnable ∧ g'.waveformToDisable = g.waveformToDisable ∧
    g'.startPin = g.startPin ∧ g'.endPin = g.endPin

/-- Looks leave the requests alone, and enable no pin. -/
theorem look_frame (now : UInt32) (i : Nat) (g : Generator) :
    g.SameFrame (g.look now i) ∧
      ∀ p, (g.look now i).waveformEnabled p = true → g.waveformEnabled p = true := by
  refine ⟨?_, fun p enabled => ?_⟩
  · rcases look_cases now i g with ⟨-, same⟩ | ⟨-, -, same⟩ | ⟨-, -, _, _, _, same⟩ <;>
      (rw [same]; exact ⟨rfl, rfl, rfl, rfl⟩)
  · by_cases own : p = i
    · rw [own, (look_own now g).1, Bool.and_eq_true] at enabled
      rw [own]
      exact enabled.1
    · rwa [(look_other own now g).1] at enabled

/-- The pins that are enabled are in the range that the loop goes through. -/
structure Spans (g : Generator) : Prop where
  enabled : ∀ p, g.waveformEnabled p = true → g.startPin ≤ p ∧ p ≤ g.endPin ∧ p ≤ 16
  toEnable : ∀ p, g.waveformToEnable p = true → p ≤ 16

theorem Spans.frame {g g' : Generator} (spans : g.Spans) (same : g.SameFrame g')
    (fewer : ∀ p, g'.waveformEnabled p = true → g.waveformEnabled p = true) : g'.Spans := by
  obtain ⟨toEnable, -, startPin, endPin⟩ := same
  refine ⟨fun p enabled => ?_, ?_⟩
  · rw [startPin, endPin]
    exact spans.enabled p (fewer p enabled)
  · rw [toEnable]
    exact spans.toEnable

theorem SameFrame.trans {g g' g'' : Generator} (first : g.SameFrame g')
    (second : g'.SameFrame g'') : g.SameFrame g'' :=
  ⟨second.1.trans first.1, second.2.1.trans first.2.1, second.2.2.1.trans first.2.2.1,
    second.2.2.2.trans first.2.2.2⟩

/-- Looks at a list of pins, each of them at most once. -/
theorem looks_track (reads : Nat → Nat) (pins : List Nat) (once : pins.Nodup) (g : Generator) :
    (pins.foldl (fun g i => g.look (counter (reads i)) i) g).waveformEnabled pin =
        (g.waveformEnabled pin && !(decide (pin ∈ pins) &&
          decide (Expired (g.waveform pin).expiryCycle (counter (reads pin))))) ∧
      ((pins.foldl (fun g i => g.look (counter (reads i)) i) g).waveform pin).expiryCycle =
        (g.waveform pin).expiryCycle := by
  induction pins generalizing g with
  | nil => exact ⟨(Bool.and_true _).symm, rfl⟩
  | cons i rest ih =>
    obtain ⟨fresh, once'⟩ := List.nodup_cons.1 once
    rw [List.foldl_cons, (ih once' _).1, (ih once' _).2]
    by_cases own : pin = i
    · subst own
      rw [(look_own _ g).1, (look_own _ g).2, decide_eq_false fresh,
        decide_eq_true List.mem_cons_self, Bool.false_and, Bool.not_false, Bool.and_true,
        Bool.true_and]
      exact ⟨rfl, rfl⟩
    · have same : decide (pin ∈ i :: rest) = decide (pin ∈ rest) :=
        decide_eq_decide.2 (by rw [List.mem_cons, or_iff_right own])
      rw [(look_other own _ g).1, (look_other own _ g).2, same]
      exact ⟨rfl, rfl⟩

theorem looks_frame (reads : Nat → Nat) (pins : List Nat) (g : Generator) :
    g.SameFrame (pins.foldl (fun g i => g.look (counter (reads i)) i) g) ∧
      ∀ p, (pins.foldl (fun g i => g.look (counter (reads i)) i) g).waveformEnabled p = true →
        g.waveformEnabled p = true := by
  induction pins generalizing g with
  | nil => exact ⟨⟨rfl, rfl, rfl, rfl⟩, fun _ on => on⟩
  | cons i rest ih =>
    obtain ⟨first, fewer⟩ := look_frame (counter (reads i)) i g
    obtain ⟨others, fewer'⟩ := ih (g.look (counter (reads i)) i)
    exact ⟨first.trans others, fun p on => fewer p (fewer' p on)⟩

/-- One round of the loop looks at every pin that is enabled. -/
theorem pass_track (pin : Nat) {g : Generator} (spans : g.Spans) (reads : Nat → Nat) :
    (g.pass reads).waveformEnabled pin =
        (g.waveformEnabled pin &&
          !decide (Expired (g.waveform pin).expiryCycle (counter (reads pin)))) ∧
      ((g.pass reads).waveform pin).expiryCycle = (g.waveform pin).expiryCycle := by
  have once : (List.range' g.startPin (g.endPin + 1 - g.startPin)).Nodup := List.nodup_range'
  refine ⟨(looks_track reads _ once g).1.trans ?_, (looks_track reads _ once g).2⟩
  cases on : g.waveformEnabled pin with
  | false => rfl
  | true =>
    obtain ⟨above, below, -⟩ := spans.enabled pin on
    have member : pin ∈ List.range' g.startPin (g.endPin + 1 - g.startPin) :=
      List.mem_range'_1.2 ⟨above, by omega⟩
    rw [decide_eq_true member, Bool.true_and]
    exact (Bool.true_and _).symm

/-- All rounds of an interrupt. -/
theorem passes_track (pin : Nat) (passes : List (Nat → Nat)) {g : Generator} (spans : g.Spans) :
    (passes.foldl pass g).waveformEnabled pin =
        (g.waveformEnabled pin && passes.all fun reads =>
          !decide (Expired (g.waveform pin).expiryCycle (counter (reads pin)))) ∧
      ((passes.foldl pass g).waveform pin).expiryCycle = (g.waveform pin).expiryCycle ∧
      g.SameFrame (passes.foldl pass g) ∧ (passes.foldl pass g).Spans := by
  induction passes generalizing g with
  | nil => exact ⟨(Bool.and_true _).symm, rfl, ⟨rfl, rfl, rfl, rfl⟩, spans⟩
  | cons reads rest ih =>
    obtain ⟨enabled, expiry⟩ := pass_track pin spans reads
    obtain ⟨frame, fewer⟩ := looks_frame reads
      (List.range' g.startPin (g.endPin + 1 - g.startPin)) g
    have spans' : (g.pass reads).Spans := spans.frame frame fewer
    obtain ⟨enabled', expiry', frame', spans''⟩ := ih spans'
    refine ⟨?_, expiry'.trans expiry, frame.trans frame', spans''⟩
    rw [List.foldl_cons, enabled', enabled, expiry, List.all_cons, Bool.and_assoc]

/-! ## Requests -/

theorem ffs_le (bits : Nat → Bool) (n i : Nat) {p : Nat} (on : bits p = true) (above : i ≤ p)
    (below : p < i + n) : ffs bits n i ≤ p + 1 := by
  induction n generalizing i with
  | zero => omega
  | succ n ih =>
    unfold ffs
    split
    · omega
    · rename_i off
      have later : i ≠ p := fun same => off (same ▸ on)
      exact ih (i + 1) (by omega) (by omega)

theorem clz_le (bits : Nat → Bool) (n : Nat) {p : Nat} (on : bits p = true) (below : p < n) :
    clz bits n + p + 1 ≤ n := by
  induction n with
  | zero => omega
  | succ n ih =>
    unfold clz
    split
    · omega
    · rename_i off
      have earlier : n ≠ p := fun same => off (same ▸ on)
      have := ih (by omega)
      omega

/-- The requests are served: a pin runs if it ran or is to be started, and is not stopped. -/
theorem serveRequests_track {g : Generator} (spans : g.Spans) :
    g.serveRequests.Spans ∧ g.serveRequests.waveform = g.waveform ∧
      ∀ p, g.waveformToDisable p = false →
        g.serveRequests.waveformEnabled p = (g.waveformEnabled p || g.waveformToEnable p) ∧
        g.serveRequests.waveformToEnable p = false ∧
        g.serveRequests.waveformToDisable p = false := by
  unfold serveRequests
  split
  · refine ⟨⟨fun p on => ?_, fun p on => absurd on Bool.false_ne_true⟩, rfl, fun p kept => ?_⟩
    · have few : p ≤ 16 := by
        rcases Bool.or_eq_true _ _ ▸ on with ran | started
        · rw [Bool.and_eq_true] at ran
          exact (spans.enabled p ran.1).2.2
        · exact spans.toEnable p started
      have first := ffs_le (fun p => g.waveformEnabled p && !g.waveformToDisable p ||
        g.waveformToEnable p) 32 0 on (Nat.zero_le _) (by omega)
      have last := clz_le (fun p => g.waveformEnabled p && !g.waveformToDisable p ||
        g.waveformToEnable p) 32 on (by omega)
      refine ⟨?_, ?_, few⟩ <;> dsimp only <;> omega
    · dsimp only
      rw [kept, Bool.not_false, Bool.and_true]
      exact ⟨rfl, rfl, rfl⟩
  · rename_i nothing
    refine ⟨spans, rfl, fun p kept => ?_⟩
    have idle : g.waveformToEnable p = false := by
      rw [← Bool.not_eq_true]
      intro started
      have few := spans.toEnable p started
      refine nothing (Bool.or_eq_true_iff.2 (.inl (List.any_eq_true.2 ⟨p, ?_, started⟩)))
      exact List.mem_range.2 (by omega)
    rw [idle, Bool.or_false]
    exact ⟨rfl, rfl, kept⟩

/-! ## Runs -/

/-- What an interrupt does to a pin that is not to be stopped. -/
theorem timer1Interrupt_track (passes : List (Nat → Nat)) {g : Generator} (spans : g.Spans)
    (kept : g.waveformToDisable pin = false) :
    (g.timer1Interrupt passes).waveformEnabled pin =
        ((g.waveformEnabled pin || g.waveformToEnable pin) && passes.all fun reads =>
          !decide (Expired (g.waveform pin).expiryCycle (counter (reads pin)))) ∧
      ((g.timer1Interrupt passes).waveform pin).expiryCycle = (g.waveform pin).expiryCycle ∧
      (g.timer1Interrupt passes).waveformToEnable pin = false ∧
      (g.timer1Interrupt passes).waveformToDisable pin = false := by
  obtain ⟨spans', waveform, served⟩ := serveRequests_track spans
  obtain ⟨enabled, toEnable, toDisable⟩ := served pin kept
  unfold timer1Interrupt
  dsimp only
  split
  · obtain ⟨enabled', expiry, frame, -⟩ := passes_track pin passes spans'
    rw [waveform] at enabled' expiry
    exact ⟨by rw [enabled', enabled], expiry, by rw [frame.1, toEnable],
      by rw [frame.2.1, toDisable]⟩
  · rename_i nothing
    have off : g.serveRequests.waveformEnabled pin = false := by
      rw [← Bool.not_eq_true]
      intro on
      have few := (spans'.enabled pin on).2.2
      exact nothing (List.any_eq_true.2 ⟨pin, List.mem_range.2 (by omega), on⟩)
    rw [← enabled, off, waveform]
    exact ⟨rfl, rfl, toEnable, toDisable⟩

theorem timer1Interrupt_spans (passes : List (Nat → Nat)) {g : Generator} (spans : g.Spans) :
    (g.timer1Interrupt passes).Spans := by
  have spans' := (serveRequests_track spans).1
  unfold timer1Interrupt
  dsimp only
  split
  · exact (passes_track 0 passes spans').2.2.2
  · exact spans'

/-- The expiry cycle of a waveform asked for at `asked`. -/
def expiryOf (runTimeCycles : UInt32) (asked : Nat) : UInt32 :=
  let expiryCycle := if runTimeCycles ≠ 0 then counter asked + runTimeCycles else 0
  if runTimeCycles ≠ 0 ∧ expiryCycle = 0 then 1 else expiryCycle

/-- The pins that a waveform can be started on. -/
def Startable (variant : Variant) (pin : Nat) : Prop :=
  ¬ (pin > 16 ∨ variant.isFlashInterfacePin pin = true)

section Calls

variable (variant : Variant) (freq : CpuFreq) (pin : Nat)
  (timeHighCycles timeLowCycles runTimeCycles : UInt32) (asked serviced : Nat) (g : Generator)

/-- A start is refused, or asks for a pin, or changes one that runs. -/
theorem start_cases :
    (¬ Startable variant pin ∧ g.startWaveformClockCycles variant freq pin timeHighCycles
      timeLowCycles runTimeCycles asked serviced = (false, g)) ∨
    Startable variant pin ∧ ∃ wave, wave.expiryCycle = expiryOf runTimeCycles asked ∧
      ((g.waveformEnabled pin = false ∧ g.startWaveformClockCycles variant freq pin
          timeHighCycles timeLowCycles runTimeCycles asked serviced = (true, { g with
            waveform := Function.update g.waveform pin wave
            waveformToEnable := Function.update g.waveformToEnable pin true })) ∨
        g.waveformEnabled pin = true ∧ g.startWaveformClockCycles variant freq pin
          timeHighCycles timeLowCycles runTimeCycles asked serviced = (true, { g with
            waveform := Function.update g.waveform pin wave })) := by
  by_cases refused : pin > 16 ∨ variant.isFlashInterfacePin pin = true
  · exact .inl ⟨not_not.2 refused, if_pos refused⟩
  · refine .inr ⟨refused, ?_⟩
    unfold startWaveformClockCycles
    rw [if_neg refused]
    cases enabled : g.waveformEnabled pin with
    | false => exact ⟨_, rfl, .inl ⟨rfl, rfl⟩⟩
    | true => exact ⟨_, rfl, .inr ⟨rfl, rfl⟩⟩

theorem start_spans (spans : g.Spans) : (g.startWaveformClockCycles variant freq pin
    timeHighCycles timeLowCycles runTimeCycles asked serviced).2.Spans := by
  rcases start_cases variant freq pin timeHighCycles timeLowCycles runTimeCycles asked serviced g
    with ⟨-, same⟩ | ⟨valid, wave, -, ⟨-, same⟩ | ⟨-, same⟩⟩
  · rw [same]
    exact spans
  · rw [same]
    refine ⟨spans.enabled, fun p on => ?_⟩
    by_cases own : p = pin
    · rw [own]
      exact Nat.le_of_not_lt fun large => valid (.inl large)
    · exact spans.toEnable p ((Function.update_of_ne own _ _).symm.trans on)
  · rw [same]
    exact ⟨spans.enabled, spans.toEnable⟩

end Calls

/-- The pin that a call is for. -/
def Event.calledPin : Event → Option Nat
  | .startWaveform pin .. | .startWaveformClockCycles pin .. | .stopWaveform pin => some pin
  | .timer1Interrupt _ => none

/-- When the interrupts look at a pin. -/
def looks (pin : Nat) (events : List Event) : List Nat :=
  events.flatMap fun
    | .timer1Interrupt passes => passes.map (· pin)
    | _ => []

/-- A pin that is not to be stopped, with its expiry cycle; `alive` tells whether it runs, or is to
be started. -/
structure Tracks (pin : Nat) (expiryCycle : UInt32) (alive : Bool) (g : Generator) : Prop where
  spans : g.Spans
  expiry : (g.waveform pin).expiryCycle = expiryCycle
  kept : g.waveformToDisable pin = false
  alive : (g.waveformEnabled pin || g.waveformToEnable pin) = alive

section Steps

variable (variant : Variant) (freq : CpuFreq) {pin : Nat} {expiryCycle : UInt32} {alive : Bool}
  {g : Generator}

/-- A start of another pin. -/
theorem start_other {q : Nat} (other : pin ≠ q) (tracks : g.Tracks pin expiryCycle alive)
    (timeHighCycles timeLowCycles runTimeCycles : UInt32) (asked serviced : Nat) :
    (g.startWaveformClockCycles variant freq q timeHighCycles timeLowCycles runTimeCycles asked
        serviced).2.Tracks pin expiryCycle alive ∧
      (g.startWaveformClockCycles variant freq q timeHighCycles timeLowCycles runTimeCycles asked
        serviced).2.waveformToEnable pin = g.waveformToEnable pin := by
  have spans := start_spans variant freq q timeHighCycles timeLowCycles runTimeCycles asked
    serviced g tracks.spans
  rcases start_cases variant freq q timeHighCycles timeLowCycles runTimeCycles asked serviced g
    with ⟨-, same⟩ | ⟨valid, wave, -, ⟨-, same⟩ | ⟨-, same⟩⟩
  · rw [same]
    exact ⟨tracks, rfl⟩
  · rw [same] at spans ⊢
    have toEnable : Function.update g.waveformToEnable q true pin = g.waveformToEnable pin :=
      Function.update_of_ne other _ _
    refine ⟨⟨spans, ?_, tracks.kept, ?_⟩, toEnable⟩
    · exact (congrArg Waveform.expiryCycle (Function.update_of_ne other _ _)).trans tracks.expiry
    · exact (congrArg (g.waveformEnabled pin || ·) toEnable).trans tracks.alive
  · rw [same] at spans ⊢
    refine ⟨⟨spans, ?_, tracks.kept, tracks.alive⟩, rfl⟩
    exact (congrArg Waveform.expiryCycle (Function.update_of_ne other _ _)).trans tracks.expiry

/-- An event without a look at the pin, and one after which no start of it waits. -/
theorem unlooked_tracks {g' : Generator} {event : Event} (unlooked : looks pin [event] = [])
    (tracks : g'.Tracks pin expiryCycle alive)
    (same : g'.waveformToEnable pin = g.waveformToEnable pin) :
    g'.Tracks pin expiryCycle
        (alive && (looks pin [event]).all fun t => !decide (Expired expiryCycle (counter t))) ∧
      ((looks pin [event] ≠ [] ∨ g.waveformToEnable pin = false) →
        g'.waveformToEnable pin = false) := by
  rw [unlooked]
  refine ⟨(Bool.and_true alive).symm ▸ tracks, ?_⟩
  rintro (looked | idle)
  · exact absurd rfl looked
  · exact same.trans idle

/-- One event that is not a call for the pin. -/
theorem step_tracks (event : Event) (other : event.calledPin ≠ some pin)
    (tracks : g.Tracks pin expiryCycle alive) :
    (step variant freq event g).2.Tracks pin expiryCycle
        (alive && (looks pin [event]).all fun t => !decide (Expired expiryCycle (counter t))) ∧
      ((looks pin [event] ≠ [] ∨ g.waveformToEnable pin = false) →
        (step variant freq event g).2.waveformToEnable pin = false) := by
  have pins : ∀ q, event.calledPin = some q → pin ≠ q := fun q same differs =>
    other (same.trans (congrArg some differs.symm))
  cases event with
  | startWaveform q high low run asked serviced =>
    obtain ⟨tracks', same⟩ := start_other variant freq (pins q rfl) tracks
      (microsecondsToClockCycles freq high) (microsecondsToClockCycles freq low)
      (microsecondsToClockCycles freq run) asked serviced
    exact unlooked_tracks rfl tracks' same
  | startWaveformClockCycles q high low run asked serviced =>
    obtain ⟨tracks', same⟩ := start_other variant freq (pins q rfl) tracks high low run asked
      serviced
    exact unlooked_tracks rfl tracks' same
  | stopWaveform q =>
    have result : (g.stopWaveform q).2.Tracks pin expiryCycle alive ∧
        (g.stopWaveform q).2.waveformToEnable = g.waveformToEnable := by
      unfold stopWaveform
      split
      · refine ⟨⟨⟨tracks.spans.enabled, tracks.spans.toEnable⟩, tracks.expiry, ?_, tracks.alive⟩,
          rfl⟩
        exact Function.update_of_ne (pins q rfl) true fun _ => false
      · exact ⟨tracks, rfl⟩
    exact unlooked_tracks rfl result.1 (congrFun result.2 pin)
  | timer1Interrupt passes =>
    obtain ⟨enabled, expiry, toEnable, toDisable⟩ :=
      timer1Interrupt_track passes tracks.spans tracks.kept
    have spans := timer1Interrupt_spans passes tracks.spans
    refine ⟨⟨spans, expiry.trans tracks.expiry, toDisable, ?_⟩, fun _ => toEnable⟩
    have looked : looks pin [.timer1Interrupt passes] = passes.map (· pin) := List.append_nil _
    show ((g.timer1Interrupt passes).waveformEnabled pin ||
      (g.timer1Interrupt passes).waveformToEnable pin) = _
    rw [enabled, toEnable, Bool.or_false, tracks.alive, tracks.expiry, looked, List.all_map]
    rfl

end Steps

theorem looks_cons (pin : Nat) (event : Event) (later : List Event) :
    looks pin (event :: later) = looks pin [event] ++ looks pin later := by
  simp only [looks, List.flatMap_cons, List.flatMap_nil, List.append_nil]

/-- Events that are not calls for the pin: it runs on until a look finds that it has expired. -/
theorem run_tracks (variant : Variant) (freq : CpuFreq) {pin : Nat} {expiryCycle : UInt32}
    (later : List Event) (others : ∀ event ∈ later, event.calledPin ≠ some pin) {alive : Bool}
    {g : Generator} (tracks : g.Tracks pin expiryCycle alive) :
    (Runs.after (step variant freq) later g).Tracks pin expiryCycle
        (alive && (looks pin later).all fun t => !decide (Expired expiryCycle (counter t))) ∧
      ((looks pin later ≠ [] ∨ g.waveformToEnable pin = false) →
        (Runs.after (step variant freq) later g).waveformToEnable pin = false) := by
  induction later generalizing g alive with
  | nil =>
    refine ⟨(Bool.and_true alive).symm ▸ tracks, ?_⟩
    rintro (looked | idle)
    · exact absurd rfl looked
    · exact idle
  | cons event later ih =>
    obtain ⟨first, served⟩ := step_tracks variant freq event
      (others event List.mem_cons_self) tracks
    obtain ⟨rest, served'⟩ := ih (fun e member => others e (List.mem_cons_of_mem _ member)) first
    rw [Runs.after_cons, looks_cons, List.all_append, ← Bool.and_assoc]
    refine ⟨rest, fun looked => served' ?_⟩
    by_cases quiet : looks pin later = []
    · refine .inr (served ?_)
      rw [quiet, List.append_nil] at looked
      exact looked
    · exact .inl quiet

theorem step_spans (variant : Variant) (freq : CpuFreq) (event : Event) (g : Generator)
    (spans : g.Spans) : (step variant freq event g).2.Spans := by
  cases event with
  | startWaveform q high low run asked serviced => exact start_spans _ _ _ _ _ _ _ _ g spans
  | startWaveformClockCycles q high low run asked serviced =>
    exact start_spans _ _ _ _ _ _ _ _ g spans
  | stopWaveform q =>
    show (g.stopWaveform q).2.Spans
    unfold stopWaveform
    split
    · exact ⟨spans.enabled, spans.toEnable⟩
    · exact spans
  | timer1Interrupt passes => exact timer1Interrupt_spans passes spans

theorem run_spans (variant : Variant) (freq : CpuFreq) (events : List Event) :
    (Runs.after (step variant freq) events init).Spans :=
  Runs.after_preserves (step_spans variant freq) events init
    ⟨fun _ on => absurd on Bool.false_ne_true, fun _ on => absurd on Bool.false_ne_true⟩

/-- A waveform that has been started, and every look at its pin since. -/
theorem started_enabled (variant : Variant) (freq : CpuFreq) {pin : Nat}
    (startable : Startable variant pin) (timeHighUS timeLowUS runTimeUS : UInt32)
    (asked serviced : Nat) {g : Generator} (spans : g.Spans)
    (kept : g.waveformToDisable pin = false) (later : List Event)
    (others : ∀ event ∈ later, event.calledPin ≠ some pin) (looked : looks pin later ≠ []) :
    (Runs.after (step variant freq) later (g.startWaveform variant freq pin timeHighUS timeLowUS
        runTimeUS asked serviced).2).waveformEnabled pin =
      (looks pin later).all fun t => !decide (Expired
        (expiryOf (microsecondsToClockCycles freq runTimeUS) asked) (counter t)) := by
  have tracks : (g.startWaveform variant freq pin timeHighUS timeLowUS runTimeUS asked
      serviced).2.Tracks pin (expiryOf (microsecondsToClockCycles freq runTimeUS) asked) true := by
    have spans' := start_spans variant freq pin (microsecondsToClockCycles freq timeHighUS)
      (microsecondsToClockCycles freq timeLowUS) (microsecondsToClockCycles freq runTimeUS) asked
      serviced g spans
    unfold startWaveform
    rcases start_cases variant freq pin (microsecondsToClockCycles freq timeHighUS)
      (microsecondsToClockCycles freq timeLowUS) (microsecondsToClockCycles freq runTimeUS) asked
      serviced g with ⟨refused, -⟩ | ⟨-, wave, expiry, ⟨off, same⟩ | ⟨on, same⟩⟩
    · exact absurd startable refused
    · rw [same] at spans' ⊢
      refine ⟨spans', ?_, kept, ?_⟩
      · exact (congrArg Waveform.expiryCycle (Function.update_self ..)).trans expiry
      · exact (congrArg (g.waveformEnabled pin || ·) (Function.update_self ..)).trans
          (Bool.or_true _)
    · rw [same] at spans' ⊢
      refine ⟨spans', ?_, kept, ?_⟩
      · exact (congrArg Waveform.expiryCycle (Function.update_self ..)).trans expiry
      · exact (congrArg (· || g.waveformToEnable pin) on).trans (Bool.true_or _)
  obtain ⟨tracks', served⟩ := run_tracks variant freq later others tracks
  rw [← Bool.true_and (List.all _ _), ← tracks'.alive, served (.inl looked), Bool.or_false]

/-! ## Time -/

/-- How far behind `asked` the expiry cycle is. An expiry cycle of 0 is put off by one cycle. -/
def lag (runTimeCycles : UInt32) (asked : Nat) : Nat :=
  runTimeCycles.toNat + if (asked + runTimeCycles.toNat) % 2 ^ 32 = 0 then 1 else 0

theorem expiryOf_zero (asked : Nat) : expiryOf 0 asked = 0 := rfl

/-- The expiry cycle is where the counter is after `lag` cycles. -/
theorem toNat_expiryOf {runTimeCycles : UInt32} (timed : runTimeCycles ≠ 0) (asked : Nat) :
    expiryOf runTimeCycles asked ≠ 0 ∧
      (expiryOf runTimeCycles asked).toNat = (asked + lag runTimeCycles asked) % 2 ^ 32 := by
  have sum : (counter asked + runTimeCycles).toNat = (asked + runTimeCycles.toNat) % 2 ^ 32 := by
    rw [UInt32.toNat_add, counter, UInt32.toNat_ofNat', Nat.mod_add_mod]
  have zero : counter asked + runTimeCycles = 0 ↔ (asked + runTimeCycles.toNat) % 2 ^ 32 = 0 := by
    rw [← UInt32.toNat_inj, sum]
    rfl
  unfold expiryOf lag
  dsimp only
  rw [if_pos timed]
  by_cases wraps : (asked + runTimeCycles.toNat) % 2 ^ 32 = 0
  · rw [if_pos ⟨timed, zero.2 wraps⟩, if_pos wraps]
    refine ⟨by decide, ?_⟩
    show 1 = _
    omega
  · rw [if_neg fun both => wraps (zero.1 both.2), if_neg wraps]
    exact ⟨fun same => wraps (zero.1 same), sum⟩

theorem expired_iff (runTimeCycles : UInt32) {asked t : Nat} (later : asked ≤ t) :
    Expired (expiryOf runTimeCycles asked) (counter t) ↔ runTimeCycles ≠ 0 ∧
      2 ^ 31 ≤ (lag runTimeCycles asked + (2 ^ 32 - (t - asked) % 2 ^ 32)) % 2 ^ 32 := by
  by_cases timed : runTimeCycles = 0
  · rw [timed, expiryOf_zero]
    exact iff_of_false (fun expired => expired.1 rfl) fun expired => expired.1 rfl
  obtain ⟨nonzero, value⟩ := toNat_expiryOf timed asked
  have difference : (expiryOf runTimeCycles asked - counter t).toNat =
      (lag runTimeCycles asked + (2 ^ 32 - (t - asked) % 2 ^ 32)) % 2 ^ 32 := by
    rw [UInt32.toNat_sub, value, counter, UInt32.toNat_ofNat']
    omega
  rw [Expired, toInt32_neg_iff, difference, and_iff_right nonzero, and_iff_right timed]

theorem toNat_runTime (freq : CpuFreq) (runTimeUS : UInt32) :
    (microsecondsToClockCycles freq runTimeUS).toNat =
      runTimeUS.toNat * freq.mhz.toNat % 2 ^ 32 := UInt32.toNat_mul ..

/-- The events after a start: calls for other pins, and interrupts that look at the pin, less than
half a round of the counter apart. -/
structure Timely (pin asked : Nat) (later : List Event) : Prop where
  others : ∀ event ∈ later, event.calledPin ≠ some pin
  rounds : ∀ passes, .timer1Interrupt passes ∈ later → passes ≠ []
  gaps : (asked :: looks pin later).IsChain fun a b => a ≤ b ∧ b < a + 2 ^ 31

/-- Where a run time is less than half a round, the looks that find it over are the later ones. -/
theorem lasting_iff {run : UInt32} {asked : Nat} (half : run.toNat < 2 ^ 31)
    (timed : run ≠ 0) (exact' : (asked + run.toNat) % 2 ^ 32 ≠ 0) (looks : List Nat) :
    ∀ last, asked ≤ last → last ≤ asked + run.toNat →
      (last :: looks).IsChain (fun a b => a ≤ b ∧ b < a + 2 ^ 31) →
      ((looks.all fun t => !decide (Expired (expiryOf run asked) (counter t))) = true ↔
        ∀ t ∈ looks, t ≤ asked + run.toNat) := by
  have ahead : lag run asked = run.toNat := by
    rw [lag, if_neg exact', Nat.add_zero]
  induction looks with
  | nil => exact fun _ _ _ _ => iff_of_true rfl fun _ member => absurd member List.not_mem_nil
  | cons t rest ih =>
    intro last above below chain
    obtain ⟨⟨order, gap⟩, chain'⟩ := List.isChain_cons_cons.1 chain
    have expired := expired_iff run (show asked ≤ t by omega)
    rw [ahead] at expired
    rw [List.all_cons, Bool.and_eq_true, Bool.not_eq_true', decide_eq_false_iff_not, expired,
      List.forall_mem_cons]
    by_cases before : t ≤ asked + run.toNat
    · have lasts : ¬ (run ≠ 0 ∧ 2 ^ 31 ≤
          (run.toNat + (2 ^ 32 - (t - asked) % 2 ^ 32)) % 2 ^ 32) := by
        omega
      rw [ih t (by omega) before chain']
      exact and_congr_left fun _ => iff_of_true lasts before
    · have late : run ≠ 0 ∧ 2 ^ 31 ≤
          (run.toNat + (2 ^ 32 - (t - asked) % 2 ^ 32)) % 2 ^ 32 := ⟨timed, by omega⟩
      exact iff_of_false (fun both => both.1 late) fun both => before both.1

/-- No request waits to be served, as before every call of `startWaveform`. -/
def Served (g : Generator) : Prop :=
  ∀ p, g.waveformToEnable p = false ∧ g.waveformToDisable p = false

/-- A waveform that is started runs at every interrupt before its time is over, and is off from the
first one on that comes later; without a time it runs on. -/
def RunsAsAsked (variant : Variant) (freq : CpuFreq) (pin : Nat) (runTimeUS : UInt32)
    (asked : Nat) : Prop :=
  ∀ before timeHighUS timeLowUS serviced later g g',
    Runs.after (step variant freq) before init = g → g.Served → Timely pin asked later →
    looks pin later ≠ [] →
    Runs.after (step variant freq) later (g.startWaveform variant freq pin timeHighUS timeLowUS
      runTimeUS asked serviced).2 = g' →
    (runTimeUS = 0 → g'.waveformEnabled pin = true) ∧
    (runTimeUS ≠ 0 →
      ((∀ t ∈ looks pin later, t < asked + runTimeUS.toNat * freq.mhz.toNat) →
        g'.waveformEnabled pin = true) ∧
      ((∃ t ∈ looks pin later, asked + runTimeUS.toNat * freq.mhz.toNat < t) →
        g'.waveformEnabled pin = false))

/-- An interrupt in every cycle. -/
def ticking (asked n : Nat) : List Event :=
  (List.range n).map fun k => .timer1Interrupt [fun _ => asked + (k + 1)]

theorem looks_ticking (pin asked n : Nat) :
    looks pin (ticking asked n) = (List.range n).map fun k => asked + (k + 1) := by
  unfold looks ticking
  rw [List.flatMap_map]
  exact List.flatMap_pure_eq_map _ _

theorem ticking_timely (pin asked n : Nat) : Timely pin asked (ticking asked n) := by
  refine ⟨fun event member => ?_, fun passes member => ?_, ?_⟩
  · obtain ⟨k, -, rfl⟩ := List.mem_map.1 member
    exact fun called => absurd called.symm (Option.some_ne_none _)
  · obtain ⟨k, -, same⟩ := List.mem_map.1 member
    injection same with same
    rw [← same]
    exact List.cons_ne_nil _ _
  · have joined : asked :: looks pin (ticking asked n) =
        (List.range (n + 1)).map fun k => asked + k := by
      rw [looks_ticking, List.range_succ_eq_map, List.map_cons, List.map_map]
      rfl
    rw [joined, List.isChain_iff_getElem]
    intro i inside
    rw [List.getElem_map, List.getElem_map, List.getElem_range, List.getElem_range]
    omega

/-- The looks of a run with an interrupt in every cycle. -/
theorem mem_ticking {pin asked n t : Nat} :
    t ∈ looks pin (ticking asked n) ↔ asked < t ∧ t ≤ asked + n := by
  rw [looks_ticking, List.mem_map]
  constructor
  · rintro ⟨k, member, rfl⟩
    have := List.mem_range.1 member
    omega
  · rintro ⟨above, below⟩
    exact ⟨t - asked - 1, List.mem_range.2 (by omega), by omega⟩

/-- A run with an interrupt in every cycle, from a generator that was not used before. -/
theorem ticking_enabled (variant : Variant) (freq : CpuFreq) {pin : Nat}
    (startable : Startable variant pin) (runTimeUS : UInt32) (asked : Nat) {n : Nat}
    (some_ticks : 0 < n) :
    (Runs.after (step variant freq) (ticking asked n) (init.startWaveform variant freq pin 0 0
        runTimeUS asked 0).2).waveformEnabled pin = true ↔
      ∀ t, asked < t → t ≤ asked + n →
        ¬ Expired (expiryOf (microsecondsToClockCycles freq runTimeUS) asked) (counter t) := by
  have looked : looks pin (ticking asked n) ≠ [] :=
    List.ne_nil_of_mem (mem_ticking.2 ⟨Nat.lt_succ_self asked, by omega⟩)
  have spans : init.Spans := run_spans variant freq []
  rw [started_enabled variant freq startable 0 0 runTimeUS asked 0 spans rfl (ticking asked n)
    (ticking_timely pin asked n).others looked, List.all_eq_true]
  constructor
  · intro all t above below
    have lasts := all t (mem_ticking.2 ⟨above, below⟩)
    rwa [Bool.not_eq_true', decide_eq_false_iff_not] at lasts
  · intro all t member
    rw [Bool.not_eq_true', decide_eq_false_iff_not]
    exact all t (mem_ticking.1 member).1 (mem_ticking.1 member).2

section Main

variable (variant : Variant) (freq : CpuFreq) {pin : Nat} (startable : Startable variant pin)
  {runTimeUS : UInt32} {asked : Nat}
include startable

/-- Where the time is kept, no look within it finds that it is over, and one after it does. -/
theorem ticks_of_kept (kept : RunsAsAsked variant freq pin runTimeUS asked) (timed : runTimeUS ≠ 0)
    {n : Nat} (some_ticks : 0 < n) :
    (n < runTimeUS.toNat * freq.mhz.toNat → ∀ t, asked < t → t ≤ asked + n →
      ¬ Expired (expiryOf (microsecondsToClockCycles freq runTimeUS) asked) (counter t)) ∧
    (runTimeUS.toNat * freq.mhz.toNat < n → ∃ t, asked < t ∧ t ≤ asked + n ∧
      Expired (expiryOf (microsecondsToClockCycles freq runTimeUS) asked) (counter t)) := by
  have enabled := ticking_enabled variant freq startable runTimeUS asked some_ticks
  have looked : looks pin (ticking asked n) ≠ [] :=
    List.ne_nil_of_mem (mem_ticking.2 ⟨Nat.lt_succ_self asked, by omega⟩)
  obtain ⟨runs, stops⟩ := (kept [] 0 0 0 (ticking asked n) init _ rfl (fun _ => ⟨rfl, rfl⟩)
    (ticking_timely pin asked n) looked rfl).2 timed
  refine ⟨fun early => enabled.1 (runs fun t member => ?_), fun late => ?_⟩
  · have := mem_ticking.1 member
    omega
  · by_contra none_expired
    have lasts := enabled.2 fun t above below expired =>
      none_expired ⟨t, above, below, expired⟩
    have off := stops ⟨asked + n, mem_ticking.2 ⟨by omega, by omega⟩, by omega⟩
    rw [off] at lasts
    exact absurd lasts Bool.false_ne_true

/-- A time that is kept is less than half a round, and is not over at a counter of 0. -/
theorem fits_of_kept (kept : RunsAsAsked variant freq pin runTimeUS asked)
    (timed : runTimeUS ≠ 0) :
    runTimeUS.toNat * freq.mhz.toNat < 2 ^ 31 ∧
      (asked + runTimeUS.toNat * freq.mhz.toNat) % 2 ^ 32 ≠ 0 := by
  by_contra wrong
  have cycles := toNat_runTime freq runTimeUS
  have ticked := fun n => ticks_of_kept variant freq startable kept timed (n := n)
  generalize microsecondsToClockCycles freq runTimeUS = run at cycles ticked
  generalize length : runTimeUS.toNat * freq.mhz.toNat = C at *
  by_cases endless : run = 0
  · -- The product wraps to 0, which means that there is no time.
    obtain ⟨t, above, -, expired⟩ := (ticked (C + 1) (by omega)).2 (by omega)
    exact ((expired_iff run (Nat.le_of_lt above)).1 expired).1 endless
  by_cases half : C < 2 ^ 31
  · -- The expiry cycle 0 is put off by one cycle.
    have put_off : lag run asked = C + 1 := by
      unfold lag
      split <;> omega
    obtain ⟨t, above, below, expired⟩ := (ticked (C + 1) (by omega)).2 (by omega)
    have behind := ((expired_iff run (Nat.le_of_lt above)).1 expired).2
    rw [put_off] at behind
    omega
  · -- The time seems to be over before it is.
    have divided : C % 5 = 0 := by
      cases freq <;> (rw [← length]; simp [CpuFreq.mhz]; omega)
    have slip : lag run asked = run.toNat ∨ lag run asked = run.toNat + 1 := by
      unfold lag
      split <;> omega
    have most : lag run asked ≤ 2 ^ 32 := by omega
    obtain ⟨d, positive, early, late⟩ : ∃ d, 0 < d ∧ d < C ∧
        2 ^ 31 ≤ (lag run asked + (2 ^ 32 - d % 2 ^ 32)) % 2 ^ 32 := by
      by_cases far : lag run asked > 2 ^ 31
      · refine ⟨1, by omega, by omega, ?_⟩
        clear slip cycles
        omega
      · exact ⟨lag run asked + 1, by omega, by omega, by omega⟩
    refine (ticked d positive).1 early (asked + d) (by omega) (by omega)
      ((expired_iff run (Nat.le_add_right _ _)).2 ⟨endless, ?_⟩)
    rwa [Nat.add_sub_cancel_left]

omit startable in
/-- The looks that find a time over are those after it, if it is less than half a round. -/
theorem lasts_iff (timed : runTimeUS ≠ 0) (half : runTimeUS.toNat * freq.mhz.toNat < 2 ^ 31)
    (no_slip : (asked + runTimeUS.toNat * freq.mhz.toNat) % 2 ^ 32 ≠ 0) {later : List Event}
    (timely : Timely pin asked later) :
    ((looks pin later).all fun t => !decide (Expired
        (expiryOf (microsecondsToClockCycles freq runTimeUS) asked) (counter t))) = true ↔
      ∀ t ∈ looks pin later, t ≤ asked + runTimeUS.toNat * freq.mhz.toNat := by
  have whole : (microsecondsToClockCycles freq runTimeUS).toNat =
      runTimeUS.toNat * freq.mhz.toNat := by
    rw [toNat_runTime]
    exact Nat.mod_eq_of_lt (by omega)
  rw [← whole] at half no_slip ⊢
  have positive : microsecondsToClockCycles freq runTimeUS ≠ 0 := by
    intro zero
    rw [zero] at whole
    have some_time : 0 < runTimeUS.toNat :=
      Nat.pos_of_ne_zero fun none => timed (UInt32.toNat_inj.1 none)
    have rate : 0 < freq.mhz.toNat := by cases freq <;> decide
    exact absurd whole (Nat.ne_of_lt (Nat.mul_pos some_time rate))
  exact lasting_iff half positive no_slip (looks pin later) asked (Nat.le_refl _)
    (Nat.le_add_right _ _) timely.gaps

end Main

/-- The time is kept exactly where it is less than half a round of the cycle counter, and the
counter is not 0 when it is over. -/
theorem runsAsAsked_iff (variant : Variant) (freq : CpuFreq) (pin : Nat)
    (startable : Startable variant pin) (runTimeUS : UInt32) (asked : Nat) :
    RunsAsAsked variant freq pin runTimeUS asked ↔
      runTimeUS = 0 ∨ runTimeUS.toNat * freq.mhz.toNat < 2 ^ 31 ∧
        (asked + runTimeUS.toNat * freq.mhz.toNat) % 2 ^ 32 ≠ 0 := by
  refine ⟨fun kept => or_iff_not_imp_left.2 (fits_of_kept variant freq startable kept), ?_⟩
  intro fits before timeHighUS timeLowUS serviced later g g' reached served timely looked result
  have enabled := started_enabled variant freq startable timeHighUS timeLowUS runTimeUS asked
    serviced (reached ▸ run_spans variant freq before) (served pin).2 later timely.others looked
  rw [result] at enabled
  rw [enabled]
  refine ⟨fun untimed => ?_, fun timed => ?_⟩
  · rw [untimed, List.all_eq_true]
    intro t _
    have zero : microsecondsToClockCycles freq 0 = 0 := by cases freq <;> rfl
    rw [zero, expiryOf_zero]
    rfl
  · obtain ⟨half, no_slip⟩ := fits.resolve_left timed
    have lasts := lasts_iff freq timed half no_slip timely
    constructor
    · intro early
      exact lasts.2 fun t member => Nat.le_of_lt (early t member)
    · rintro ⟨t, member, late⟩
      rw [← Bool.not_eq_true, lasts]
      intro all
      have := all t member
      omega

/-- A second on pin 5, asked for when the counter shows 1000. -/
theorem runsAsAsked_second :
    RunsAsAsked .generic .mhz80 5 1000000 1000 ↔
      (1000000 : UInt32) = 0 ∨ (1000000 : UInt32).toNat * CpuFreq.mhz80.mhz.toNat < 2 ^ 31 ∧
        (1000 + (1000000 : UInt32).toNat * CpuFreq.mhz80.mhz.toNat) % 2 ^ 32 ≠ 0 :=
  runsAsAsked_iff .generic .mhz80 5 (by unfold Startable; decide) 1000000 1000

/-- Half a minute is over at the first interrupt, ten microseconds after the start. -/
theorem half_minute_stops_at_once :
    ¬ RunsAsAsked .generic .mhz80 5 30000000 0 ∧
      (Runs.after (step .generic .mhz80) [.timer1Interrupt [fun _ => 800]]
        (init.startWaveform .generic .mhz80 5 500 500 30000000 0 100).2).waveformEnabled 5 =
          false := by
  have timely : Timely 5 0 [.timer1Interrupt [fun _ => 800]] := by
    refine ⟨fun event member => ?_, fun passes member => ?_, ?_⟩
    · rw [List.mem_singleton.1 member]
      exact fun called => absurd called.symm (Option.some_ne_none _)
    · injection List.mem_singleton.1 member with same
      rw [same]
      exact List.cons_ne_nil _ _
    · exact List.isChain_cons_cons.2 ⟨⟨Nat.zero_le _, by decide⟩, .singleton _⟩
  have off : (Runs.after (step .generic .mhz80) [.timer1Interrupt [fun _ => 800]]
      (init.startWaveform .generic .mhz80 5 500 500 30000000 0 100).2).waveformEnabled 5 =
        false := by
    have spans : init.Spans := run_spans .generic .mhz80 []
    rw [started_enabled .generic .mhz80 (by unfold Startable; decide) 500 500 30000000 0 100
      spans rfl _ timely.others (List.cons_ne_nil _ _)]
    decide
  refine ⟨fun kept => ?_, off⟩
  have on := ((kept [] 500 500 100 _ init _ rfl (fun _ => ⟨rfl, rfl⟩) timely
    (List.cons_ne_nil _ _) rfl).2 (by decide)).1 fun t member => by
      rw [List.mem_singleton.1 member]
      decide
  rw [off] at on
  exact Bool.false_ne_true on

end Esp8266.Source.Waveforms.Generator
