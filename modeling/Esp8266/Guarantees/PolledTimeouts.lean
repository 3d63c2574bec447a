import Mathlib.Data.UInt
import Mathlib.Order.Monotone.Defs
import Esp8266.Source.PolledTimeout

/-!
# When polled timeouts expire

A one-shot timeout expires when its ticks are over, wherever the counter wraps. A request that is
too large never does, unless its conversion wraps to 0: then it has always expired. A periodic
timeout keeps its phase as long as it is polled before the counter has gone round since the last
period.
-/
set_option autoImplicit false

namespace Esp8266.Source.PolledTimeout

/-! ## Counters and conversions -/

/-- The ticks between two looks at a counter. -/
theorem toNat_elapsed (start ticks : Nat) :
    (counter (start + ticks) - counter start).toNat = ticks % 2 ^ 32 := by
  rw [UInt32.toNat_sub, counter, counter, UInt32.toNat_ofNat', UInt32.toNat_ofNat']
  omega

namespace TimePolicy

variable (policy : TimePolicy)

theorem divider_pos : 0 < policy.user2UnitDivider.toNat := by
  rcases policy with _ | ⟨⟨⟩⟩ | ⟨⟨⟩⟩ | ⟨⟨⟩⟩ <;> decide

theorem timeMax_fits : policy.timeMax.toNat * policy.user2UnitMultiplier.toNat < 2 ^ 32 := by
  rcases policy with _ | ⟨⟨⟩⟩ | ⟨⟨⟩⟩ | ⟨⟨⟩⟩ <;> decide

variable {policy}

/-- What may be requested is converted without overflow. -/
theorem product_fits {request : UInt32} (most : request ≤ policy.timeMax) :
    request.toNat * policy.user2UnitMultiplier.toNat < 2 ^ 32 :=
  Nat.lt_of_le_of_lt (Nat.mul_le_mul_right _ (UInt32.le_iff_toNat_le.1 most)) policy.timeMax_fits

theorem toNat_toTimeTypeUnit (request : UInt32) :
    (policy.toTimeTypeUnit request).toNat =
      request.toNat * policy.user2UnitMultiplier.toNat % 2 ^ 32 / policy.user2UnitDivider.toNat := by
  rw [toTimeTypeUnit, UInt32.toNat_div, UInt32.toNat_mul]

/-- The ticks of a request, if nothing overflows. -/
def ticks (policy : TimePolicy) (request : UInt32) : Nat :=
  request.toNat * policy.user2UnitMultiplier.toNat / policy.user2UnitDivider.toNat

theorem toNat_ticks {request : UInt32} (most : request ≤ policy.timeMax) :
    (policy.toTimeTypeUnit request).toNat = policy.ticks request := by
  rw [toNat_toTimeTypeUnit, Nat.mod_eq_of_lt (product_fits most), ticks]

theorem toTimeTypeUnit_eq_zero (request : UInt32) :
    policy.toTimeTypeUnit request = 0 ↔
      request.toNat * policy.user2UnitMultiplier.toNat % 2 ^ 32 <
        policy.user2UnitDivider.toNat := by
  rw [← UInt32.toNat_inj, toNat_toTimeTypeUnit, UInt32.toNat_zero,
    Nat.div_eq_zero_iff_lt policy.divider_pos]

end TimePolicy

open TimePolicy

/-! ## One-shot timeouts -/

namespace Timeout

variable {policy : TimePolicy} {request : UInt32}

/-- A request within the range expires when its ticks are over. -/
theorem expiredOneShot_iff (most : request ≤ policy.timeMax) (start : Nat) {elapsed : Nat}
    (recent : elapsed < 2 ^ 32) :
    (new policy request (counter start)).expiredOneShot (counter (start + elapsed)) = true ↔
      policy.ticks request ≤ elapsed := by
  have reached : policy.toTimeTypeUnit request ≤ counter (start + elapsed) - counter start ↔
      policy.ticks request ≤ elapsed := by
    rw [UInt32.le_iff_toNat_le, toNat_elapsed, Nat.mod_eq_of_lt recent, toNat_ticks most]
  rw [expiredOneShot, checkExpired, canWait, new, reset, restart]
  simp only [decide_eq_false (UInt32.not_lt.2 most), Bool.not_false, Bool.true_and, reached,
    Bool.or_eq_true, Bool.not_eq_true', decide_eq_false_iff_not, not_not, decide_eq_true_eq]
  refine or_iff_right_of_imp fun always => ?_
  rw [← toNat_ticks most, always]
  exact Nat.zero_le _

/-- A larger one never expires, or has always expired. -/
theorem expiredOneShot_beyond (beyond : policy.timeMax < request) (now current : UInt32) :
    (new policy request now).expiredOneShot current = true ↔
      policy.toTimeTypeUnit request = 0 := by
  rw [expiredOneShot, checkExpired, canWait, new, reset, restart]
  simp only [decide_eq_true beyond, Bool.not_true, Bool.false_and, Bool.or_false,
    Bool.not_eq_true', decide_eq_false_iff_not, not_not]
  rfl

theorem canExpire_new (now : UInt32) :
    (new policy request now).canExpire = false ↔ policy.timeMax < request := by
  rw [canExpire, new, reset, Bool.not_eq_false', decide_eq_true_eq]

end Timeout

/-- What a one-shot timeout is to do, for a request at the tick `start`. -/
def OneShot (policy : TimePolicy) (request : UInt32) (start : Nat) : Prop :=
  let t := Timeout.new policy request (counter start)
  if policy.timeMax < request then
    t.canExpire = false ∧ ∀ elapsed, t.expiredOneShot (counter (start + elapsed)) = false
  else
    request.toNat * policy.user2UnitMultiplier.toNat < 2 ^ 32 ∧
      ∀ elapsed < 2 ^ 32,
        (t.expiredOneShot (counter (start + elapsed)) = true ↔ policy.ticks request ≤ elapsed)

/-- One-shot timeouts expire in time, except for requests beyond the range whose conversion wraps
to less than the divider. -/
theorem one_shot_expires (policy : TimePolicy) (request : UInt32) (start : Nat) :
    OneShot policy request start ↔ request ≤ policy.timeMax ∨
      policy.user2UnitDivider.toNat ≤
        request.toNat * policy.user2UnitMultiplier.toNat % 2 ^ 32 := by
  rw [OneShot]
  by_cases beyond : policy.timeMax < request
  · have zero : policy.toTimeTypeUnit request = 0 ↔ _ := toTimeTypeUnit_eq_zero request
    rw [if_pos beyond, or_iff_right (UInt32.not_le.2 beyond), ← Nat.not_lt, ← zero,
      Timeout.canExpire_new, and_iff_right beyond]
    constructor
    · intro never wraps
      exact Bool.false_ne_true
        ((never 0).symm.trans ((Timeout.expiredOneShot_beyond beyond _ _).2 wraps))
    · intro kept elapsed
      rw [← Bool.not_eq_true, Timeout.expiredOneShot_beyond beyond]
      exact kept
  · have most : request ≤ policy.timeMax := UInt32.not_lt.1 beyond
    rw [if_neg beyond]
    refine iff_of_true ⟨product_fits most, fun elapsed recent => ?_⟩ (.inl most)
    exact Timeout.expiredOneShot_iff most start recent

/-- Two to the 28 microseconds have passed at once. -/
theorem one_shot_expires_at_once : ¬ OneShot (.fastMicros .mhz80) (2 ^ 28) 0 := by
  have expired : (Timeout.new (.fastMicros .mhz80) (2 ^ 28) (counter 0)).expiredOneShot
      (counter (0 + 0)) = true := by
    decide
  rw [OneShot]
  rw [if_pos (by decide)]
  rintro ⟨-, never⟩
  exact Bool.false_ne_true ((never 0).symm.trans expired)

/-! ## Periodic timeouts -/

/-- The periods that are over at the tick `now`, since a reset at the tick `first`. -/
def periods (period first now : Nat) : Nat := (now - first) / period

/-- What a poll at the tick `now` is to find, after an earlier one at the tick `before`. -/
structure InPhase (period first before now : Nat) (expired : Bool) (t : Timeout) : Prop where
  start : t.start = counter (first + periods period first now * period)
  elapsed : (counter now - t.start).toNat < period
  expired : expired = true ↔ periods period first before < periods period first now

theorem periods_mul_le (period first now : Nat) :
    periods period first now * period ≤ now - first :=
  Nat.div_mul_le_self _ _

/-- The periods since the last one that had been counted come on top. -/
theorem periods_add {period first now : Nat} (pos : 0 < period) (k : Nat)
    (later : first + k * period ≤ now) :
    periods period first now = k + (now - (first + k * period)) / period := by
  have split : now - first = now - (first + k * period) + k * period := by omega
  rw [periods, split, Nat.add_mul_div_right _ _ pos, Nat.add_comm]

/-- A division by the timeout moves the start by whole periods. -/
theorem start_moved {start period count : Nat} {timeout n : UInt32}
    (length : timeout.toNat = period) (counted : n.toNat = count) :
    counter start + n * timeout = counter (start + count * period) := by
  rw [← UInt32.toNat_inj, UInt32.toNat_add, UInt32.toNat_mul, counter, counter,
    UInt32.toNat_ofNat', UInt32.toNat_ofNat', length, counted, ← Nat.add_mod]

/-- One poll keeps the phase, if the counter has not gone round since the last period. -/
theorem expiredRetrigger_inPhase {t : Timeout} {period first before now : Nat}
    (pos : 0 < period) (timeout : t.timeout.toNat = period) (expires : t.neverExpires = false)
    (start : t.start = counter (first + periods period first before * period))
    (reset : first ≤ before) (later : before ≤ now)
    (recent : now < first + periods period first before * period + 2 ^ 32) :
    ∃ expired t', t.expiredRetrigger (counter now) = some (expired, t') ∧
      t'.timeout.toNat = period ∧ t'.neverExpires = false ∧
      InPhase period first before now expired t' := by
  have counted : first + periods period first before * period ≤ now := by
    have := periods_mul_le period first before
    omega
  have more := periods_add pos _ counted
  generalize found : periods period first before = k at *
  -- from here on the ticks since the last period count
  obtain ⟨elapsed, rfl⟩ := Nat.exists_eq_add_of_le counted
  rw [Nat.add_sub_cancel_left] at more
  have shown : (counter (first + k * period + elapsed) - t.start).toNat = elapsed := by
    rw [start, toNat_elapsed, Nat.mod_eq_of_lt (by omega)]
  have waits : t.canWait = true := by
    rw [Timeout.canWait, decide_eq_true_eq, ne_eq, ← UInt32.toNat_inj, timeout]
    exact Nat.ne_of_gt pos
  have checked : t.checkExpired (counter (first + k * period + elapsed)) =
      decide (period ≤ elapsed) := by
    rw [Timeout.checkExpired, expires, Bool.not_false, Bool.true_and]
    exact decide_eq_decide.2 (by rw [UInt32.le_iff_toNat_le, timeout, shown])
  rw [Timeout.expiredRetrigger, waits, checked]
  by_cases passed : period ≤ elapsed
  · have nonzero : t.timeout ≠ 0 := of_decide_eq_true waits
    have count : ((counter (first + k * period + elapsed) - t.start) / t.timeout).toNat =
        elapsed / period := by
      rw [UInt32.toNat_div, shown, timeout]
    have moved : t.start + (counter (first + k * period + elapsed) - t.start) / t.timeout *
        t.timeout = counter (first + (k + elapsed / period) * period) := by
      rw [start, start_moved timeout (start ▸ count), Nat.add_mul, Nat.add_assoc]
    rw [Bool.not_true, if_neg Bool.false_ne_true, decide_eq_true passed, if_pos rfl,
      Timeout.divide, if_neg nonzero, Option.map_some, moved]
    refine ⟨true, _, rfl, timeout, expires, ?_, ?_, ?_⟩
    · rw [more]
    · have rest := Nat.div_add_mod elapsed period
      have less := Nat.mod_lt elapsed pos
      have split : first + k * period + elapsed =
          first + (k + elapsed / period) * period + elapsed % period := by
        rw [Nat.add_mul, Nat.mul_comm (elapsed / period)]
        omega
      rw [split, toNat_elapsed, Nat.mod_eq_of_lt (by omega)]
      exact less
    · rw [found, more]
      exact iff_of_true rfl (Nat.lt_add_of_pos_right (Nat.div_pos passed pos))
  · have same : elapsed / period = 0 := Nat.div_eq_of_lt (Nat.not_le.1 passed)
    rw [Bool.not_true, if_neg Bool.false_ne_true, decide_eq_false passed, if_neg Bool.false_ne_true]
    refine ⟨false, t, rfl, timeout, expires, ?_, ?_, ?_⟩
    · rw [more, same, Nat.add_zero, start]
    · rw [shown]
      exact Nat.not_le.1 passed
    · rw [found, more, same, Nat.add_zero]
      exact iff_of_false Bool.false_ne_true (Nat.lt_irrefl k)

/-! ## Polling -/

/-- The answer of the `i`th poll and the timeout after it, for a timeout that is reset at the tick
`now 0` and polled at the later ticks; none after a division by zero. -/
def polled (policy : TimePolicy) (request : UInt32) (now : Nat → Nat) :
    Nat → Option (Bool × Timeout)
  | 0 => some (false, Timeout.new policy request (counter (now 0)))
  | i + 1 => (polled policy request now i).bind fun last =>
      last.2.expiredRetrigger (counter (now (i + 1)))

/-- A periodic timeout is in phase after each poll. -/
def KeepsPhase (policy : TimePolicy) (request : UInt32) (now : Nat → Nat) : Prop :=
  ∀ i, ∃ expired t, polled policy request now (i + 1) = some (expired, t) ∧
    InPhase (policy.ticks request) (now 0) (now i) (now (i + 1)) expired t

/-- No poll comes a whole turn of the counter after the last period that the poll before it has
found. -/
def Timely (period : Nat) (now : Nat → Nat) : Prop :=
  ∀ i, now (i + 1) < now 0 + periods period (now 0) (now i) * period + 2 ^ 32

/-- Gaps of less than half a turn are small enough for periods of up to half a turn. -/
theorem timely_of_gaps {period : Nat} {now : Nat → Nat} (pos : 0 < period)
    (half : period ≤ 2 ^ 31) (increasing : Monotone now)
    (gaps : ∀ i, now (i + 1) < now i + 2 ^ 31) : Timely period now := by
  intro i
  have rest := Nat.div_add_mod (now i - now 0) period
  have less := Nat.mod_lt (now i - now 0) pos
  have gap := gaps i
  have first := increasing (Nat.zero_le i)
  rw [periods, Nat.mul_comm (_ / _)]
  omega

/-- Periodic timeouts keep their phase. -/
theorem periodic_keeps_phase (policy : TimePolicy) (request : UInt32) (now : Nat → Nat)
    (tick : 1 ≤ policy.ticks request) (most : request ≤ policy.timeMax)
    (increasing : Monotone now) (timely : Timely (policy.ticks request) now) :
    KeepsPhase policy request now := by
  have kept : ∀ i, ∃ expired t, polled policy request now i = some (expired, t) ∧
      t.timeout.toNat = policy.ticks request ∧ t.neverExpires = false ∧
      t.start = counter (now 0 + periods (policy.ticks request) (now 0) (now i) *
        policy.ticks request) := by
    intro i
    induction i with
    | zero =>
      refine ⟨_, _, rfl, toNat_ticks most, decide_eq_false (UInt32.not_lt.2 most), ?_⟩
      rw [periods, Nat.sub_self, Nat.zero_div, Nat.zero_mul, Nat.add_zero]
      rfl
    | succ i ih =>
      obtain ⟨last, t, found, timeout, expires, start⟩ := ih
      obtain ⟨expired, t', retriggered, timeout', expires', phase⟩ :=
        expiredRetrigger_inPhase tick timeout expires start (increasing (Nat.zero_le i))
          (increasing (Nat.le_succ i)) (timely i)
      refine ⟨expired, t', ?_, timeout', expires', phase.start⟩
      rw [polled, found, Option.bind_some, retriggered]
  intro i
  obtain ⟨last, t, found, timeout, expires, start⟩ := kept i
  obtain ⟨expired, t', retriggered, -, -, phase⟩ :=
    expiredRetrigger_inPhase tick timeout expires start (increasing (Nat.zero_le i))
      (increasing (Nat.le_succ i)) (timely i)
  refine ⟨expired, t', ?_, phase⟩
  rw [polled, found, Option.bind_some, retriggered]

/-- Every minute, for a timeout of a minute. -/
theorem periodic_keeps_phase_minutes : KeepsPhase .millis 60000 (60000 * ·) :=
  periodic_keeps_phase .millis 60000 _ (by decide) (by decide) (fun _ _ => Nat.mul_le_mul_left _)
    (timely_of_gaps (by decide) (by decide) (fun _ _ => Nat.mul_le_mul_left _) fun i => by omega)

/-- Three gaps of nearly half a turn hide a period of nearly a whole one. -/
theorem periodic_loses_period : ∃ now : Nat → Nat, Monotone now ∧
    (∀ i, now (i + 1) < now i + 2 ^ 31) ∧ ¬ KeepsPhase .millis (2 ^ 32 - 2) now := by
  refine ⟨((2 ^ 31 - 2) * ·), fun _ _ => Nat.mul_le_mul_left _, fun i => ?_, fun kept => ?_⟩
  · show (2 ^ 31 - 2) * (i + 1) < (2 ^ 31 - 2) * i + 2 ^ 31
    omega
  obtain ⟨expired, t, third, phase⟩ := kept 2
  have missed : (polled .millis (2 ^ 32 - 2) ((2 ^ 31 - 2) * ·) 3).map Prod.fst = some false := by
    decide
  rw [third, Option.map_some, Option.some_inj] at missed
  exact Bool.false_ne_true (missed.symm.trans (phase.expired.2 (by decide)))

end Esp8266.Source.PolledTimeout
