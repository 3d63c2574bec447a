import Mathlib.Algebra.Group.Nat.Defs
import Mathlib.Data.Nat.Basic

/-!
# Polled timeouts

cores/esp8266/PolledTimeout.h. A time source is a counter of 32 bits that wraps: it shows `T`
ticks as `T` modulo 2^32. The constants of a time unit are those that the compiler evaluates; its
`double`s are exact there, or cancel out.
-/
set_option autoImplicit false

namespace Esp8266.Source.PolledTimeout

/-- What the counter of a time source shows after so many ticks. -/
def counter (ticks : Nat) : UInt32 := UInt32.ofNat ticks

/-! ## Time units -/

/-- `ESP.getCpuFreqMHz()`. -/
inductive CpuFreq where
  | mhz80 | mhz160
  deriving DecidableEq

def CpuFreq.mhz : CpuFreq → UInt32
  | .mhz80 => 80
  | .mhz160 => 160

/-- `TimeMillis`, `TimeFastMillis`, `TimeFastMicros` and `TimeFastNanos`. -/
inductive TimePolicy where
  | millis
  | fastMillis (freq : CpuFreq)
  | fastMicros (freq : CpuFreq)
  | fastNanos (freq : CpuFreq)
  deriving DecidableEq

namespace TimePolicy

/-- `ticksPerSecond` of `TimeSourceMillis` and of `TimeSourceCycles`. -/
def ticksPerSecond : TimePolicy → UInt32
  | .millis => 1000
  | .fastMillis freq | .fastMicros freq | .fastNanos freq => freq.mhz * 1000000

def ticksPerSecondMax : TimePolicy → UInt32
  | .millis => 1000
  | _ => 160000000

/-- The units of the user in a second, of 64 bits. -/
def secondTh : TimePolicy → Nat
  | .millis | .fastMillis _ => 1000
  | .fastMicros _ => 1000000
  | .fastNanos _ => 1000000000

/-- `computeRangeCompensation`: units in a tick, over the fractional part of that number, rounded;
1 if there is no fractional part. -/
def rangeCompensate (policy : TimePolicy) : UInt32 :=
  let rest := policy.secondTh % policy.ticksPerSecond.toNat
  if rest = 0 then 1 else UInt32.ofNat ((2 * policy.secondTh + rest) / (2 * rest))

def user2UnitMultiplierMax (policy : TimePolicy) : UInt32 :=
  UInt32.ofNat ((policy.ticksPerSecondMax * policy.rangeCompensate).toNat / policy.secondTh)

def user2UnitMultiplier (policy : TimePolicy) : UInt32 :=
  UInt32.ofNat ((policy.ticksPerSecond * policy.rangeCompensate).toNat / policy.secondTh)

def user2UnitDivider (policy : TimePolicy) : UInt32 := policy.rangeCompensate

/-- The largest value of the type is reserved. -/
def timeMax (policy : TimePolicy) : UInt32 := (0xffffffff - 1) / policy.user2UnitMultiplierMax

def toTimeTypeUnit (policy : TimePolicy) (userUnit : UInt32) : UInt32 :=
  userUnit * policy.user2UnitMultiplier / policy.user2UnitDivider

def toUserUnit (policy : TimePolicy) (internalUnit : UInt32) : UInt32 :=
  internalUnit * policy.user2UnitDivider / policy.user2UnitMultiplier

end TimePolicy

/-! ## Timeouts -/

/-- `timeoutTemplate`. -/
structure Timeout where
  timeout : UInt32
  start : UInt32
  neverExpires : Bool
  deriving DecidableEq

namespace Timeout

def alwaysExpired : UInt32 := 0

def canExpire (t : Timeout) : Bool := !t.neverExpires

def canWait (t : Timeout) : Bool := t.timeout ≠ alwaysExpired

/-- `reset()` at the time `now`. -/
def restart (now : UInt32) (t : Timeout) : Timeout := { t with start := now }

/-- `reset(newUserTimeout)` at the time `now`; no value of the unsigned type is below 0. -/
def reset (policy : TimePolicy) (newUserTimeout now : UInt32) (t : Timeout) : Timeout :=
  { t.restart now with
    timeout := policy.toTimeTypeUnit newUserTimeout
    neverExpires := decide (policy.timeMax < newUserTimeout) }

/-- The constructor, at the time `now`. -/
def new (policy : TimePolicy) (userTimeout now : UInt32) : Timeout :=
  reset policy userTimeout now ⟨0, 0, false⟩

def resetToNeverExpires (t : Timeout) : Timeout :=
  { t with timeout := alwaysExpired + 1, neverExpires := true }

def getTimeout (policy : TimePolicy) (t : Timeout) : UInt32 := policy.toUserUnit t.timeout

def checkExpired (internalUnit : UInt32) (t : Timeout) : Bool :=
  !t.neverExpires && decide (t.timeout ≤ internalUnit - t.start)

def expiredOneShot (current : UInt32) (t : Timeout) : Bool :=
  !t.canWait || t.checkExpired current

/-- A division of unsigned numbers; none if it is by zero. -/
def divide (a b : UInt32) : Option UInt32 := if b = 0 then none else some (a / b)

def expiredRetrigger (current : UInt32) (t : Timeout) : Option (Bool × Timeout) :=
  if !t.canWait then some (true, t)
  else if t.checkExpired current then
    (divide (current - t.start) t.timeout).map fun n =>
      (true, { t with start := t.start + n * t.timeout })
  else some (false, t)

end Timeout

end Esp8266.Source.PolledTimeout
