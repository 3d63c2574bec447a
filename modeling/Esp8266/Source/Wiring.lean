import Esp8266.Lib.Word32

/-!
# The clock of the wiring functions

cores/esp8266/core_esp8266_wiring.cpp:44-207: microseconds in 64 bits from the 32-bit counter of
the SDK and a timer that notices when it wraps, and milliseconds from both by two multiplications
with each half of a reciprocal.
-/
set_option autoImplicit false

namespace Esp8266.Source.Wiring

/-- `micros_overflow_count` and `micros_at_last_overflow_tick`. -/
structure Overflow where
  count : UInt32
  atLastTick : UInt32
deriving DecidableEq

def Overflow.init : Overflow := ⟨0, 0⟩

/-- `system_get_time`, with `t` microseconds elapsed. -/
def systemGetTime (t : Nat) : UInt32 := UInt32.ofNat t

/-- `micros_overflow_tick`, where `system_get_time` returns `m`. -/
def microsOverflowTick (m : UInt32) (o : Overflow) : Overflow :=
  { count := if m < o.atLastTick then o.count + 1 else o.count
    atLastTick := m }

/-- `micros64`, where `system_get_time` returns `low32Us`. -/
def micros64 (low32Us : UInt32) (o : Overflow) : UInt64 :=
  let high32Us := o.count + if low32Us < o.atLastTick then 1 else 0
  high32Us.toUInt64 <<< 32 ||| low32Us.toUInt64

/-- `MAGIC_1E3_wLO` and `MAGIC_1E3_wHI`. -/
def magicLo : UInt64 := 0x4bc6a7f0
def magicHi : UInt64 := 0x00418937

/-- The low accumulator behind (a), (b) and (c). -/
def accA (m : UInt32) : UInt64 := (m.toUInt64 * magicLo) >>> 32

def accB (m : UInt32) : UInt64 := accA m + m.toUInt64 * magicHi

def accC (m c : UInt32) : UInt64 := accB m + c.toUInt64 * magicLo

/-- What `millis` makes of the counter and the number of its overflows. -/
def millisOf (m c : UInt32) : UInt32 :=
  (accC m c >>> 32).toUInt32 + (c.toUInt64 * magicHi).toUInt32

/-- `millis`, where `system_get_time` returns `m`. -/
def millis (m : UInt32) (o : Overflow) : UInt32 :=
  millisOf m (o.count + if m < o.atLastTick then 1 else 0)

end Esp8266.Source.Wiring
