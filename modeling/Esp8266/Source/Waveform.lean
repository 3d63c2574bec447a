import Mathlib.Logic.Function.Basic
import Esp8266.Source.PolledTimeout

/-!
# The waveform generator

cores/esp8266/core_esp8266_waveform.cpp. A bit mask is the function of its bits. When the timer
interrupts, and how often an interrupt goes through the pins, is given with the time of each
look; the registers of the timer, which only decide that, are left out. `startWaveform` and
`stopWaveform` wait until an interrupt has served their request, and end here where they wait.
-/
set_option autoImplicit false

namespace Esp8266.Source.Waveforms
open Esp8266.Source.PolledTimeout (CpuFreq counter)

/-- `microsecondsToClockCycles` of a `uint32_t`. -/
def microsecondsToClockCycles (freq : CpuFreq) (a : UInt32) : UInt32 := a * freq.mhz

/-- The two `variants/*/common.h`. -/
inductive Variant
  | generic | esp8285
  deriving DecidableEq

def Variant.isFlashInterfacePin (p : Nat) : Variant → Bool
  | .generic => decide (p ≥ 6 ∧ p ≤ 11)
  | .esp8285 => decide (p = 6 ∨ p = 7 ∨ p = 8 ∨ p = 11)

structure Waveform where
  nextServiceCycle : UInt32
  expiryCycle : UInt32
  nextTimeHighCycles : UInt32
  nextTimeLowCycles : UInt32

/-- `level` are the outputs. -/
structure Generator where
  waveform : Nat → Waveform
  waveformState : Nat → Bool
  waveformEnabled : Nat → Bool
  waveformToEnable : Nat → Bool
  waveformToDisable : Nat → Bool
  startPin : Nat
  endPin : Nat
  level : Nat → Bool

namespace Generator

def init : Generator where
  waveform := fun _ => ⟨0, 0, 0, 0⟩
  waveformState := fun _ => false
  waveformEnabled := fun _ => false
  waveformToEnable := fun _ => false
  waveformToDisable := fun _ => false
  startPin := 0
  endPin := 0
  level := fun _ => false

/-! ## Calls -/

/-- `startWaveformClockCycles`, which reads the cycle counter at `asked` and, for a pin that is not
running, at `serviced`. -/
def startWaveformClockCycles (variant : Variant) (freq : CpuFreq) (pin : Nat)
    (timeHighCycles timeLowCycles runTimeCycles : UInt32) (asked serviced : Nat) (g : Generator) :
    Bool × Generator :=
  if pin > 16 ∨ variant.isFlashInterfacePin pin then (false, g)
  else
    let expiryCycle := if runTimeCycles ≠ 0 then counter asked + runTimeCycles else 0
    let expiryCycle := if runTimeCycles ≠ 0 ∧ expiryCycle = 0 then 1 else expiryCycle
    let wave := { g.waveform pin with
      nextTimeHighCycles := timeHighCycles
      nextTimeLowCycles := timeLowCycles
      expiryCycle }
    if !g.waveformEnabled pin then
      let wave := { wave with
        nextServiceCycle := counter serviced + microsecondsToClockCycles freq 1 }
      (true, { g with
        waveform := Function.update g.waveform pin wave
        waveformToEnable := Function.update g.waveformToEnable pin true })
    else (true, { g with waveform := Function.update g.waveform pin wave })

def startWaveform (variant : Variant) (freq : CpuFreq) (pin : Nat)
    (timeHighUS timeLowUS runTimeUS : UInt32) (asked serviced : Nat) (g : Generator) :
    Bool × Generator :=
  g.startWaveformClockCycles variant freq pin (microsecondsToClockCycles freq timeHighUS)
    (microsecondsToClockCycles freq timeLowUS) (microsecondsToClockCycles freq runTimeUS) asked
    serviced

/-- `stopWaveform` while the timer runs. -/
def stopWaveform (pin : Nat) (g : Generator) : Bool × Generator :=
  if g.waveformEnabled pin then
    (true, { g with waveformToDisable := Function.update (fun _ => false) pin true })
  else (true, g)

/-! ## The interrupt -/

/-- `__builtin_ffs` of the bits from `i` on. -/
def ffs (bits : Nat → Bool) : Nat → Nat → Nat
  | 0, _ => 0
  | n + 1, i => if bits i then i + 1 else ffs bits n (i + 1)

/-- `__builtin_clz` of a word of so many bits. -/
def clz (bits : Nat → Bool) : Nat → Nat
  | 0 => 0
  | n + 1 => if bits n then 0 else clz bits n + 1

/-- The requests of the application. -/
def serveRequests (g : Generator) : Generator :=
  if (List.range 32).any g.waveformToEnable || (List.range 32).any g.waveformToDisable then
    let waveformEnabled := fun p =>
      g.waveformEnabled p && !g.waveformToDisable p || g.waveformToEnable p
    { g with
      waveformEnabled
      waveformState := fun p => g.waveformState p && !g.waveformToEnable p
      waveformToEnable := fun _ => false
      waveformToDisable := fun _ => false
      startPin := ffs waveformEnabled 32 0 - 1
      endPin := 32 - clz waveformEnabled 32 }
  else g

/-- The body of the loop for pin `i`, when the cycle counter shows `now`. -/
def look (now : UInt32) (i : Nat) (g : Generator) : Generator :=
  if !g.waveformEnabled i then g
  else
    let wave := g.waveform i
    if wave.expiryCycle ≠ 0 ∧ (wave.expiryCycle - now).toInt32 < 0 then
      { g with
        waveformEnabled := Function.update g.waveformEnabled i false
        level := Function.update g.level i false }
    else if (wave.nextServiceCycle - now).toInt32 < 0 then
      let state := !g.waveformState i
      { g with
        waveformState := Function.update g.waveformState i state
        level := Function.update g.level i state
        waveform := Function.update g.waveform i { wave with
          nextServiceCycle :=
            now + if state then wave.nextTimeHighCycles else wave.nextTimeLowCycles } }
    else g

/-- The loop, which reads the cycle counter for pin `i` at `reads i`. -/
def pass (g : Generator) (reads : Nat → Nat) : Generator :=
  (List.range' g.startPin (g.endPin + 1 - g.startPin)).foldl
    (fun g i => g.look (counter (reads i)) i) g

/-- `timer1Interrupt`, which goes through the pins once for each of `passes`. -/
def timer1Interrupt (passes : List (Nat → Nat)) (g : Generator) : Generator :=
  let g := g.serveRequests
  if (List.range 32).any g.waveformEnabled then passes.foldl pass g else g

/-! ## Events -/

inductive Event
  | startWaveform (pin : Nat) (timeHighUS timeLowUS runTimeUS : UInt32) (asked serviced : Nat)
  | startWaveformClockCycles (pin : Nat) (timeHighCycles timeLowCycles runTimeCycles : UInt32)
      (asked serviced : Nat)
  | stopWaveform (pin : Nat)
  | timer1Interrupt (passes : List (Nat → Nat))

/-- What a call returns. -/
def step (variant : Variant) (freq : CpuFreq) : Event → Generator → Option Bool × Generator
  | .startWaveform pin timeHighUS timeLowUS runTimeUS asked serviced, g =>
    let (ret, g) :=
      g.startWaveform variant freq pin timeHighUS timeLowUS runTimeUS asked serviced
    (some ret, g)
  | .startWaveformClockCycles pin timeHighCycles timeLowCycles runTimeCycles asked serviced, g =>
    let (ret, g) := g.startWaveformClockCycles variant freq pin timeHighCycles timeLowCycles
      runTimeCycles asked serviced
    (some ret, g)
  | .stopWaveform pin, g =>
    let (ret, g) := g.stopWaveform pin
    (some ret, g)
  | .timer1Interrupt passes, g => (none, g.timer1Interrupt passes)

end Generator

end Esp8266.Source.Waveforms
