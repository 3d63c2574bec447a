import Mathlib.Algebra.Group.Nat.Defs
import Mathlib.Data.List.Basic

/-!
# The clock of the SPI bus

libraries/SPI/SPI.cpp:28-37 and :192-300. The frequencies that are computed are below the clock,
so that they are the same in `uint32_t` and in `int32_t`.
-/
set_option autoImplicit false

namespace Esp8266.Source.SpiClass

def esp8266Clock : Nat := 80000000

/-- The bit fields of `SPI1CLK`, from the lowest one on. -/
structure SpiClk where
  regL : BitVec 6
  regH : BitVec 6
  regN : BitVec 6
  regPre : BitVec 13
  regEQU : BitVec 1
  deriving DecidableEq

namespace SpiClk

def regValue (reg : SpiClk) : UInt32 :=
  .ofBitVec (reg.regEQU ++ (reg.regPre ++ (reg.regN ++ (reg.regH ++ reg.regL))))

/-- The fields of a value. -/
def ofValue (value : UInt32) : SpiClk where
  regL := value.toBitVec.extractLsb' 0 6
  regH := value.toBitVec.extractLsb' 6 6
  regN := value.toBitVec.extractLsb' 12 6
  regPre := value.toBitVec.extractLsb' 18 13
  regEQU := value.toBitVec.extractLsb' 31 1

/-- `ClkRegToFreq`. -/
def toFreq (reg : SpiClk) : Nat := esp8266Clock / ((reg.regPre.toNat + 1) * (reg.regN.toNat + 1))

end SpiClk

/-! ## The search -/

/-- `calPre`, which is a `uint32_t` taken for an `int32_t`. -/
def calPre (freq calN : Nat) (calPreVari : Int) : Int :=
  ((esp8266Clock / (calN + 1) / freq : Nat) - 1 + calPreVari).bmod (2 ^ 32)

def regPreMax : Nat := 2 ^ 13 - 1

def regPreOf (calPre : Int) : Nat :=
  if calPre > regPreMax then regPreMax else if calPre ≤ 0 then 0 else calPre.toNat

/-- The register that is tried for a divider and a variant of the prescaler. -/
def variant (freq calN : Nat) (calPreVari : Int) : SpiClk where
  regL := BitVec.ofNat 6 ((calN + 1) / 2)
  regH := 0
  regN := BitVec.ofNat 6 calN
  regPre := BitVec.ofNat 13 (regPreOf (calPre freq calN calPreVari))
  regEQU := 0

structure Best where
  reg : SpiClk
  freq : Nat

/-- The loop over the variants; `true` with an accurate match. -/
def tryVariants (freq calN : Nat) : List Int → Best → Best × Bool
  | [], best => (best, false)
  | calPreVari :: rest, best =>
    let reg := variant freq calN calPreVari
    let calFreq := reg.toFreq
    if calFreq = freq then ({ best with reg }, true)
    else if calFreq < freq then
      let cal := ((freq : Int) - calFreq).natAbs
      let least := ((freq : Int) - best.freq).natAbs
      if cal < least then tryVariants freq calN rest ⟨reg, calFreq⟩
      else tryVariants freq calN rest best
    else tryVariants freq calN rest best

/-- The loop over the dividers. -/
def search (freq : Nat) : List Nat → Best → SpiClk
  | [], best => best.reg
  | calN :: rest, best =>
    match tryVariants freq calN [-1, 0, 1, 2] best with
    | (best, true) => best.reg
    | (best, false) => search freq rest best

def bestReg (freq : Nat) : SpiClk := search freq (List.range' 1 63) ⟨⟨0, 0, 0, 0, 0⟩, 0⟩

/-! ## The calls -/

def minFreqReg : UInt32 := 0x7FFFF020

def minFreq : Nat := (SpiClk.ofValue minFreqReg).toFreq

/-- The registers, and the static variables of `setFrequency`. -/
structure Clock where
  spi1Clk : UInt32
  gpmux : UInt32
  lastSetFrequency : UInt32
  lastSetRegister : UInt32

namespace Clock

/-- Nothing has been set yet. -/
def start (spi1Clk gpmux : UInt32) : Clock := ⟨spi1Clk, gpmux, 0, 0⟩

def setClockDivider (clockDiv : UInt32) (s : Clock) : Clock :=
  let sysclock := (1 : UInt32) <<< 9
  { s with gpmux := if clockDiv = 0x80000000 then s.gpmux ||| sysclock else s.gpmux &&& ~~~sysclock
           spi1Clk := clockDiv }

/-- A divider is set and remembered for the frequency. -/
def remember (freq clockDiv : UInt32) (s : Clock) : Clock :=
  let s := s.setClockDivider clockDiv
  { s with lastSetRegister := s.spi1Clk, lastSetFrequency := freq }

/-- `setFrequency` behind its shortcut. -/
def computeFrequency (freq : UInt32) (s : Clock) : Clock :=
  if freq.toNat < minFreq then s.remember freq minFreqReg
  else s.remember freq (bestReg freq.toNat).regValue

def setFrequency (freq : UInt32) (s : Clock) : Clock :=
  if esp8266Clock ≤ freq.toNat then s.setClockDivider 0x80000000
  else if s.lastSetFrequency = freq ∧ s.lastSetRegister = s.spi1Clk then s
  else s.computeFrequency freq

/-- `setFrequency` without the shortcut. -/
def setFrequencyFully (freq : UInt32) (s : Clock) : Clock :=
  if esp8266Clock ≤ freq.toNat then s.setClockDivider 0x80000000 else s.computeFrequency freq

/-- A call from outside. -/
inductive Call where
  | setFrequency (freq : UInt32)
  | setClockDivider (clockDiv : UInt32)
  deriving DecidableEq

def serve : Call → Clock → Unit × Clock
  | .setFrequency freq, s => ((), s.setFrequency freq)
  | .setClockDivider clockDiv, s => ((), s.setClockDivider clockDiv)

/-- The call where nothing is cached. -/
def serveFully : Call → Clock → Unit × Clock
  | .setFrequency freq, s => ((), s.setFrequencyFully freq)
  | .setClockDivider clockDiv, s => ((), s.setClockDivider clockDiv)

end Clock

end Esp8266.Source.SpiClass
