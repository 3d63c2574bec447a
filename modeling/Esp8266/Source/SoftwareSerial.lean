import Esp8266.Source.CircularQueue

/-!
# SoftwareSerial

libraries/SoftwareSerial/src/SoftwareSerial.cpp and SoftwareSerial.h. Words of 32 bits and the
bytes under construction are natural numbers. `now` is what `ESP.getCycleCount()` answers. The two
pins are valid, and what `write` drives onto its pin is a list of levels with the cycles for which
they are held.
-/
set_option autoImplicit false

namespace Esp8266.Source
open Esp8266.Lib.Word32

/-- `SoftwareSerialParity`. -/
inductive SoftwareSerialParity where
  | none | even | odd | mark | space
  deriving DecidableEq, Repr

structure SoftwareSerial where
  rxValid : Bool
  txValid : Bool
  invert : Bool
  dataBits : Nat
  parityMode : SoftwareSerialParity
  stopBits : Nat
  bitCycles : Nat
  overflow : Bool
  lastReadParity : Bool
  parityInPos : UInt8
  parityOutPos : UInt8
  rxCurBit : Int
  rxCurByte : Nat
  rxCurParity : Bool
  buffer : CircularQueue UInt8
  parityBuffer : Option (CircularQueue UInt8)
  isrBuffer : CircularQueue Nat
  isrOverflow : Bool
  isrLastCycle : Nat

namespace SoftwareSerial

/-- The `SoftwareSerialParity` of the bits 070 of a configuration. -/
def parityOf (config : Nat) : SoftwareSerialParity :=
  match config &&& 0o70 with
  | 0o20 => .even
  | 0o30 => .odd
  | 0o40 => .mark
  | 0o70 => .space
  | _ => .none

/-- PDU bits include data, parity and stop bits; the start bit is not counted. -/
def pduBits (s : SoftwareSerial) : Nat :=
  s.dataBits + (if s.parityMode ≠ .none then 1 else 0) + s.stopBits

/-- `begin`, and `enableRx(true)` at its end. -/
def begin_ (baud config : Nat) (invert : Bool) (bufCapacity isrBufCapacity cpuFreqMHz now : Nat)
    (memory : Nat → UInt8) (words : Nat → Nat) : SoftwareSerial :=
  let dataBits := 5 + (config &&& 0o7)
  let parityMode := parityOf config
  let stopBits := 1 + if config &&& 0o300 ≠ 0 then 1 else 0
  let pduBits := dataBits + (if parityMode ≠ .none then 1 else 0) + stopBits
  let capacity := if 0 < bufCapacity then bufCapacity else 64
  let isrCapacity := if 0 < isrBufCapacity then isrBufCapacity
    else capacity * (2 + dataBits + if parityMode ≠ .none then 1 else 0)
  { rxValid := true, txValid := true, invert, dataBits, parityMode, stopBits
    bitCycles := (cpuFreqMHz * 1000000 + baud / 2) / baud
    overflow := false, lastReadParity := false, parityInPos := 1, parityOutPos := 1
    rxCurBit := pduBits - 1, rxCurByte := 0, rxCurParity := false
    buffer := .make capacity memory
    parityBuffer := if parityMode ≠ .none then some (.make ((capacity + 7) / 8) memory) else none
    isrBuffer := .make isrCapacity words
    isrOverflow := false
    isrLastCycle := (now ||| 1) ^^^ if invert then 1 else 0 }

/-! ## Receiving -/

/-- A cycle count whose lowest bit is replaced by a level. -/
def stamp (cycle : Nat) (level : Bool) : Nat := (cycle ||| 1) ^^^ if level then 0 else 1

/-- `rxBitISR` at a change of the pin to `level`. -/
def rxBitISR (curCycle : Nat) (level : Bool) (s : SoftwareSerial) : SoftwareSerial :=
  let (stored, isrBuffer) := s.isrBuffer.push (stamp curCycle level)
  { s with isrBuffer, isrOverflow := s.isrOverflow || !stored }

/-- Store the received value in the buffer unless we have an overflow. -/
def storeByte (s : SoftwareSerial) : SoftwareSerial :=
  let (stored, buffer) := s.buffer.push (UInt8.ofNat s.rxCurByte)
  if !stored then { s with overflow := true }
  else
    match s.parityBuffer with
    | none => { s with buffer }
    | some parityBuffer =>
      let cell := parityBuffer.pushpeek
      let cell := if s.rxCurParity then cell ||| s.parityInPos else cell &&& ~~~s.parityInPos
      let parityBuffer := parityBuffer.setPushpeek cell
      let parityInPos := s.parityInPos <<< 1
      if parityInPos = 0 then
        { s with buffer, parityBuffer := some parityBuffer.release.2, parityInPos := 1 }
      else { s with buffer, parityBuffer := some parityBuffer, parityInPos }

/-- The rounds of `rxBits(isrCycle)`, with `bits` bits of one level to go. -/
def rxLoop (level : Bool) : Nat → Nat → SoftwareSerial → SoftwareSerial
  | 0, _, s => s
  | fuel + 1, bits, s =>
    if bits = 0 then s
    else if s.rxCurBit ≥ s.pduBits - 1 then
      -- leading edge of start bit
      if level then s else rxLoop level fuel (bits - 1) { s with rxCurBit := -1 }
    else if s.rxCurBit ≥ -1 ∧ s.rxCurBit < s.dataBits - 1 then
      let dataBits := min bits (s.dataBits - 1 - s.rxCurBit).toNat
      let shifted := s.rxCurByte >>> dataBits
      rxLoop level fuel (bits - dataBits)
        { s with
          rxCurBit := s.rxCurBit + dataBits
          rxCurByte := if level then shifted ||| (255 <<< (8 - dataBits)) % 256 else shifted }
    else if s.parityMode ≠ .none ∧ s.rxCurBit = s.dataBits - 1 then
      rxLoop level fuel (bits - 1) { s with rxCurBit := s.rxCurBit + 1, rxCurParity := level }
    else if s.rxCurBit < s.pduBits - s.stopBits - 1 then
      rxLoop level fuel (bits - 1) { s with rxCurBit := s.rxCurBit + 1 }
    else if s.rxCurBit = s.pduBits - s.stopBits - 1 then
      -- if not high stop bit level, discard word
      let s := if level then storeByte { s with rxCurByte := s.rxCurByte >>> (8 - s.dataBits) } else s
      { s with rxCurBit := s.pduBits, rxCurByte := 0, rxCurParity := false }
    else s

/-- `rxBits(isrCycle)`. -/
def rxBitsAt (isrCycle : Nat) (s : SoftwareSerial) : SoftwareSerial :=
  let level := xor (s.isrLastCycle.testBit 0) s.invert
  let cycles := sub32 isrCycle s.isrLastCycle
  let bits := cycles / s.bitCycles % 256
  let bits := if s.bitCycles >>> 1 < cycles % s.bitCycles then (bits + 1) % 256 else bits
  rxLoop level bits bits { s with isrLastCycle := isrCycle }

/-- The cycles after which the stop bit is sure to have begun. -/
def detectionCycles (s : SoftwareSerial) : Nat :=
  (s.pduBits - s.stopBits - s.rxCurBit).toNat * s.bitCycles % 2 ^ 32

/-- `rxBits()`. -/
def rxBits (now : Nat) (s : SoftwareSerial) : SoftwareSerial :=
  let isrAvail := s.isrBuffer.available
  let s := if s.isrOverflow then { s with overflow := true, isrOverflow := false } else s
  let s :=
    if isrAvail = 0 ∧ s.rxCurBit ≥ -1 ∧ s.rxCurBit < s.pduBits - s.stopBits ∧
        s.detectionCycles < sub32 now s.isrLastCycle then
      -- Produce faux stop bit level, prevents start bit maldetection
      rxBitsAt (stamp (add32 s.isrLastCycle s.detectionCycles) !s.invert) s
    else s
  let (isrCycles, isrBuffer) := s.isrBuffer.forEach
  isrCycles.foldl (fun s isrCycle => rxBitsAt isrCycle s) { s with isrBuffer }

/-! ## Reading -/

/-- `available()`. -/
def available (now : Nat) (s : SoftwareSerial) : Nat × SoftwareSerial :=
  if !s.rxValid then (0, s)
  else
    let s := s.rxBits now
    (s.buffer.available, s)

/-- What `read()`, `read(buffer, size)` and `peek()` begin with where nothing is there. -/
def refill (now : Nat) (s : SoftwareSerial) : SoftwareSerial :=
  if s.buffer.available = 0 then s.rxBits now else s

/-- `read()`, where `none` stands for -1. -/
def read (now : Nat) (s : SoftwareSerial) : Option UInt8 × SoftwareSerial :=
  if !s.rxValid then (none, s)
  else
    let s := s.refill now
    if s.buffer.available = 0 then (none, s)
    else
      let (val, buffer) := s.buffer.pop
      match s.parityBuffer with
      | none => (val, { s with buffer })
      | some parityBuffer =>
        let lastReadParity := decide (parityBuffer.peek &&& s.parityOutPos ≠ 0)
        let parityOutPos := s.parityOutPos <<< 1
        if parityOutPos = 0 then
          (val, { s with buffer, lastReadParity, parityOutPos := 1
                         parityBuffer := some parityBuffer.pop.2 })
        else (val, { s with buffer, lastReadParity, parityOutPos })

/-- `while (m_parityOutPos >>= 1) ++parityBits`. -/
def parityShifts : Nat → UInt8 → Nat
  | 0, _ => 0
  | fuel + 1, parityOutPos =>
    if parityOutPos >>> 1 = 0 then 0 else parityShifts fuel (parityOutPos >>> 1) + 1

/-- `pop_n` of the bytes. -/
def popBytes (size : Nat) (s : SoftwareSerial) : List UInt8 × SoftwareSerial :=
  let (vals, buffer) := s.buffer.popN size
  (vals, { s with buffer })

/-- The parity bits of `avail` bytes follow them. -/
def popParity (avail : Nat) (s : SoftwareSerial) : SoftwareSerial :=
  match s.parityBuffer with
  | none => s
  | some parityBuffer =>
    let parityBits := avail + parityShifts 8 s.parityOutPos
    { s with
      parityOutPos := UInt8.ofNat (1 <<< (parityBits % 8))
      parityBuffer := some (parityBuffer.popN (parityBits / 8)).2 }

/-- `read(buffer, size)`. -/
def readN (now size : Nat) (s : SoftwareSerial) : List UInt8 × SoftwareSerial :=
  if !s.rxValid then ([], s)
  else
    let (vals, s) := s.popBytes size
    let (vals, s) := if vals = [] then (s.rxBits now).popBytes size else (vals, s)
    if vals = [] then ([], s) else (vals, s.popParity vals.length)

/-- `peek()`. -/
def peek (now : Nat) (s : SoftwareSerial) : Option UInt8 × SoftwareSerial :=
  if !s.rxValid then (none, s)
  else
    let s := s.refill now
    if s.buffer.available = 0 then (none, s)
    else
      match s.parityBuffer with
      | none => (some s.buffer.peek, s)
      | some parityBuffer =>
        (some s.buffer.peek,
          { s with lastReadParity := decide (parityBuffer.peek &&& s.parityOutPos ≠ 0) })

def flush (s : SoftwareSerial) : SoftwareSerial :=
  if !s.rxValid then s
  else
    match s.parityBuffer with
    | none => { s with buffer := s.buffer.flush }
    | some parityBuffer =>
      { s with
        buffer := s.buffer.flush, parityInPos := 1, parityOutPos := 1
        parityBuffer := some parityBuffer.flush }

/-- `overflow()`. -/
def tookOverflow (s : SoftwareSerial) : Bool × SoftwareSerial :=
  (s.overflow, { s with overflow := false })

/-! ## Writing -/

/-- A level that is held for a number of cycles, or longer where the delay is not `sync`. -/
structure Period where
  level : Bool
  cycles : Nat
  sync : Bool
  deriving DecidableEq, Repr

/-- `writePeriod`. A period that no `preciseDelay` of its own ends is ended by the next one, which
is `sync`. -/
def writePeriod (dutyCycle offCycle : Nat) (withStopBit : Bool) (s : SoftwareSerial) :
    List Period :=
  (if dutyCycle ≠ 0 then
    let sync := if offCycle ≠ 0 || (withStopBit && !s.invert) then !withStopBit || s.invert else true
    [⟨true, dutyCycle, sync⟩]
  else []) ++
  (if offCycle ≠ 0 then [⟨false, offCycle, !(withStopBit && s.invert)⟩] else [])

/-- The calculated bit for even parity of the byte. -/
def parityEven (byte : Nat) : Nat := (0x6996 >>> ((byte ^^^ byte >>> 4) &&& 0xf)) &&& 1

/-- The calculated bit for odd parity of the byte. -/
def parityOdd (byte : Nat) : Nat := (0x9669 >>> ((byte ^^^ byte >>> 4) &&& 0xf)) &&& 1

/-- Stop bits, with the parity bit in the lowest place. -/
def parityWord (parity : SoftwareSerialParity) (byte : Nat) (s : SoftwareSerial) : Nat :=
  let word := 2 ^ 32 - 1
  if parity ≠ .none ∧ s.parityMode ≠ .none then
    -- inverted parity bit
    word ^^^ match parity with
      | .even => parityOdd byte
      | .odd => parityEven byte
      | .mark => 0
      | _ => 1
  else word

/-- The start-data-parity-stop bit pattern of a byte, with the start bit in the lowest place. -/
def pattern (parity : SoftwareSerialParity) (byte : Nat) (s : SoftwareSerial) : Nat :=
  let word := s.parityWord parity byte
  let word := (word <<< s.dataBits) % 2 ^ 32
  let word := word ||| byte
  let word := (word <<< 1) % 2 ^ 32
  if s.invert then word ^^^ (2 ^ 32 - 1) else word

/-- The locals of `write`, with the periods written so far. -/
structure Sending where
  b : Bool
  dutyCycle : Nat
  offCycle : Nat
  withStopBit : Bool
  line : List Period

/-- A round of the inner loop, for a bit `b` of the pattern. -/
def writeBit (b : Bool) (s : SoftwareSerial) (t : Sending) : Sending :=
  let pb := t.b
  let t :=
    if !pb && b then
      { t with
        line := t.line ++ s.writePeriod t.dutyCycle t.offCycle t.withStopBit
        withStopBit := false, dutyCycle := 0, offCycle := 0 }
    else t
  if b then { t with b, dutyCycle := add32 t.dutyCycle s.bitCycles }
  else { t with b, offCycle := add32 t.offCycle s.bitCycles }

def writeByte (parity : SoftwareSerialParity) (s : SoftwareSerial) (t : Sending) (val : UInt8) :
    Sending :=
  let byte := val.toNat &&& (1 <<< s.dataBits - 1)
  let word := s.pattern parity byte
  let t := (List.range (s.pduBits + 1)).foldl (fun t i => s.writeBit (word.testBit i) t) t
  { t with withStopBit := true }

/-- `write(buffer, size, parity)`, where `none` stands for -1. -/
def write (now : Nat) (vals : List UInt8) (parity : SoftwareSerialParity) (s : SoftwareSerial) :
    Option (List Period) × SoftwareSerial :=
  let s := if s.rxValid then s.rxBits now else s
  if !s.txValid then (none, s)
  else
    let t := vals.foldl (s.writeByte parity) ⟨!s.invert, 0, 0, true, []⟩
    (some (t.line ++ s.writePeriod t.dutyCycle t.offCycle true), s)

end SoftwareSerial
end Esp8266.Source
