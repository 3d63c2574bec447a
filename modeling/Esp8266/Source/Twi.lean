import Mathlib.Logic.Function.Basic

/-!
# I2C transfers as a master

cores/esp8266/core_esp8266_si2c.cpp:237-411 and libraries/Wire/Wire.cpp:123-131. The bus is what
can be seen of the two lines: conditions, clock pulses, and the levels that the master reads. The
slave pulls SDA depending on all of it. Busy waiting is left out, and a slave that stretches the
clock lets go of it in time.
-/
set_option autoImplicit false

namespace Esp8266.Source.Twi

/-- `BUFFER_LENGTH` of Wire.h. -/
def bufferLength : UInt32 := 128

/-- A pulse is a rising edge of SCL, with the level that the master leaves SDA at; SDA that
changes while SCL is high makes the conditions. -/
inductive Signal
  | start
  | stop
  | pulse (sda : Bool)
  | read (level : Bool)
  deriving DecidableEq

/-- The lines as the master leaves them. -/
structure Bus where
  scl : Bool
  sda : Bool
  signals : List Signal

namespace Bus

def sdaLow (t : Bus) : Bus :=
  { t with sda := false, signals := t.signals ++ if t.scl && t.sda then [.start] else [] }

def sdaHigh (t : Bus) : Bus :=
  { t with sda := true, signals := t.signals ++ if t.scl && !t.sda then [.stop] else [] }

def sclLow (t : Bus) : Bus := { t with scl := false }

def sclHigh (t : Bus) : Bus :=
  { t with scl := true, signals := t.signals ++ if t.scl then [] else [.pulse t.sda] }

variable (slave : List Signal → Bool)

/-- The slave tells whether it lets SDA go. -/
def sdaRead (t : Bus) : Bool × Bus :=
  let level := t.sda && slave t.signals
  (level, { t with signals := t.signals ++ [.read level] })

def writeStart (t : Bus) : Bool × Bus :=
  let t := t.sclHigh.sdaHigh
  let (level, t) := t.sdaRead slave
  if !level then (false, t) else (true, t.sdaLow)

def writeStop (t : Bus) : Bus := t.sclLow.sdaLow.sclHigh.sdaHigh

def writeBit (bit : Bool) (t : Bus) : Bus :=
  let t := t.sclLow
  let t := if bit then t.sdaHigh else t.sdaLow
  t.sclHigh

def readBit (t : Bus) : Bool × Bus := t.sclLow.sdaHigh.sclHigh.sdaRead slave

def twiSclValley (t : Bus) : Bus := t.sclLow.sclHigh

/-- The loop of `write_byte`. -/
def writeBits : Nat → UInt8 → Bus → Bus
  | 0, _, t => t
  | n + 1, byte, t => writeBits n (byte <<< 1) (t.writeBit (decide (byte &&& 0x80 ≠ 0)))

def writeByte (byte : UInt8) (t : Bus) : Bool × Bus :=
  let (bit, t) := (t.writeBits 8 byte).readBit slave
  (!bit, t)

/-- The loop of `read_byte`. -/
def readBits : Nat → UInt8 → Bus → UInt8 × Bus
  | 0, byte, t => (byte, t)
  | n + 1, byte, t =>
    let (bit, t) := t.readBit slave
    readBits n (byte <<< 1 ||| bit.toUInt8) t

def readByte (nack : Bool) (t : Bus) : UInt8 × Bus :=
  let (byte, t) := t.readBits slave 8 0
  (byte, t.writeBit nack)

/-- The loop at the end of a transfer. -/
def freeSda : Nat → Bus → Bus
  | 0, t => (t.sdaRead slave).2
  | n + 1, t =>
    match t.sdaRead slave with
    | (true, t) => t
    | (false, t) => freeSda n t.twiSclValley

/-- The end of a transfer that was not refused. -/
def finish (sendStop : Bool) (t : Bus) : Bus :=
  let t := if sendStop then t.writeStop else t.twiSclValley
  t.freeSda slave 10

/-- The loop of `writeTo`, with the number of bytes that are left. -/
def writeLoop (buf : UInt32 → UInt8) : Nat → UInt32 → Bus → Bool × Bus
  | 0, _, t => (true, t)
  | n + 1, i, t =>
    match t.writeByte slave (buf i) with
    | (false, t) => (false, t)
    | (true, t) => writeLoop buf n (i + 1) t

def writeTo (address : UInt8) (buf : UInt32 → UInt8) (len : UInt32) (sendStop : Bool) (t : Bus) :
    UInt8 × Bus :=
  match t.writeStart slave with
  | (false, t) => (4, t)
  | (true, t) =>
    match t.writeByte slave (address <<< 1 ||| 0) with
    | (false, t) => (2, if sendStop then t.writeStop else t)
    | (true, t) =>
      match t.writeLoop slave buf len.toNat 0 with
      | (false, t) => (3, if sendStop then t.writeStop else t)
      | (true, t) => (0, t.finish slave sendStop)

/-- The loop of `readFrom`, with the number of bytes that are left. -/
def readLoop : Nat → UInt32 → (UInt32 → UInt8) → Bus → (UInt32 → UInt8) × Bus
  | 0, _, buf, t => (buf, t)
  | n + 1, i, buf, t =>
    let (byte, t) := t.readByte slave false
    readLoop n (i + 1) (Function.update buf i byte) t

/-- `buf` is the memory from the address `buf` on, where 32-bit addresses wrap around. -/
def readFrom (address : UInt8) (buf : UInt32 → UInt8) (len : UInt32) (sendStop : Bool) (t : Bus) :
    UInt8 × (UInt32 → UInt8) × Bus :=
  match t.writeStart slave with
  | (false, t) => (4, buf, t)
  | (true, t) =>
    match t.writeByte slave (address <<< 1 ||| 1) with
    | (false, t) => (2, buf, if sendStop then t.writeStop else t)
    | (true, t) =>
      let (buf, t) := t.readLoop slave (len - 1).toNat 0 buf
      let (byte, t) := t.readByte slave true
      (0, Function.update buf (len - 1) byte, t.finish slave sendStop)

end Bus

/-- The receiving side of `TwoWire`, on its bus. -/
structure TwoWire where
  bus : Bus
  rxBuffer : UInt32 → UInt8
  rxBufferIndex : UInt8
  rxBufferLength : UInt8

/-- The size that `requestFrom` asks for. -/
def clipped (size : UInt32) : UInt32 := if size > bufferLength then bufferLength else size

def TwoWire.requestFrom (slave : List Signal → Bool) (address : UInt8) (size : UInt32)
    (sendStop : Bool) (w : TwoWire) : UInt32 × TwoWire :=
  let size := clipped size
  let (ret, rxBuffer, bus) := w.bus.readFrom slave address w.rxBuffer size sendStop
  let read := if ret = 0 then size else 0
  (read, { bus, rxBuffer, rxBufferIndex := 0, rxBufferLength := read.toUInt8 })

end Esp8266.Source.Twi
