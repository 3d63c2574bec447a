import Mathlib.Data.Nat.Bitwise

/-!
# Patterns on the SPI bus

libraries/SPI/SPI.cpp:302-306 and :454-523. A command shifts out the bits of the FIFO from its
start, one more than the field of `SPI1U1` tells, and keeps the FIFO; it is over when `SPIBUSY` is
found clear. `SPI1U`, which turns the phases of a command on, is left out. A pattern that is
written beyond the buffer on the stack ends the call with `none`.
-/
set_option autoImplicit false

namespace Esp8266.Source.SpiClass

def spilMosi : UInt32 := 17
def spilMiso : UInt32 := 8
def spimMosi : UInt32 := 0x1FF
def spimMiso : UInt32 := 0x1FF

/-- `fifo` are the bytes of W0 to W15; `lsbFirst` is `SPICWBO`. -/
structure Registers where
  fifo : Nat → UInt8
  spi1U1 : UInt32
  lsbFirst : Bool
  mosi : List Bool

namespace Registers

/-! ## The controller -/

/-- The bits of a byte in the order in which they are shifted out. -/
def bits (lsbFirst : Bool) (byte : UInt8) : List Bool :=
  (List.range 8).map fun i => byte.toNat.testBit (if lsbFirst then i else 7 - i)

def mosiField (spi1U1 : UInt32) : Nat := (spi1U1 >>> spilMosi &&& spimMosi).toNat

/-- `SPI1CMD |= SPIBUSY` and the wait for its end. -/
def command (s : Registers) : Registers :=
  { s with mosi := s.mosi ++
      ((List.range 64).flatMap fun j => bits s.lsbFirst (s.fifo j)).take (mosiField s.spi1U1 + 1) }

/-! ## The library -/

def setDataBits (bits : UInt16) (s : Registers) : Registers :=
  let mask := ~~~(spimMosi <<< spilMosi ||| spimMiso <<< spilMiso)
  let bits := bits - 1
  { s with spi1U1 := (s.spi1U1 &&& mask) |||
      (bits.toUInt32 <<< spilMosi ||| bits.toUInt32 <<< spilMiso) }

/-- One pattern goes to the buffer of 64 bytes. -/
def copyPattern (data : Nat → UInt8) (size : UInt8) (bufferPtr : Nat) (buffer : Nat → UInt8) :
    Option (Nat → UInt8) :=
  if bufferPtr + size.toNat ≤ 64 then
    some fun j => if bufferPtr ≤ j ∧ j < bufferPtr + size.toNat then data (j - bufferPtr)
      else buffer j
  else none

/-- The loop `while(r--)`. -/
def copyPatterns (data : Nat → UInt8) (size : UInt8) : Nat → Nat → (Nat → UInt8) →
    Option (Nat → UInt8)
  | 0, _, buffer => some buffer
  | r + 1, bufferPtr, buffer =>
    (copyPattern data size bufferPtr buffer).bind
      (copyPatterns data size r (bufferPtr + size.toNat))

/-- The loop that copies words to the FIFO. -/
def fillFifo (words : Nat) (buffer : Nat → UInt8) (s : Registers) : Registers :=
  { s with fifo := fun j => if j < 4 * words then buffer j else s.fifo j }

/-- The loop `while(repeat--)`. -/
def commands : Nat → Registers → Registers
  | 0, s => s
  | n + 1, s => commands n s.command

/-- `buffer` is what the stack holds. -/
def writePattern (buffer data : Nat → UInt8) (size : UInt8) (repeat_ : UInt32) (s : Registers) :
    Option Registers :=
  if size > 64 then some s
  else if repeat_ * size.toUInt32 ≤ 64 then
    let repeatRem := repeat_ * size.toUInt32
    let r := repeat_.toUInt8
    (copyPatterns data size r.toNat 0 buffer).map fun buffer =>
      let r := repeatRem.toUInt8
      let r := if r &&& 3 ≠ 0 then r / 4 + 1 else r / 4
      let s := s.fillFifo r.toNat buffer
      (s.setDataBits (repeatRem * 8).toUInt16).command
  else
    let r := 64 / size
    let repeatRem := repeat_ % r.toUInt32 * size.toUInt32
    let repeat_ := repeat_ / r.toUInt32
    (copyPatterns data size r.toNat 0 buffer).map fun buffer =>
      let s := s.fillFifo 16 buffer
      let s := s.setDataBits (r.toUInt16 * size.toUInt16 * 8)
      let s := s.commands repeat_.toNat
      (s.setDataBits (repeatRem * 8).toUInt16).command

end Registers

end Esp8266.Source.SpiClass
