import Esp8266.Lib.NorFlash
import Esp8266.Lib.Ring
import Esp8266.Lib.Word32

/-!
# The EEPROM emulation

UartToTcp/Classes/EEPROM.cpp and EEPROM.h. `_sector` is a sector of the chip, and `flash` are its
bytes. Reads of the flash succeed; whether the erase and the write of a commit do is up to the
call. A call that fails may leave anything in its range. An address outside of the buffer that
`operator[]` is given leads to memory that nothing here reads.
-/
set_option autoImplicit false

namespace Esp8266.Source
open Esp8266.Lib.NorFlash

/-- `SPI_FLASH_SEC_SIZE` of spi_flash_geometry.h. -/
def spiFlashSecSize : Nat := 0x1000

structure Eeprom where
  flash : Flash
  data : Option (Nat → UInt8)
  size : Nat
  dirty : Bool

namespace Eeprom

/-- The constructor. -/
def construct (flash : Flash) : Eeprom := ⟨flash, none, 0, false⟩

/-- How the two flash calls of a commit end. -/
inductive Outcome
  | done
  | eraseFails (junk : Nat → UInt8)
  | writeFails (junk : Nat → UInt8)

/-- `size` as `begin` cuts and rounds it. -/
def rounded (size : Nat) : Nat :=
  let size := if size > spiFlashSecSize then spiFlashSecSize else size
  (size + 3) &&& (2 ^ 32 - 2 ^ 2)

def begin (size : Nat) (e : Eeprom) : Eeprom :=
  if size ≤ 0 then e
  else { e with data := some e.flash, size := rounded size, dirty := false }

/-- The sector after the flash calls of a commit, and whether both succeeded. -/
def flashCalls (outcome : Outcome) (data : Nat → UInt8) (size : Nat) (flash : Flash) :
    Bool × Flash :=
  match outcome with
  | .eraseFails junk => (false, spoil 0 spiFlashSecSize junk flash)
  | .writeFails junk => (false, spoil 0 size junk (erase 0 spiFlashSecSize flash))
  | .done => (true, program 0 size data (erase 0 spiFlashSecSize flash))

def commit (outcome : Outcome) (e : Eeprom) : Bool × Eeprom :=
  if e.size = 0 then (false, e)
  else if !e.dirty then (true, e)
  else
    match e.data with
    | none => (false, e)
    | some data =>
      let (ret, flash) := flashCalls outcome data e.size e.flash
      (ret, { e with flash, dirty := if ret then false else e.dirty })

/-- `end()`. -/
def end_ (outcome : Outcome) (e : Eeprom) : Eeprom :=
  if e.size = 0 then e
  else { (e.commit outcome).2 with data := none, size := 0, dirty := false }

def read (address : Int) (e : Eeprom) : UInt8 :=
  if address < 0 ∨ address.toNat ≥ e.size then 0
  else
    match e.data with
    | none => 0
    | some data => data address.toNat

def write (address : Int) (value : UInt8) (e : Eeprom) : Eeprom :=
  if address < 0 ∨ address.toNat ≥ e.size then e
  else
    match e.data with
    | none => e
    | some data =>
      if data address.toNat ≠ value then
        { e with data := some (Lib.Ring.overlay address.toNat [value] data), dirty := true }
      else e

/-- `get` of a `T` of `width` bytes; `none` where `t` stays as it is. -/
def get (address : Int) (width : Nat) (e : Eeprom) : Option (List UInt8) :=
  if address < 0 ∨ address.toNat + width > e.size then none
  else e.data.map fun data => readRange data address.toNat width

/-- `put` of the bytes of a `T`. -/
def put (address : Int) (bytes : List UInt8) (e : Eeprom) : Eeprom :=
  if address < 0 ∨ address.toNat + bytes.length > e.size then e
  else
    match e.data with
    | none => e
    | some data =>
      if readRange data address.toNat bytes.length ≠ bytes then
        { e with data := some (Lib.Ring.overlay address.toNat bytes data), dirty := true }
      else e

def getDataPtr (e : Eeprom) : Eeprom := { e with dirty := true }

/-- `eeprom[address] = value`. -/
def assign (address : Int) (value : UInt8) (e : Eeprom) : Eeprom :=
  let e := e.getDataPtr
  if address < 0 then e
  else { e with data := e.data.map (Lib.Ring.overlay address.toNat [value]) }

/-! ## Calls -/

inductive Call
  | begin (size : Nat)
  | read (address : Int)
  | write (address : Int) (value : UInt8)
  | get (address : Int) (width : Nat)
  | put (address : Int) (bytes : List UInt8)
  | assign (address : Int) (value : UInt8)
  | commit (outcome : Outcome)
  | end_ (outcome : Outcome)

inductive Answer
  | byte (value : UInt8)
  | bytes (t : Option (List UInt8))
  | ret (ok : Bool)
  | done
  deriving DecidableEq

def call : Call → Eeprom → Answer × Eeprom
  | .begin size, e => (.done, e.begin size)
  | .read address, e => (.byte (e.read address), e)
  | .write address value, e => (.done, e.write address value)
  | .get address width, e => (.bytes (e.get address width), e)
  | .put address bytes, e => (.done, e.put address bytes)
  | .assign address value, e => (.done, e.assign address value)
  | .commit outcome, e => (.ret (e.commit outcome).1, (e.commit outcome).2)
  | .end_ outcome, e => (.done, e.end_ outcome)

end Eeprom

end Esp8266.Source
