import Esp8266.Lib.Hexadecimal

/-!
# Packets of the GDB stub

libraries/GDBStub/src/internal/gdbstub.c:98-135, :234-275 and :539-592. A character that the
stub waits for is an input of one step of the receiver. What `gdbHandleCommand` does with the
machine and what it sends is a parameter; the watchdog, the interrupts and `sendReason` are left
out.
-/
set_option autoImplicit false

namespace Esp8266.Source.Gdbstub
open Esp8266.Lib.Hexadecimal

/-- `PBUFLEN`. -/
def pbufLen : Nat := 256

/-! ## Sending -/

/-- The running checksum of the packet, and the characters sent. -/
structure Sender where
  chsum : UInt8
  sent : List UInt8

namespace Sender

def gdbSendChar (c : UInt8) (s : Sender) : Sender := { s with sent := s.sent ++ [c] }

def gdbPacketStart (s : Sender) : Sender := { s with chsum := 0 }.gdbSendChar 0x24 -- '$'

/-- The test for `#`, `$`, `}` and `*`. -/
def Escaped (c : UInt8) : Prop := c = 0x23 ∨ c = 0x24 ∨ c = 0x7d ∨ c = 0x2a

instance (c : UInt8) : Decidable (Escaped c) := inferInstanceAs (Decidable (_ ∨ _ ∨ _ ∨ _))

def gdbPacketChar (c : UInt8) (s : Sender) : Sender :=
  let (c, s) :=
    if Escaped c then
      let s := s.gdbSendChar 0x7d
      (c ^^^ 0x20, { s with chsum := s.chsum + 0x7d })
    else (c, s)
  let s := s.gdbSendChar c
  { s with chsum := s.chsum + c }

/-- The entry of `hexChars`. -/
def hexChars (i : Nat) : UInt8 := digit i

def gdbPacketHex (val : Int) : Nat → Sender → Sender
  | bits + 4, s => gdbPacketHex val bits (s.gdbPacketChar (hexChars ((val >>> bits) % 16).toNat))
  | _, s => s

def gdbPacketEnd (s : Sender) : Sender := (s.gdbSendChar 0x23).gdbPacketHex s.chsum.toNat 8

end Sender

/-! ## Receiving -/

def stEndPacket : Int := -1
def stErr : Int := -2
def stOk : Int := -3
def stDetach : Int := -5

/-- The loop of `gdbGetHexVal`; behind the characters is the 0 that ends a command. -/
def gdbGetHexValLoop (bits : Int) : Nat → UInt32 → List UInt8 → Int × List UInt8
  | 0, v, ptr => (v.toInt32.toInt, ptr)
  | _ + 1, v, [] => if bits = -1 then (v.toInt32.toInt, []) else (stErr, [])
  | no + 1, v, c :: ptr =>
    if 0x30 ≤ c ∧ c ≤ 0x39 then
      gdbGetHexValLoop bits no (v <<< 4 ||| (c - 0x30).toUInt32) ptr
    else if 0x41 ≤ c ∧ c ≤ 0x46 then
      gdbGetHexValLoop bits no (v <<< 4 ||| ((c - 0x41).toUInt32 + 10)) ptr
    else if 0x61 ≤ c ∧ c ≤ 0x66 then
      gdbGetHexValLoop bits no (v <<< 4 ||| ((c - 0x61).toUInt32 + 10)) ptr
    else if c = 0x23 then
      if bits = -1 then (v.toInt32.toInt, c :: ptr) else (stEndPacket, ptr)
    else if bits = -1 then (v.toInt32.toInt, c :: ptr)
    else (stErr, ptr)

def gdbGetHexVal (ptr : List UInt8) (bits : Int) : Int × List UInt8 :=
  gdbGetHexValLoop bits (if bits = -1 then 64 else (bits / 4).toNat) 0 ptr

/-- The call of `gdbRecvChar` that waits, with the checksum and the characters in `cmd`. -/
inductive Waiting
  | start
  | packet (chsum : UInt8) (cmd : List UInt8)
  | escape (chsum : UInt8) (cmd : List UInt8)
  | sentchs0 (chsum : UInt8) (cmd : List UInt8)
  | sentchs1 (chsum : UInt8) (cmd : List UInt8) (sentchs0 : UInt8)
  | returned (result : Int)

/-- What the receiver does besides: the characters it sends, the commands it handles, and the two
jumps to the start of a packet. -/
inductive Note
  | sent (c : UInt8)
  | handled (cmd : List UInt8)
  | restarted
  | overrun

structure Receiver (σ : Type*) where
  waiting : Waiting
  gdbAttached : Bool
  machine : σ
  notes : List Note

namespace Receiver

variable {σ : Type*} (gdbHandleCommand : List UInt8 → σ → Int × σ)

/-- The end of the body of the loop, with the character decoded. -/
def storeChar (chsum : UInt8) (cmd : List UInt8) (c : UInt8) (r : Receiver σ) :
    Receiver σ :=
  let chsum := chsum + c
  let cmd := cmd ++ [c]
  if cmd.length ≥ pbufLen then
    { r with waiting := .start, notes := r.notes ++ [.overrun] }
  else { r with waiting := .packet chsum cmd }

/-- The part of `gdbReadCommand` behind the checksum. -/
def checkPacket (chsum : UInt8) (cmd sentchs : List UInt8) (r : Receiver σ) :
    Receiver σ :=
  if (gdbGetHexVal sentchs 8).1 = chsum.toNat then
    let (result, machine) := gdbHandleCommand cmd r.machine
    { waiting := if result ≠ stOk then .returned result else .start
      gdbAttached := !decide (result = stDetach)
      machine
      notes := r.notes ++ [.sent 0x2b, .handled cmd] } -- '+'
  else { r with waiting := .start, notes := r.notes ++ [.sent 0x2d] } -- '-'

/-- `gdbReadCommand` from one `gdbRecvChar` to the next. -/
def gdbReadCommand (r : Receiver σ) (c : UInt8) : Receiver σ :=
  match r.waiting with
  | .start => if c ≠ 0x24 then r else { r with waiting := .packet 0 [] }
  | .packet chsum cmd =>
    if c = 0x23 then { r with waiting := .sentchs0 chsum cmd }
    else if c = 0x24 then
      { r with waiting := .packet 0 [], notes := r.notes ++ [.restarted] }
    else if c = 0x7d then { r with waiting := .escape chsum cmd }
    else r.storeChar chsum cmd c
  | .escape chsum cmd => r.storeChar chsum cmd (c ^^^ 0x20)
  | .sentchs0 chsum cmd => { r with waiting := .sentchs1 chsum cmd c }
  | .sentchs1 chsum cmd sentchs0 => r.checkPacket gdbHandleCommand chsum cmd [sentchs0, c]
  | .returned _ => r

end Receiver

end Esp8266.Source.Gdbstub
