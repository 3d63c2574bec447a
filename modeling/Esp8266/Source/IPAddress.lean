import Esp8266.Lib.Decimal
import Esp8266.Lib.Hexadecimal
import Esp8266.Lib.Word16
import Esp8266.Source.WString
import Mathlib.Data.Nat.Basic

/-!
# Addresses

cores/esp8266/IPAddress.cpp over lwip/ip_addr.h, with LWIP_IPV6. `ip_addr_t` is a union of an IPv4
and an IPv6 address with a type; the zone of the IPv6 address lies behind its 16 bytes. Strings are
printed without running out of memory.
-/
set_option autoImplicit false

namespace Esp8266.Source
open Esp8266.Lib Esp8266.Lib.Decimal Esp8266.Lib.Hexadecimal

/-- `lwip_ip_addr_type`. -/
inductive AddressType where
  | v4 | v6 | any
  deriving DecidableEq

/-- `ip_addr_t`, its bytes in network order. -/
structure IPAddress where
  type : AddressType
  bytes : Vector UInt8 16
  zone : UInt8
  deriving DecidableEq

namespace IPAddress

/-- `IPAddress()`. -/
def empty : IPAddress := ⟨.any, Vector.replicate 16 0, 0⟩

def isV4 (a : IPAddress) : Bool := a.type = .v4

def isV6 (a : IPAddress) : Bool := a.type = .v6

def setV4 (a : IPAddress) : IPAddress := { a with type := .v4 }

def setV6 (a : IPAddress) : IPAddress := { a with type := .v6 }

/-! ## The union -/

/-- A byte of `raw_address()`. -/
def byte (a : IPAddress) (index : Nat) : UInt8 := a.bytes[index]?.getD 0

def setByte (a : IPAddress) (index : Nat) (value : UInt8) : IPAddress :=
  { a with bytes := a.bytes.setIfInBounds index value }

/-- `operator[]` of a constant address. -/
def octet (a : IPAddress) (index : Nat) : UInt8 := if a.isV4 then a.byte index else 0

/-- An assignment through `operator[]`. -/
def setOctet (a : IPAddress) (index : Nat) (value : UInt8) : IPAddress :=
  a.setV4.setByte index value

/-- `PP_NTOHS(raw6()[index])`. -/
def group (a : IPAddress) (index : Nat) : UInt16 :=
  Word16.ofBytes (a.byte (2 * index)) (a.byte (2 * index + 1))

/-- `raw6()[index] = PP_HTONS(value)`. -/
def setGroup (a : IPAddress) (index : Nat) (value : UInt16) : IPAddress :=
  (a.setV6.setByte (2 * index) (Word16.highByte value)).setByte (2 * index + 1)
    (Word16.lowByte value)

/-- `isSet`: `ip_addr_isany` looks at the address of the type. -/
def isSet (a : IPAddress) : Bool :=
  !(List.range (if a.isV6 then 16 else 4)).all fun i => a.byte i = 0

/-- `operator==`: `ip_addr_cmp`. -/
def equals (a b : IPAddress) : Bool :=
  if a.type ≠ b.type then false
  else if a.isV6 then
    ((List.range 16).all fun i => a.byte i = b.byte i) && decide (a.zone = b.zone)
  else (List.range 4).all fun i => a.byte i = b.byte i

/-! ## Printing -/

/-- The loop over the groups of an IPv6 address. -/
def printGroups (a : IPAddress) : List Nat → Int → WString
  | [], _ => []
  | i :: rest, count0 =>
    let bit := a.group i
    let shown := bit ≠ 0 ∨ count0 < 0
    let count0' := if shown then if 0 < count0 then -8 else count0 else count0 + 1
    (if shown then hexadecimal bit.toNat else []) ++
      (if (i ≠ 7 ∧ count0' < 2) ∨ count0' = 7 then [0x3a] else []) ++ printGroups a rest count0'

/-- `printTo` a string. -/
def toString (a : IPAddress) : WString :=
  if !a.isSet then WString.ofString "(IP unset)"
  else if a.isV6 then a.printGroups (List.range 8) 0
  else (List.range 4).flatMap fun i =>
    decimal (a.octet i).toNat ++ if i ≠ 3 then [0x2e] else []

/-! ## IPv4 -/

/-- `fromString4`, from a character on. -/
def fromString4Loop : List UInt8 → UInt16 → Nat → IPAddress → Bool × IPAddress
  | [], acc, dots, a => if dots ≠ 3 then (false, a) else (true, (a.setOctet 3 acc.toUInt8).setV4)
  | c :: rest, acc, dots, a =>
    if IsDigit c then
      let acc := acc * 10 + (c.toUInt16 - 0x30)
      if 255 < acc then (false, a) else fromString4Loop rest acc dots a
    else if c = 0x2e then
      if dots = 3 then (false, a)
      else fromString4Loop rest 0 (dots + 1) (a.setOctet dots acc.toUInt8)
    else (false, a)

def fromString4 (address : WString) (a : IPAddress) : Bool × IPAddress :=
  fromString4Loop address.cstr 0 0 a

/-! ## IPv6 -/

/-- ASCII `isalnum`, of a character that `tolower` has returned. -/
def IsAlnum (c : UInt8) : Prop := IsDigit c ∨ (0x61 ≤ c ∧ c ≤ 0x7a)

instance (c : UInt8) : Decidable (IsAlnum c) := inferInstanceAs (Decidable (_ ∨ _))

/-- The loop that moves groups up, the last one first. -/
def moveGroups (source target : Nat) : Nat → IPAddress → IPAddress
  | 0, a => a
  | i + 1, a => moveGroups source target i (a.setGroup (target + i) (a.group (source + i)))

/-- The loop that clears groups. -/
def clearGroups (first : Nat) : Nat → IPAddress → IPAddress
  | 0, a => a
  | n + 1, a => clearGroups (first + 1) n (a.setGroup first 0)

/-- The end of `fromString6`, `doubledots` being none for -1. -/
def fromString6End (acc : UInt32) (dots : Nat) (doubledots : Option Nat) (a : IPAddress) :
    Bool × IPAddress :=
  let stored := a.setGroup dots acc.toUInt16
  match doubledots with
  | none => if dots ≠ 7 then (false, a) else (true, stored.setV6)
  | some double =>
    let moved := moveGroups double (8 - (dots + 1) + double) (dots + 1 - double) stored
    (true, (clearGroups double (8 - (dots + 1)) moved).setV6)

/-- `fromString6`, from a character on. -/
def fromString6Loop :
    List UInt8 → UInt32 → Nat → Option Nat → IPAddress → Bool × IPAddress
  | [], acc, dots, doubledots, a => fromString6End acc dots doubledots a
  | char :: rest, acc, dots, doubledots, a =>
    let c := toLower char
    if IsAlnum c then
      let c := if 0x61 ≤ c then c - 39 else c
      let acc := acc * 16 + (c.toUInt32 - 0x30)
      if 0xffff < acc then (false, a) else fromString6Loop rest acc dots doubledots a
    else if c = 0x3a then
      match rest with
      | [] =>
        if dots = 7 then (false, a)
        else fromString6Loop [] 0 (dots + 1) doubledots (a.setGroup dots acc.toUInt16)
      | next :: more =>
        if next = 0x3a then
          if doubledots.isSome then (false, a)
          else if dots = 7 then (false, a)
          else fromString6Loop more 0 (dots + 1) (some (dots + if acc = 0 then 0 else 1))
            (a.setGroup dots acc.toUInt16)
        else if dots = 7 then (false, a)
        else fromString6Loop (next :: more) 0 (dots + 1) doubledots
          (a.setGroup dots acc.toUInt16)
    else (false, a)

theorem fromString6Loop_alnum {char : UInt8} (alnum : IsAlnum (toLower char)) (rest : List UInt8)
    (acc : UInt32) (dots : Nat) (doubledots : Option Nat) (a : IPAddress) :
    fromString6Loop (char :: rest) acc dots doubledots a =
      let c := toLower char
      let c := if 0x61 ≤ c then c - 39 else c
      let acc := acc * 16 + (c.toUInt32 - 0x30)
      if 0xffff < acc then (false, a) else fromString6Loop rest acc dots doubledots a := by
  rw [fromString6Loop.eq_def]
  exact if_pos alnum

theorem fromString6Loop_colon_last (acc : UInt32) (dots : Nat) (doubledots : Option Nat)
    (a : IPAddress) :
    fromString6Loop [0x3a] acc dots doubledots a =
      if dots = 7 then (false, a)
      else fromString6Loop [] 0 (dots + 1) doubledots (a.setGroup dots acc.toUInt16) := by
  rw [fromString6Loop.eq_def]
  rfl

theorem fromString6Loop_colon_next (next : UInt8) (more : List UInt8) (acc : UInt32) (dots : Nat)
    (doubledots : Option Nat) (a : IPAddress) :
    fromString6Loop (0x3a :: next :: more) acc dots doubledots a =
      if next = 0x3a then
        if doubledots.isSome then (false, a)
        else if dots = 7 then (false, a)
        else fromString6Loop more 0 (dots + 1) (some (dots + if acc = 0 then 0 else 1))
          (a.setGroup dots acc.toUInt16)
      else if dots = 7 then (false, a)
      else fromString6Loop (next :: more) 0 (dots + 1) doubledots
        (a.setGroup dots acc.toUInt16) := by
  rw [fromString6Loop.eq_def]
  rfl

def fromString6 (address : WString) (a : IPAddress) : Bool × IPAddress :=
  fromString6Loop address.cstr 0 0 none a

def fromString (address : WString) (a : IPAddress) : Bool × IPAddress :=
  if !(fromString4 address a).1 then fromString6 address (fromString4 address a).2
  else (true, (fromString4 address a).2)

end IPAddress
end Esp8266.Source
