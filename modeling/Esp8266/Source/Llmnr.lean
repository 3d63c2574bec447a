import Esp8266.Source.WString

/-!
# LLMNRResponder

libraries/ESP8266LLMNR/ESP8266LLMNR.cpp:80-96 and 131-283. The datagram that `_conn->next()` finds
is the list of its bytes; reading behind the last gives -1. `qname` holds what its place in memory
held before as far as nothing is read into it. A `char` is unsigned.
-/
set_option autoImplicit false

namespace Esp8266.Source.Llmnr
open Esp8266.Source.WString

/-! ## begin -/

/-- `_hostname` behind a successful check in `begin`. -/
structure LLMNRResponder where
  hostname : WString
  short : hostname.length ≤ 63
  plain : 0 ∉ hostname

theorem toLower_ne_zero : ∀ c : UInt8, c ≠ 0 → toLower c ≠ 0 := by
  intro c some
  rw [toLower]
  split
  · rename_i upper
    intro zero
    have low := UInt8.le_iff_toNat_le.mp upper.1
    have high := UInt8.le_iff_toNat_le.mp upper.2
    have sum := congrArg UInt8.toNat zero
    rw [UInt8.toNat_add] at sum
    change 0x41 ≤ c.toNat at low
    change c.toNat ≤ 0x5a at high
    change (c.toNat + 0x20) % 2 ^ 8 = 0 at sum
    omega
  · exact some

/-- What `begin` makes of its argument, unless it refuses it. -/
def beginLLMNR (hostname : WString) : Option LLMNRResponder :=
  if short : (cstr hostname).length ≤ 63 then
    some {
      hostname := (cstr hostname).map toLower
      short := by rwa [List.length_map]
      plain := by
        intro mem
        obtain ⟨c, listed, zero⟩ := List.mem_map.mp mem
        exact toLower_ne_zero c (fun same => not_mem_cstr hostname (same ▸ listed)) zero }
  else none

/-! ## Reading -/

/-- `_conn->read()` -/
def read : List UInt8 → UInt32 × List UInt8
  | [] => (0xffffffff, [])
  | c :: rx => (c.toUInt32, rx)

/-- `_conn_read16()`; the left operand is evaluated first. -/
def read16 (rx : List UInt8) : UInt16 × List UInt8 :=
  let (high, rx) := read rx
  let (low, rx) := read rx
  ((high.toUInt16.toUInt32 <<< 8 ||| low).toUInt16, rx)

/-- `_conn_read8()` -/
def read8 (rx : List UInt8) : UInt8 × List UInt8 :=
  let (c, rx) := read rx
  (c.toUInt8, rx)

/-- `_conn_readS(b, l)`: what `b` holds then, and what is left. -/
def readS (b : List UInt8) (l : Nat) (rx : List UInt8) : List UInt8 × List UInt8 :=
  let bytes := rx.take l
  (bytes ++ b.drop bytes.length, rx.drop l)

/-! ## The interfaces -/

/-- What `wifi_get_opmode` and `wifi_get_ip_info` tell. -/
structure Interfaces where
  softAp : Bool
  softApIp : UInt32
  softApMask : UInt32
  stationIp : UInt32

/-- The address of the interface that a peer is reached by. -/
def Interfaces.ip (net : Interfaces) (remote_ip : UInt32) : UInt32 :=
  if net.softAp ∧ net.softApIp ≠ 0 ∧
      remote_ip &&& net.softApMask = net.softApIp &&& net.softApMask then net.softApIp
  else net.stationIp

/-! ## _process_packet -/

/-- `FLAGS_QR | (FLAGS_OP_MASK << FLAGS_OP_SHIFT) | FLAGS_C` -/
def badFlags : UInt16 := 0xfc00

def header (id : UInt16) (have_rr : Bool) : List UInt8 :=
  [(id >>> 8).toUInt8, id.toUInt8, 0x80, 0, 0, 1, 0, have_rr.toUInt8, 0, 0, 0, 0]

/-- Name terminator, type A and class IN. -/
def q : List UInt8 := [0, 0, 1, 0, 1]

def rr (ip : UInt32) : List UInt8 :=
  [0, 0, 1, 0, 1, 0, 0, 0, 30, 0, 4, ip.toUInt8, (ip >>> 8).toUInt8, (ip >>> 16).toUInt8,
    (ip >>> 24).toUInt8]

/-- The 64 bytes of `qname` when `_process_packet` is called. -/
abbrev Memory := {bytes : List UInt8 // bytes.length = 64}

/-- `_process_packet`: the datagram that is sent to the peer, if any. -/
def LLMNRResponder.processPacket (r : LLMNRResponder) (net : Interfaces) (remote_ip : UInt32)
    (memory : Memory) (rx : List UInt8) : Option (List UInt8) :=
  let (id, rx) := read16 rx
  let (flags, rx) := read16 rx
  let (qdcount, rx) := read16 rx
  let (ancount, rx) := read16 rx
  let (nscount, rx) := read16 rx
  let (arcount, rx) := read16 rx
  if flags &&& badFlags ≠ 0 then none
  else if qdcount ≠ 1 then none
  else if ancount ≠ 0 ∨ nscount ≠ 0 ∨ arcount ≠ 0 then none
  else
    let (namelen, rx) := read8 rx
    if namelen.toNat ≠ r.hostname.length then none
    else
      let (qname, rx) := readS memory.1 namelen.toNat rx
      let (_, rx) := read8 rx
      let qname := qname.set namelen.toNat 0
      if cstr r.hostname ≠ cstr qname then none
      else
        let (qtype, rx) := read16 rx
        let (qclass, _) := read16 rx
        let have_rr : Bool := qtype = 1 ∧ qclass = 1
        let name := namelen :: qname.take namelen.toNat
        some (header id have_rr ++ name ++ q ++
          if have_rr then name ++ rr (net.ip remote_ip) else [])

end Esp8266.Source.Llmnr
