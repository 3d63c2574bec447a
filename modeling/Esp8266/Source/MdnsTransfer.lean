import Esp8266.Source.MdnsAnswers

/-!
# The wire of MDNSResponder

libraries/ESP8266mDNS/src/LEAmDNS_Transfer.cpp:591-702, 773-871, 1030-1072, 1204-1245 and
1289-1316, with the structures of LEAmDNS.h:703-758 and LEAmDNS_Structs.cpp:128-211 and 726-801.

A datagram is the list of its bytes, with the position that `m_pUDPContext` has in it. Memory is
always found for what is allocated, and appending to a message succeeds.
-/
set_option autoImplicit false

namespace Esp8266.Source.MdnsTransfer
open Esp8266.Source.WString

/-- A store or a read outside of its array, and a loop that has not ended. -/
inductive Fault where
  | outside
  | unbounded
deriving DecidableEq

/-! ## UDP -/

/-- `_udpReadBuffer`: whether all is read, what is read, and the position behind it. -/
def udpReadBuffer (packet : List UInt8) (position length : Nat) : Bool × List UInt8 × Nat :=
  if length = 0 then (false, [], position)
  else
    let buffer := (packet.drop position).take length
    (buffer.length = length, buffer, position + buffer.length)

/-- `_udpRead8`, which leaves `value` as it is if there is nothing to read. -/
def udpRead8 (packet : List UInt8) (position : Nat) (value : UInt8) : Bool × UInt8 × Nat :=
  let (result, buffer, position) := udpReadBuffer packet position 1
  (result, buffer.headD value, position)

/-- `lwip_ntohs` of what is in memory. -/
def ntohs (high low : UInt8) : UInt16 := high.toUInt16 <<< 8 ||| low.toUInt16

/-- `_udpRead16`; nothing if it fails. -/
def udpRead16 (packet : List UInt8) (position : Nat) : Option UInt16 × Nat :=
  match udpReadBuffer packet position 2 with
  | (true, [high, low], position) => (some (ntohs high low), position)
  | (_, _, position) => (none, position)

/-- What `_udpAppend16` appends. -/
def append16 (value : UInt16) : List UInt8 := [(value >>> 8).toUInt8, value.toUInt8]

/-! ## stcMDNS_MsgHeader -/

/-- The members with fewer than eight bits are `Bool` and `Fin`. -/
structure MsgHeader where
  id : UInt16
  qr : Bool
  opcode : Fin 16
  aa : Bool
  tc : Bool
  rd : Bool
  ra : Bool
  z : Fin 8
  rCode : Fin 16
  qdCount : UInt16
  anCount : UInt16
  nsCount : UInt16
  arCount : UInt16
deriving DecidableEq

/-- What a byte is in a member of four bits. -/
def bits4 (value : UInt8) : Fin 16 := Fin.ofNat 16 value.toNat

/-- What a byte is in a member of three bits. -/
def bits3 (value : UInt8) : Fin 8 := Fin.ofNat 8 value.toNat

/-- The members of the third and the fourth byte, with those read before and behind them. -/
def MsgHeader.ofBytes (id : UInt16) (b1 b2 : UInt8) (qdCount anCount nsCount arCount : UInt16) :
    MsgHeader where
  id := id
  qr := b1 &&& 0x80 ≠ 0
  opcode := bits4 (b1 &&& 0x78)
  aa := b1 &&& 0x04 ≠ 0
  tc := b1 &&& 0x02 ≠ 0
  rd := b1 &&& 0x01 ≠ 0
  ra := b2 &&& 0x80 ≠ 0
  z := bits3 (b2 &&& 0x70)
  rCode := bits4 (b2 &&& 0x0f)
  qdCount := qdCount
  anCount := anCount
  nsCount := nsCount
  arCount := arCount

/-- `_readMDNSMsgHeader`; nothing if it fails. -/
def readMDNSMsgHeader (packet : List UInt8) (position : Nat) : Option MsgHeader × Nat :=
  match udpRead16 packet position with
  | (none, position) => (none, position)
  | (some id, position) =>
    match udpRead8 packet position 0 with
    | (false, _, position) => (none, position)
    | (true, b1, position) =>
      match udpRead8 packet position 0 with
      | (false, _, position) => (none, position)
      | (true, b2, position) =>
        match udpRead16 packet position with
        | (none, position) => (none, position)
        | (some qdCount, position) =>
          match udpRead16 packet position with
          | (none, position) => (none, position)
          | (some anCount, position) =>
            match udpRead16 packet position with
            | (none, position) => (none, position)
            | (some nsCount, position) =>
              match udpRead16 packet position with
              | (none, position) => (none, position)
              | (some arCount, position) =>
                (some (.ofBytes id b1 b2 qdCount anCount nsCount arCount), position)

/-- A byte that a member of one bit makes in an expression. -/
def bit (value : Bool) : UInt8 := value.toUInt8

/-- A byte that a member of several bits makes in an expression. -/
def byte {n : Nat} (value : Fin n) : UInt8 := UInt8.ofNat value.val

namespace MsgHeader

def b1 (h : MsgHeader) : UInt8 :=
  bit h.qr <<< 7 ||| byte h.opcode <<< 3 ||| bit h.aa <<< 2 ||| bit h.tc <<< 1 ||| bit h.rd

def b2 (h : MsgHeader) : UInt8 := bit h.ra <<< 7 ||| byte h.z <<< 4 ||| byte h.rCode

end MsgHeader

/-- What `_writeMDNSMsgHeader` appends. -/
def writeMDNSMsgHeader (h : MsgHeader) : List UInt8 :=
  append16 h.id ++ [h.b1, h.b2] ++ append16 h.qdCount ++ append16 h.anCount ++
    append16 h.nsCount ++ append16 h.arCount

/-! ## stcMDNS_RRDomain -/

/-- `MDNS_DOMAIN_MAXLENGTH` -/
def domainMaxLength : Nat := 256

/-- `m_acName` and `m_u16NameLength`. -/
structure RRDomain where
  acName : List UInt8
  nameLength : Nat
  sized : acName.length = domainMaxLength

namespace RRDomain

def clear : RRDomain := ⟨List.replicate domainMaxLength 0, 0, List.length_replicate⟩

/-- A store of bytes from `m_acName[m_u16NameLength]` on. -/
def put (bytes : List UInt8) (d : RRDomain) : Except Fault RRDomain :=
  if fits : d.nameLength + bytes.length ≤ domainMaxLength then
    .ok {
      acName := d.acName.take d.nameLength ++ bytes ++ d.acName.drop (d.nameLength + bytes.length)
      nameLength := d.nameLength
      sized := by
        rw [List.length_append, List.length_append, List.length_take, List.length_drop, d.sized]
        omega }
  else .error .outside

def advance (length : Nat) (d : RRDomain) : RRDomain :=
  { d with nameLength := d.nameLength + length }

/-- `m_acName[m_u16NameLength++] = value` -/
def push (value : UInt8) (d : RRDomain) : Except Fault RRDomain := do
  let d ← d.put [value]
  return d.advance 1

/-- `stLength` of `addLabel`; no label is a null pointer. -/
def labelLength (label : Option WString) (prependUnderline : Bool) : Nat :=
  match label with
  | none => 0
  | some label => (cstr label).length + if prependUnderline then 1 else 0

/-- The underline in front of a label. -/
def pushUnderline (prependUnderline : Bool) (d : RRDomain) : Except Fault RRDomain :=
  if prependUnderline then d.push 0x5f else .ok d

/-- `addLabel`. The zero behind the label is stored as well. -/
def addLabel (label : Option WString) (prependUnderline : Bool) (d : RRDomain) :
    Except Fault (Bool × RRDomain) :=
  let stLength := labelLength label prependUnderline
  if stLength ≤ 63 ∧ d.nameLength + (1 + stLength) ≤ domainMaxLength then do
    let d ← d.push (UInt8.ofNat stLength)
    if stLength = 0 then return (true, d)
    else
      let d ← d.pushUnderline prependUnderline
      let text := (label.map cstr).getD []
      let d ← d.put text
      let d ← (d.advance text.length).put [0]
      return (true, d)
  else .ok (false, d)

/-- The loop of `compare`, at an index of both names; no read may leave the arrays. -/
def compareLoop (d other : RRDomain) : Nat → Nat → Except Fault Bool
  | 0, _ => .error .unbounded
  | fuel + 1, i =>
    match d.acName[i]?, other.acName[i]? with
    | some length, some otherLength =>
      if length ≠ otherLength then .ok false
      else if domainMaxLength < i + 1 + length.toNat then .error .outside
      else if !Mdns.sameContent ((d.acName.drop (i + 1)).take length.toNat)
          ((other.acName.drop (i + 1)).take length.toNat) then .ok false
      else if length = 0 then .ok true
      else compareLoop d other fuel (i + 1 + length.toNat)
    | _, _ => .error .outside

/-- `compare` -/
def compare (d other : RRDomain) : Except Fault Bool :=
  if d.nameLength = other.nameLength then compareLoop d other (domainMaxLength + 1) 0
  else .ok false

end RRDomain

/-! ## _readRRDomain -/

/-- The loop of `_readRRDomain_Loop`, with what a redirection does: whether the name is read, the
position, and the name. -/
def labelLoop (packet : List UInt8)
    (redirect : Nat → RRDomain → Except Fault (Bool × Nat × RRDomain)) :
    Nat → UInt8 → Nat → RRDomain → Except Fault (Bool × Nat × RRDomain)
  | 0, _, _, _ => .error .unbounded
  | fuel + 1, u8Len, position, d => do
    let (_, u8Len, position) := udpRead8 packet position u8Len
    if u8Len &&& 0xc0 ≠ 0 then
      let high := u8Len &&& ~~~0xc0
      let (_, low, position) := udpRead8 packet position u8Len
      let offset := high.toNat * 256 + low.toNat
      -- `isValidOffset`
      if offset ≤ packet.length then
        match ← redirect offset d with
        | (true, _, d) => return (true, position, d)
        | (false, position, d) => return (false, position, d)
      else return (false, position, d)
    else if d.nameLength + u8Len.toNat < domainMaxLength then
      let d ← d.push u8Len
      if u8Len = 0 then return (true, position, d)
      else
        let (result, buffer, position) := udpReadBuffer packet position u8Len.toNat
        let d ← d.put buffer
        if result then labelLoop packet redirect fuel u8Len position (d.advance u8Len.toNat)
        else return (false, position, d)
    else return (false, position, d)

/-- `_readRRDomain_Loop`, with how many levels of it there may be. -/
def readRRDomainLoop (packet : List UInt8) :
    Nat → Nat → RRDomain → Except Fault (Bool × Nat × RRDomain)
  | 0, position, d => .ok (false, position, d)
  | levels + 1, position, d =>
    labelLoop packet (readRRDomainLoop packet levels) (domainMaxLength + 1) 0 position d

/-- `MDNS_DOMAIN_MAX_REDIRCTION` -/
def domainMaxRedirection : Nat := 6

/-- `_readRRDomain` -/
def readRRDomain (packet : List UInt8) (position : Nat) :
    Except Fault (Bool × Nat × RRDomain) :=
  readRRDomainLoop packet (domainMaxRedirection + 1) position .clear

/-! ## _readRRAnswerTXT -/

/-- `stcMDNSServiceTxt`; no value is a null pointer. -/
structure ServiceTxt where
  key : WString
  value : Option WString
deriving DecidableEq

/-- `os_strchr` for an equal sign, in what is left of the buffer. -/
def findEqual : List UInt8 → Except Fault (Option Nat)
  | [] => .error .outside
  | c :: cursor =>
    if c = 0x3d then .ok (some 0)
    else if c = 0 then .ok none
    else do
      let found ← findEqual cursor
      return found.map (· + 1)

/-- `strncpy`: the string that is copied. -/
def strncpy : Nat → List UInt8 → Except Fault WString
  | 0, _ => .ok []
  | _ + 1, [] => .error .outside
  | n + 1, c :: source =>
    if c = 0 then .ok []
    else do
      let copied ← strncpy n source
      return c :: copied

/-- `setValue` with a length. -/
def setValue (source : List UInt8) (length : UInt8) : Except Fault (Option WString) :=
  if length = 0 then .ok none else some <$> strncpy length.toNat source

/-- The item that begins at the cursor; nothing if it is refused. -/
def readTxt (cursor : List UInt8) (ucLength : UInt8) : Except Fault (Option ServiceTxt) := do
  match ← findEqual cursor with
  | none => return none
  | some equalSign =>
    let ucKeyLength := UInt8.ofNat equalSign
    if ucKeyLength = 0 then return none
    else
      let ucValueLength := ucLength - UInt8.ofNat (equalSign + 1)
      let key ← strncpy ucKeyLength.toNat cursor
      let value ← setValue (cursor.drop (equalSign + 1)) ucValueLength
      return some { key, value }

/-- The loop of `_readRRAnswerTXT`: whether it succeeds, and the items. -/
def txtLoop : Nat → List UInt8 → List ServiceTxt → Except Fault (Bool × List ServiceTxt)
  | _, [], txts => .ok (true, txts)
  | 0, _ :: _, _ => .error .unbounded
  | fuel + 1, ucLength :: cursor, txts =>
    if ucLength = 0 then txtLoop fuel cursor []
    else do
      match ← readTxt cursor ucLength with
      | some txt => txtLoop fuel (cursor.drop ucLength.toNat) (txt :: txts)
      | none => return (false, [])

/-- `_readRRAnswerTXT`: whether the items are read, the items, and the position. -/
def readRRAnswerTXT (packet : List UInt8) (position rdLength : Nat) :
    Except Fault (Bool × List ServiceTxt × Nat) :=
  if rdLength = 0 then .ok (true, [], position)
  else
    let (read, buffer, position) := udpReadBuffer packet position rdLength
    if read then do
      let (result, txts) ← txtLoop rdLength buffer []
      return (result, txts, position)
    else .ok (false, [], position)

end Esp8266.Source.MdnsTransfer
