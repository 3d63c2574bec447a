import Esp8266.Source.WString

/-!
# DNSServer

libraries/DNSServer/src/DNSServer.cpp. A read outside of the packet, or behind the NUL of the
domain name, is a fault that ends the model; on the target it goes on with what the memory holds.
A `char` is unsigned there.
-/
set_option autoImplicit false

namespace Esp8266.Source.Dns
open Esp8266.Source.WString

inductive Fault where
  | outsidePacket | pastName
  deriving DecidableEq, Repr

/-- `DNSReplyCode`, as far as it is used. -/
inductive DNSReplyCode where
  | noError | formError | serverFailure | nonExistentDomain | notImplemented | refused
  | yxDomain | yxrrSet | nxrrSet
  deriving DecidableEq, Repr

structure DNSServer where
  domainName : WString
  resolvedIP : List UInt8
  /-- In network byte order. -/
  ttl : List UInt8
  errorReplyCode : DNSReplyCode

def downcaseAndRemoveWwwPrefix (domainName : WString) : WString :=
  let domainName := domainName.map toLower
  if startsWith domainName (ofString "www.") then domainName.drop 4 else domainName

/-- `start` of a server whose codes and time to live were set or left. -/
def DNSServer.start (server : DNSServer) (domainName : WString) (resolvedIP : List UInt8) :
    DNSServer :=
  { server with domainName := downcaseAndRemoveWwwPrefix domainName, resolvedIP }

/-- A reply; the query is what is repeated of the request. -/
inductive Reply where
  | error (rcode : DNSReplyCode) (query : Option (List UInt8))
  | ip (query : List UInt8)
  deriving DecidableEq, Repr

/-! ## Reads -/

def byteAt (buffer : List UInt8) (start : Nat) : Except Fault UInt8 :=
  match buffer[start]? with
  | some c => .ok c
  | none => .error .outsidePacket

/-- `*matchString`. -/
def nameAt (domainName : WString) (matchString : Nat) : Except Fault UInt8 :=
  if matchString ≤ domainName.length then .ok (domainName.getD matchString 0)
  else .error .pastName

/-! ## The two passes -/

/-- The first pass over the labels: where it ends and how much remains there, unless a label is
longer than the packet. -/
def skipLabels (buffer : List UInt8) : Nat → Nat → Nat → Except Fault (Option (Nat × Nat))
  | 0, start, remaining => .ok (some (start, remaining))
  | fuel + 1, start, remaining =>
    if remaining = 0 then .ok (some (start, remaining))
    else
      match byteAt buffer start with
      | .error fault => .error fault
      | .ok labelLength =>
        if labelLength = 0 then .ok (some (start, remaining))
        else if remaining < labelLength.toNat + 1 then .ok none
        else
          skipLabels buffer fuel (start + (labelLength.toNat + 1))
            (remaining - (labelLength.toNat + 1))

/-- The loop over the bytes of a label; nothing if one is another than that of the name. -/
def matchLabel (buffer : List UInt8) (domainName : WString) :
    Nat → Nat → Nat → Except Fault (Option (Nat × Nat))
  | 0, start, matchString => .ok (some (start, matchString))
  | labelLength + 1, start, matchString =>
    match byteAt buffer start with
    | .error fault => .error fault
    | .ok c =>
      match nameAt domainName matchString with
      | .error fault => .error fault
      | .ok d =>
        if toLower c ≠ d then .ok none
        else matchLabel buffer domainName labelLength (start + 1) (matchString + 1)

/-- The second pass over the labels: whether it ends at the end of both names. -/
def matchLabels (buffer : List UInt8) (domainName : WString) :
    Nat → Nat → Nat → Except Fault Bool
  | 0, _, _ => .ok false
  | fuel + 1, start, matchString =>
    match byteAt buffer start with
    | .error fault => .error fault
    | .ok labelLength =>
      if labelLength = 0 then .ok false
      else
        match matchLabel buffer domainName labelLength.toNat (start + 1) matchString with
        | .error fault => .error fault
        | .ok none => .ok false
        | .ok (some (start, matchString)) =>
          match byteAt buffer start, nameAt domainName matchString with
          | .error fault, _ => .error fault
          | _, .error fault => .error fault
          | .ok next, .ok d =>
            if next = 0 ∧ d = 0 then .ok true
            else if d ≠ 0x2e then .ok false
            else matchLabels buffer domainName fuel start (matchString + 1)

/-- A leading `www`; `strncasecmp` is not called if the first byte is not 3. -/
def leadingWww (buffer : List UInt8) (start : Nat) : Except Fault Bool :=
  match byteAt buffer start with
  | .error fault => .error fault
  | .ok labelLength =>
    if labelLength ≠ 3 then .ok false
    else
      match byteAt buffer (start + 1), byteAt buffer (start + 2), byteAt buffer (start + 3) with
      | .ok a, .ok b, .ok c => .ok ([a, b, c].map toLower = ofString "www")
      | _, _, _ => .error .outsidePacket

/-! ## Requests -/

/-- `sizeof(DNSHeader)`. -/
def dnsHeaderSize : Nat := 12

/-- The bits and counts of the header. -/
def headerByte (buffer : List UInt8) (i : Nat) : UInt8 := buffer.getD i 0

def respondToRequest (server : DNSServer) (buffer : List UInt8) : Except Fault (Option Reply) :=
  let flags := headerByte buffer 2
  if flags &&& 0x80 ≠ 0 then .ok none
  else if flags &&& 0x78 ≠ 0 then .ok (some (.error .notImplemented none))
  else if [headerByte buffer 4, headerByte buffer 5] ≠ [0, 1] then
    .ok (some (.error .formError none))
  else if ((buffer.drop 6).take 6).any (· ≠ 0) then .ok (some (.error .formError none))
  else
    let query := dnsHeaderSize
    match skipLabels buffer (buffer.length + 1) query (buffer.length - dnsHeaderSize) with
    | .error fault => .error fault
    | .ok none => .ok (some (.error .formError none))
    | .ok (some (start, remaining)) =>
      if remaining < 5 then .ok (some (.error .formError none))
      else
        match byteAt buffer (start + 1), byteAt buffer (start + 2), byteAt buffer (start + 3),
          byteAt buffer (start + 4) with
        | .ok typeHigh, .ok typeLow, .ok classHigh, .ok classLow =>
          let question := (buffer.drop query).take (start + 5 - query)
          if [classHigh, classLow] ≠ [0, 255] ∧ [classHigh, classLow] ≠ [0, 1] then
            .ok (some (.error .nonExistentDomain (some question)))
          else if [typeHigh, typeLow] ≠ [0, 1] ∧ [typeHigh, typeLow] ≠ [0, 255] then
            .ok (some (.error .nonExistentDomain (some question)))
          else if server.domainName.length = 0 then
            .ok (some (.error server.errorReplyCode (some question)))
          else if equalsText server.domainName (ofString "*") then .ok (some (.ip question))
          else
            match leadingWww buffer query with
            | .error fault => .error fault
            | .ok skips =>
              match matchLabels buffer server.domainName (buffer.length + 1)
                  (if skips then query + 4 else query) 0 with
              | .error fault => .error fault
              | .ok true => .ok (some (.ip question))
              | .ok false => .ok (some (.error server.errorReplyCode (some question)))
        | _, _, _, _ => .error .outsidePacket

/-! ## Replies -/

def DNSReplyCode.toByte : DNSReplyCode → UInt8
  | .noError => 0
  | .formError => 1
  | .serverFailure => 2
  | .nonExistentDomain => 3
  | .notImplemented => 4
  | .refused => 5
  | .yxDomain => 6
  | .yxrrSet => 7
  | .nxrrSet => 8

/-- The header of a reply: that of the request with other bits and counts. -/
def replyHeader (buffer : List UInt8) (rcode : Option DNSReplyCode) (qdCount anCount : UInt8) :
    List UInt8 :=
  let flags := headerByte buffer 3
  buffer.take 2 ++ [headerByte buffer 2 ||| 0x80,
    match rcode with
    | some rcode => (flags &&& 0xf0) ||| rcode.toByte
    | none => flags,
    0, qdCount, 0, anCount, 0, 0, 0, 0]

/-- `replyWithError` and `replyWithIP`; the name of the answer is a pointer to the query. -/
def Reply.datagram (server : DNSServer) (buffer : List UInt8) : Reply → List UInt8
  | error rcode none => replyHeader buffer (some rcode) 0 0
  | error rcode (some query) => replyHeader buffer (some rcode) 1 0 ++ query
  | ip query =>
    replyHeader buffer none 1 1 ++ query ++ [0xc0, 0x0c, 0, 1, 0, 1] ++ server.ttl ++ [0, 4] ++
      server.resolvedIP

/-- `MAX_DNS_PACKETSIZE`. -/
def maxDnsPacketsize : Nat := 512

/-- What is sent for a packet. -/
def processNextRequest (server : DNSServer) (packet : List UInt8) :
    Except Fault (Option (List UInt8)) :=
  if packet.length = 0 then .ok none
  else if maxDnsPacketsize < packet.length then .ok none
  else if packet.length < dnsHeaderSize then .ok none
  else (respondToRequest server packet).map fun reply =>
    reply.map (Reply.datagram server packet)

end Esp8266.Source.Dns
