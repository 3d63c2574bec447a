import Esp8266.Source.MdnsAnswers

/-!
# The names of MDNSResponder

libraries/ESP8266mDNS/src/LEAmDNS.cpp:222-393 and 1243-1303,
LEAmDNS_Control.cpp:60-846, 1199-1640 and 1986-2150,
LEAmDNS_Transfer.cpp:77-352, 889-1007 and 1471-1772, LEAmDNS_Helpers.cpp:406-566 and
LEAmDNS_Structs.cpp:690-829 and 1290-1470: probing for names, announcing them and answering queries.

A message is its questions and its records; how these are laid out in a datagram, the flags that
only say so and the callbacks that add TXT items are left out. Services are numbered in the order
in which they were added, and `m_pServices` goes through them from the last to the first. What the
sketch does when it is called back is said by `sketch`, and whether a message can be sent by
`sends`, one entry for each time. `log` has what happened, the latest first.
-/
set_option autoImplicit false

namespace Esp8266.Source.Mdns
open Esp8266.Lib.Decimal
open Esp8266.Source.WString

/-! ## Domain names -/

/-- `operator>` -/
def RRDomain.greater (domain other : RRDomain) : Bool := !domain.compare other

/-- A label of C's string, unless that is empty. -/
def label? (s : WString) : Option Label :=
  if fits : s ≠ [] ∧ s.length ≤ 63 then some ⟨s, fits⟩ else none

/-- `addLabel` with an underline in front. -/
def underlined (s : WString) : Option Label := if s = [] then none else label? (0x5f :: s)

def scpcLocal : Label := ⟨[0x6c, 0x6f, 0x63, 0x61, 0x6c], by decide⟩
def scpcServices : Label := ⟨[0x5f, 0x73, 0x65, 0x72, 0x76, 0x69, 0x63, 0x65, 0x73], by decide⟩
def scpcDNSSD : Label := ⟨[0x5f, 0x64, 0x6e, 0x73, 0x2d, 0x73, 0x64], by decide⟩
def scpcUDP : Label := ⟨[0x5f, 0x75, 0x64, 0x70], by decide⟩
def scpcReverseIP4Domain : Label := ⟨[0x69, 0x6e, 0x2d, 0x61, 0x64, 0x64, 0x72], by decide⟩
def scpcReverseTopDomain : Label := ⟨[0x61, 0x72, 0x70, 0x61], by decide⟩

/-- What `_setHostname` admits. -/
abbrev Hostname := {s : WString // s.length ≤ 63}

def buildDomainForHost (hostname : Option Hostname) : Option RRDomain :=
  match hostname with
  | none => none
  | some hostname =>
    if full : hostname.1 ≠ [] then some (.named [⟨hostname.1, full, hostname.2⟩, scpcLocal])
    else none

def buildDomainForDNSSD : RRDomain := .named [scpcServices, scpcDNSSD, scpcUDP, scpcLocal]

/-- `itoa` of an octet. -/
def octetLabel (octet : Nat) (small : octet < 10 ^ 3) : Label :=
  ⟨decimal octet, decimal_ne_nil octet,
    (length_decimal_le (by decide) small).trans (by decide)⟩

/-- The octets of an address, the first in the lowest byte. -/
def octet (ip : UInt32) (i : Nat) : Nat := ip.toNat / 256 ^ i % 256

theorem octet_lt (ip : UInt32) (i : Nat) : octet ip i < 10 ^ 3 :=
  (Nat.mod_lt _ (by decide)).trans (by decide)

def buildDomainForReverseIP4 (ip : UInt32) : RRDomain :=
  .named [octetLabel (octet ip 3) (octet_lt ip 3), octetLabel (octet ip 2) (octet_lt ip 2),
    octetLabel (octet ip 1) (octet_lt ip 1), octetLabel (octet ip 0) (octet_lt ip 0),
    scpcReverseIP4Domain, scpcReverseTopDomain]

/-! ## Messages -/

/-- `stcMDNS_RRHeader` with its attributes. -/
structure RRHeader where
  domain : RRDomain
  type : UInt16
  class' : UInt16
deriving DecidableEq

structure RRQuestion where
  header : RRHeader
  unicast : Bool
deriving DecidableEq

/-- What the kinds of `stcMDNS_RRAnswer` add to it. -/
inductive RData where
  | a (ipAddress : UInt32)
  | ptr (ptrDomain : RRDomain)
  | txt (txts : Txts)
  | srv (priority weight port : UInt16) (srvDomain : RRDomain)
  | generic (data : List UInt8)
deriving DecidableEq

structure ResourceRecord where
  header : RRHeader
  ttl : UInt32
  rdata : RData
deriving DecidableEq

def typeA : UInt16 := 1
def typePTR : UInt16 := 12
def typeTXT : UInt16 := 16
def typeSRV : UInt16 := 33
def typeANY : UInt16 := 255
def classIN : UInt16 := 1
def classANY : UInt16 := 255
def hostTTL : UInt32 := 120
def serviceTTL : UInt32 := 4500
def mqueryPort : UInt16 := 5353

/-- What is sent. The answers of a query or a probe are in its authority section. -/
structure Message where
  id : UInt16
  response : Bool
  authorative : Bool
  unicast : Bool
  questions : List RRQuestion
  answers : List ResourceRecord
  additional : List ResourceRecord
deriving DecidableEq

/-- The bits of a reply mask that are about the host. -/
structure HostReplyMask where
  a : Bool
  ptrIP4 : Bool
deriving DecidableEq

namespace HostReplyMask

def zero : HostReplyMask := ⟨false, false⟩
def any (mask : HostReplyMask) : Bool := mask.a || mask.ptrIP4
def union (mask other : HostReplyMask) : HostReplyMask :=
  ⟨mask.a || other.a, mask.ptrIP4 || other.ptrIP4⟩
def inter (mask other : HostReplyMask) : HostReplyMask :=
  ⟨mask.a && other.a, mask.ptrIP4 && other.ptrIP4⟩

end HostReplyMask

/-- The bits of a reply mask that are about a service. -/
structure ServiceReplyMask where
  ptrType : Bool
  ptrName : Bool
  txt : Bool
  srv : Bool
deriving DecidableEq

namespace ServiceReplyMask

def zero : ServiceReplyMask := ⟨false, false, false, false⟩
def any (mask : ServiceReplyMask) : Bool := mask.ptrType || mask.ptrName || mask.txt || mask.srv
def union (mask other : ServiceReplyMask) : ServiceReplyMask :=
  ⟨mask.ptrType || other.ptrType, mask.ptrName || other.ptrName, mask.txt || other.txt,
    mask.srv || other.srv⟩
def inter (mask other : ServiceReplyMask) : ServiceReplyMask :=
  ⟨mask.ptrType && other.ptrType, mask.ptrName && other.ptrName, mask.txt && other.txt,
    mask.srv && other.srv⟩

end ServiceReplyMask

/-- `stcMDNSSendParameter` -/
structure SendParameter where
  id : UInt16
  questions : List RRQuestion
  hostReplyMask : HostReplyMask
  legacyQuery : Bool
  response : Bool
  authorative : Bool
  cacheFlush : Bool
  unicast : Bool
  unannounce : Bool

def SendParameter.new : SendParameter where
  id := 0
  questions := []
  hostReplyMask := .zero
  legacyQuery := false
  response := false
  authorative := false
  cacheFlush := true
  unicast := false
  unannounce := false

/-! ## Probe information and services -/

inductive ProbingStatus where
  | waitingForData | readyToStart | inProgress | done
deriving DecidableEq

/-- `stcProbeInformation`; of the callback it is only kept that there is one. -/
structure ProbeInformation where
  probingStatus : ProbingStatus
  sentCount : UInt8
  timeout : OneShotMs
  tiebreakNeeded : Bool
  resultCallback : Bool
deriving DecidableEq

namespace ProbeInformation

def new : ProbeInformation := ⟨.waitingForData, 0, .reset 0 0xffffffff, false, false⟩

def clear (probe : ProbeInformation) : ProbeInformation where
  probingStatus := .waitingForData
  sentCount := 0
  timeout := probe.timeout.resetToNeverExpires
  tiebreakNeeded := false
  resultCallback := probe.resultCallback

def setResultCallback (set : Bool) (probe : ProbeInformation) : ProbeInformation :=
  { probe with resultCallback := set }

def probeDelay : UInt32 := 250
def probeCount : UInt8 := 3
def announceDelay : UInt32 := 1000
def announceCount : UInt8 := 8

/-- A tiebreak is solved. -/
def resolve (probe : ProbeInformation) : ProbeInformation := { probe with tiebreakNeeded := false }

/-- Probing starts, with a message behind the delay. -/
def start (now delay : UInt32) (probe : ProbeInformation) : ProbeInformation :=
  { probe with timeout := .reset now delay, probingStatus := .inProgress }

/-- A probe was sent. -/
def probed (now : UInt32) (probe : ProbeInformation) : ProbeInformation :=
  { probe with timeout := .reset now probeDelay, sentCount := probe.sentCount + 1 }

/-- Probing is done. -/
def finish (probe : ProbeInformation) : ProbeInformation :=
  { probe with probingStatus := .done, timeout := probe.timeout.resetToNeverExpires }

/-- Announcing is prepared. -/
def prepare (now : UInt32) (probe : ProbeInformation) : ProbeInformation :=
  { probe with sentCount := 0, timeout := .reset now announceDelay }

/-- An announcement was sent. -/
def announced (now : UInt32) (probe : ProbeInformation) : ProbeInformation :=
  let sentCount := probe.sentCount + 1
  { probe with
    sentCount := sentCount
    timeout :=
      if sentCount < announceCount then .reset now announceDelay
      else probe.timeout.resetToNeverExpires }

end ProbeInformation

/-- `stcMDNSService`. Its name is none if `m_pcName` is null. -/
structure Service where
  name : Option Label
  autoName : Bool
  service : WString
  protocol : WString
  port : UInt16
  replyMask : ServiceReplyMask
  txts : Txts
  probe : ProbeInformation
deriving DecidableEq

namespace Service

/-- `_buildDomainForService`. Where a label is empty the name ends before its length says so, and
equals no name that is read; `cleared` stands for that. -/
def buildDomain (s : Service) (includeName : Bool) : RRDomain :=
  match underlined s.service, underlined s.protocol with
  | some service, some protocol =>
    if includeName then
      match s.name with
      | some name => .named [name, service, protocol, scpcLocal]
      | none => .cleared
    else .named [service, protocol, scpcLocal]
  | _, _ => .cleared

/-- `_replyMaskForService`, and whether the name is that of the instance. -/
def replyMask? (s : Service) (header : RRHeader) : ServiceReplyMask × Bool :=
  if header.class' = classIN ∨ header.class' = classANY then
    let instanceMatch := header.domain.compare (s.buildDomain true)
    (⟨header.domain.compare buildDomainForDNSSD && (header.type = typePTR ∨ header.type = typeANY),
      header.domain.compare (s.buildDomain false) &&
        (header.type = typePTR ∨ header.type = typeANY),
      instanceMatch && (header.type = typeTXT ∨ header.type = typeANY),
      instanceMatch && (header.type = typeSRV ∨ header.type = typeANY)⟩, instanceMatch)
  else (.zero, false)

end Service

/-! ## The responder -/

/-- What a name is of: the host, or a service. -/
inductive Owner where
  | host
  | service (index : Nat)
deriving DecidableEq

/-- What the sketch calls. -/
inductive Call where
  | setHostname (hostname : Option WString)
  | setServiceName (index : Nat) (instanceName : Option WString)
  | addService (name service protocol : Option WString) (port : UInt16)
  | setHostProbeResultCallback (set : Bool)
  | setServiceProbeResultCallback (index : Nat) (set : Bool)
deriving DecidableEq

/-- What happens. A name that is set takes over a count of messages sent; an answer is a record of
a response that is processed. -/
inductive Event where
  | named (owner : Owner) (domain : Option RRDomain) (carried : UInt8)
  | started (owner : Owner)
  | sent (message : Message)
  | answer (record : ResourceRecord)
  | lost (owner : Owner)
  | cancelled (owner : Owner)
  | done (owner : Owner)
deriving DecidableEq

structure Responder where
  hostname : Option Hostname
  hostProbe : ProbeInformation
  services : List Service
  passivModeEnabled : Bool
  ipAddress : UInt32
  /-- The address and the netmask of the interfaces that have one. -/
  subnets : List (UInt32 × UInt32)
  sends : List Bool
  sketch : List (List Call)
  log : List Event

namespace Responder

def event (e : Event) (r : Responder) : Responder := { r with log := e :: r.log }

def modifyService (i : Nat) (f : Service → Service) (r : Responder) : Responder :=
  { r with services := r.services.modify i f }

def modifyHostProbe (f : ProbeInformation → ProbeInformation) (r : Responder) : Responder :=
  { r with hostProbe := f r.hostProbe }

def modifyProbe (i : Nat) (f : ProbeInformation → ProbeInformation) (r : Responder) : Responder :=
  r.modifyService i fun s => { s with probe := f s.probe }

/-- The body of a loop for one service. -/
def withService (i : Nat) (f : Service → Responder → Responder) (r : Responder) : Responder :=
  match r.services[i]? with
  | some s => f s r
  | none => r

/-- A loop over `m_pServices`; one that is added in it is not visited. -/
def forServices (f : Nat → Responder → Responder) (r : Responder) : Responder :=
  (List.range r.services.length).foldr f r

def hostDomain (r : Responder) : Option RRDomain := buildDomainForHost r.hostname

/-! ### The calls of the sketch -/

/-- The count that a new name takes over: behind the callback that says that probing is done, it
is set to 0. -/
def carried (finishing : Option Owner) (owner : Owner) (probe : ProbeInformation) : UInt8 :=
  if finishing = some owner then 0 else probe.sentCount

/-- `_setHostname` -/
def hostname? (hostname : Option WString) : Option Hostname :=
  match hostname with
  | none => none
  | some s => if fits : (cstr s).length ≤ 63 then some ⟨cstr s, fits⟩ else none

/-- `setName`, and the probing that is to start. -/
def Service.rename (name : Option WString) (s : Service) : Service :=
  { s with
    name := name.bind fun name => label? (cstr name)
    probe := { s.probe with probingStatus := .readyToStart } }

def renameService (finishing : Option Owner) (name : Option WString) (i : Nat) (s : Service)
    (r : Responder) : Responder :=
  (r.event (.named (.service i) (some ((Service.rename name s).buildDomain true))
    (carried finishing (.service i) s.probe))).modifyService i (Service.rename name)

/-- The name of the host itself; the old one is released even if the new one does not fit. -/
def renameHost (finishing : Option Owner) (name : Option WString) (r : Responder) : Responder :=
  { r with
    hostname := hostname? name
    hostProbe :=
      if (hostname? name).isSome then { r.hostProbe with probingStatus := .readyToStart }
      else r.hostProbe
    log := .named .host (buildDomainForHost (hostname? name))
      (carried finishing .host r.hostProbe) :: r.log }

/-- A service that has the name of the host gets a new one as well. -/
def renameAuto (finishing : Option Owner) (name : Option WString) (i : Nat) (r : Responder) :
    Responder :=
  r.withService i fun s r => if s.autoName then renameService finishing name i s r else r

/-- `setHostname` -/
def setHostname (finishing : Option Owner) (name : Option WString) (r : Responder) : Responder :=
  let r := r.renameHost finishing name
  if r.hostname.isSome then r.forServices (renameAuto finishing name) else r

/-- `_findService`, with null for the empty text. -/
def findService (r : Responder) (name service protocol : WString) : Bool :=
  r.services.any fun s =>
    (s.name.map (·.1)).getD [] = name ∧ s.service = service ∧ s.protocol = protocol

/-- A service is put in front of the list. -/
def append (s : Service) (r : Responder) : Responder :=
  { r with
    services := r.services ++ [s]
    log := .named (.service r.services.length) (some (s.buildDomain true)) 0 :: r.log }

/-- `_allocService` -/
def allocService (instance' : WString) (autoName : Bool) (service protocol : WString)
    (port : UInt16) : Service where
  name := label? instance'
  autoName := autoName
  service := service
  protocol := protocol
  port := port
  replyMask := .zero
  txts := []
  probe := { ProbeInformation.new with probingStatus := .readyToStart }

/-- `addService` -/
def addService (name service protocol : Option WString) (port : UInt16) (r : Responder) :
    Responder :=
  match service.map cstr, protocol.map cstr with
  | some service, some protocol =>
    let instance' := (name.map cstr).getD ((r.hostname.map (·.1)).getD [])
    if instance'.length ≤ 63 ∧ service.length ≤ 15 ∧ protocol.length ≠ 2 ∧ protocol.length ≤ 3 ∧
        port ≠ 0 ∧ !r.findService instance' service protocol then
      r.append (allocService instance' name.isNone service protocol port)
    else r
  | _, _ => r

/-- `setServiceName` -/
def setServiceName (finishing : Option Owner) (i : Nat) (name : Option WString) (r : Responder) :
    Responder :=
  if ((name.map cstr).getD []).length ≤ 63 then
    r.withService i fun s => renameService finishing name i s
  else r

def call (finishing : Option Owner) (c : Call) (r : Responder) : Responder :=
  match c with
  | .setHostname hostname => r.setHostname finishing hostname
  | .setServiceName i instanceName => r.setServiceName finishing i instanceName
  | .addService name service protocol port => r.addService name service protocol port
  | .setHostProbeResultCallback set => r.modifyHostProbe (.setResultCallback set)
  | .setServiceProbeResultCallback i set => r.modifyProbe i (.setResultCallback set)

/-- A callback; `finishing` is the one whose probing is done. -/
def callback (finishing : Option Owner) (r : Responder) : Responder :=
  (r.sketch.headD []).foldl (fun r c => r.call finishing c) { r with sketch := r.sketch.tail }

/-! ### Sending -/

/-- The class of a record that may flush the cache. -/
def flushClass (p : SendParameter) : UInt16 := if p.cacheFlush then 0x8000 ||| classIN else classIN

def ttlFor (p : SendParameter) (ttl : UInt32) : UInt32 := if p.unannounce then 0 else ttl

def writeAnswerA (r : Responder) (p : SendParameter) : Option ResourceRecord :=
  r.hostDomain.map fun host =>
    ⟨⟨host, typeA, flushClass p⟩, ttlFor p hostTTL, .a r.ipAddress⟩

def writeAnswerPTRIP4 (r : Responder) (p : SendParameter) : Option ResourceRecord :=
  r.hostDomain.map fun host =>
    ⟨⟨buildDomainForReverseIP4 r.ipAddress, typePTR, flushClass p⟩, ttlFor p hostTTL, .ptr host⟩

def writeAnswerPTRType (s : Service) (p : SendParameter) : ResourceRecord :=
  ⟨⟨buildDomainForDNSSD, typePTR, classIN⟩, ttlFor p serviceTTL, .ptr (s.buildDomain false)⟩

def writeAnswerPTRName (s : Service) (p : SendParameter) : ResourceRecord :=
  ⟨⟨s.buildDomain false, typePTR, classIN⟩, ttlFor p serviceTTL, .ptr (s.buildDomain true)⟩

/-- `MDNS_SRV_PRIORITY` and `MDNS_SRV_WEIGHT` are 0. -/
def writeAnswerSRV (r : Responder) (s : Service) (p : SendParameter) : Option ResourceRecord :=
  r.hostDomain.map fun host =>
    ⟨⟨s.buildDomain true, typeSRV, flushClass p⟩, ttlFor p serviceTTL, .srv 0 0 s.port host⟩

def writeAnswerTXT (s : Service) (p : SendParameter) : ResourceRecord :=
  ⟨⟨s.buildDomain true, typeTXT, flushClass p⟩, ttlFor p serviceTTL, .txt s.txts⟩

def keep {α : Type} (wanted : Bool) (x : α) : List α := if wanted then [x] else []

def hostAnswers (r : Responder) (p : SendParameter) : List (Option ResourceRecord) :=
  keep p.hostReplyMask.a (r.writeAnswerA p) ++
    keep p.hostReplyMask.ptrIP4 (r.writeAnswerPTRIP4 p)

def serviceAnswers (r : Responder) (p : SendParameter) (s : Service) :
    List (Option ResourceRecord) :=
  keep s.replyMask.ptrType (some (writeAnswerPTRType s p)) ++
    keep s.replyMask.ptrName (some (writeAnswerPTRName s p)) ++
    keep s.replyMask.srv (r.writeAnswerSRV s p) ++
    keep s.replyMask.txt (some (writeAnswerTXT s p))

def additionalAnswers (r : Responder) (p : SendParameter) (s : Service) :
    List (Option ResourceRecord) :=
  keep (s.replyMask.ptrName && !s.replyMask.srv) (r.writeAnswerSRV s p) ++
    keep (s.replyMask.ptrName && !s.replyMask.txt) (some (writeAnswerTXT s p))

/-- Whether a service needs the address behind its own records. -/
def needsAdditionalA (p : SendParameter) (s : Service) : Bool :=
  (s.replyMask.ptrName || s.replyMask.srv) && !p.hostReplyMask.a

/-- `_prepareMDNSMessage` -/
def prepareMDNSMessage (r : Responder) (p : SendParameter) : Option Message := do
  let answers ← (r.hostAnswers p ++ r.services.reverse.flatMap (r.serviceAnswers p)).mapM id
  let additional ← (r.services.reverse.flatMap (r.additionalAnswers p) ++
    keep (r.services.any (needsAdditionalA p)) (r.writeAnswerA p)).mapM id
  return {
    id := p.id
    response := p.response
    authorative := p.authorative
    unicast := p.response && p.unicast
    questions := p.questions
    answers := answers
    additional := additional }

def clearReplyMasks (r : Responder) : Responder :=
  { r with services := r.services.map fun s => { s with replyMask := .zero } }

/-- `_sendMDNSMessage`: the message, if it is sent. -/
def sendMDNSMessage (r : Responder) (p : SendParameter) : Option Message × Responder :=
  match r.prepareMDNSMessage p with
  | none => (none, r.clearReplyMasks)
  | some message =>
    if r.sends.headD true then
      (some message,
        ({ r with sends := r.sends.tail }.event (.sent message)).clearReplyMasks)
    else (none, { r with sends := r.sends.tail }.clearReplyMasks)

/-! ### Probing -/

/-- The question of a probe. -/
def probeQuestion (domain : RRDomain) (unicast : Bool) : RRQuestion :=
  ⟨⟨domain, typeANY, 0x8000 ||| classIN⟩, unicast⟩

def hostProbeParameter (host : RRDomain) : SendParameter :=
  { SendParameter.new with
    cacheFlush := false
    questions := [probeQuestion host false]
    hostReplyMask := ⟨true, false⟩ }

/-- `_sendHostProbe` -/
def sendHostProbe (r : Responder) : Option Message × Responder :=
  match r.hostDomain with
  | none => (none, r)
  | some host => r.sendMDNSMessage (hostProbeParameter host)

def serviceProbeParameter (domain : RRDomain) : SendParameter :=
  { SendParameter.new with
    cacheFlush := false
    questions := [probeQuestion domain true] }

def maskService (i : Nat) (mask : ServiceReplyMask) (r : Responder) : Responder :=
  r.modifyService i fun s => { s with replyMask := mask }

/-- `_sendServiceProbe` -/
def sendServiceProbe (i : Nat) (s : Service) (r : Responder) : Option Message × Responder :=
  (r.maskService i ⟨false, true, false, true⟩).sendMDNSMessage
    (serviceProbeParameter (s.buildDomain true))

def clearService (i : Nat) (r : Responder) : Responder :=
  (r.event (.cancelled (.service i))).modifyProbe i .clear

def clearHost (r : Responder) : Responder :=
  (r.event (.cancelled .host)).modifyHostProbe .clear

/-- `_cancelProbingForService`, and whether the sketch was told. -/
def cancelProbingForService (i : Nat) (s : Service) (r : Responder) : Bool × Responder :=
  let r := r.clearService i
  if s.probe.resultCallback then (true, r.callback none) else (false, r)

/-- The services, until the sketch of one of them is told. -/
def cancelServices : List Nat → Responder → Responder
  | [], r => r
  | i :: rest, r =>
    match r.services[i]? with
    | none => cancelServices rest r
    | some s =>
      let (told, r) := r.cancelProbingForService i s
      if told then r else cancelServices rest r

/-- `_cancelProbingForHost` -/
def cancelProbingForHost (r : Responder) : Responder :=
  let r := r.clearHost
  if r.hostProbe.resultCallback then r.callback none
  else cancelServices (List.range r.services.length).reverse r

/-- `_announce(true, false)` -/
def announce (r : Responder) : Option Message × Responder :=
  if r.hostProbe.probingStatus = .done then
    r.sendMDNSMessage { SendParameter.new with
      response := true
      authorative := true
      hostReplyMask := ⟨true, true⟩ }
  else (none, r)

/-- `_announceService` -/
def announceService (i : Nat) (s : Service) (r : Responder) : Option Message × Responder :=
  if s.probe.probingStatus = .done then
    (r.maskService i ⟨true, true, true, true⟩).sendMDNSMessage
      { SendParameter.new with
        response := true
        authorative := true }
  else (none, r)

/-- The host's probing is done, and the sketch is told. -/
def finishHost (r : Responder) : Responder :=
  let told := r.hostProbe.resultCallback
  let r := (r.event (.done .host)).modifyHostProbe .finish
  if told then r.callback (some .host) else r

/-- The host's part of `_updateProbeStatus`. -/
def updateHost (now random : UInt32) (r : Responder) : Bool × Responder :=
  let probe := r.hostProbe
  if probe.probingStatus = .readyToStart ∧ r.ipAddress ≠ 0 then
    (true, (r.event (.started .host)).modifyHostProbe
      (.start now (random % ProbeInformation.probeDelay)))
  else if probe.probingStatus = .inProgress ∧ probe.timeout.expired now then
    if probe.sentCount < ProbeInformation.probeCount then
      match r.sendHostProbe with
      | (some _, r) => (true, r.modifyHostProbe (.probed now))
      | (none, r) => (false, r)
    else (true, r.finishHost.modifyHostProbe (.prepare now))
  else if probe.probingStatus = .done ∧ probe.timeout.expired now then
    match r.announce with
    | (some _, r) => (true, r.modifyHostProbe (.announced now))
    | (none, r) => (false, r)
  else (true, r)

/-- A service's probing is done, and the sketch is told. -/
def finishService (i : Nat) (s : Service) (r : Responder) : Responder :=
  let r := (r.event (.done (.service i))).modifyProbe i .finish
  if s.probe.resultCallback then r.callback (some (.service i)) else r

/-- The part of `_updateProbeStatus` for one service. -/
def updateService (now : UInt32) (i : Nat) (s : Service) (r : Responder) : Bool × Responder :=
  let probe := s.probe
  if probe.probingStatus = .readyToStart then
    (true, (r.event (.started (.service i))).modifyProbe i
      (.start now ProbeInformation.probeDelay))
  else if probe.probingStatus = .inProgress ∧ probe.timeout.expired now then
    if probe.sentCount < ProbeInformation.probeCount then
      match r.sendServiceProbe i s with
      | (some _, r) => (true, r.modifyProbe i (.probed now))
      | (none, r) => (false, r)
    else (true, (r.finishService i s).modifyProbe i (.prepare now))
  else if probe.probingStatus = .done ∧ probe.timeout.expired now then
    match r.announceService i s with
    | (some _, r) => (true, r.modifyProbe i (.announced now))
    | (none, r) => (false, r)
  else (true, r)

/-- The loop over the services, which ends when something fails. -/
def updateServices (now : UInt32) : List Nat → Responder → Responder
  | [], r => r
  | i :: rest, r =>
    match r.services[i]? with
    | none => updateServices now rest r
    | some s =>
      let (result, r) := r.updateService now i s
      if result then updateServices now rest r else r

/-- `_updateProbeStatus` at the time `now`. -/
def updateProbeStatus (now random : UInt32) (r : Responder) : Responder :=
  let (result, r) := r.updateHost now random
  if result then updateServices now (List.range r.services.length).reverse r else r

/-! ### Queries -/

/-- `_replyMaskForHost`, and whether the name is that of the host. -/
def replyMaskForHost (r : Responder) (header : RRHeader) : HostReplyMask × Bool :=
  if header.class' = classIN ∨ header.class' = classANY then
    let hostMatch : Bool := match r.hostDomain with
      | some host => header.domain.compare host
      | none => false
    (⟨hostMatch && (header.type = typeA ∨ header.type = typeANY),
      (header.type = typePTR ∨ header.type = typeANY) &&
        header.domain.compare (buildDomainForReverseIP4 r.ipAddress)⟩, hostMatch)
  else (.zero, false)

/-- A query as it is read: what the header announces, and what can be read of that. -/
structure Query where
  id : UInt16
  remoteAddress : UInt32
  remotePort : UInt16
  questionCount : Nat
  questions : List RRQuestion
  recordCount : Nat
  records : List ResourceRecord

/-- `_readRRQuestion`: the first bit of the class asks for a unicast reply. -/
def readRRQuestion (question : RRQuestion) : RRQuestion where
  header := { question.header with class' := question.header.class' &&& 0x7fff }
  unicast := question.header.class' &&& 0x8000 ≠ 0

/-- `_readRRAnswer` fails for the address 0.0.0.0, which is that of nobody. -/
def readable (record : ResourceRecord) : Bool := record.rdata ≠ .a 0

/-- A message as the others read it. -/
def received (remoteAddress : UInt32) (message : Message) : Query where
  id := message.id
  remoteAddress := remoteAddress
  remotePort := mqueryPort
  questionCount := message.questions.length
  questions := message.questions.map readRRQuestion
  recordCount := (message.answers ++ message.additional).length
  records := (message.answers ++ message.additional).takeWhile readable

/-- The source is an address of one of the subnets. -/
def isLocal (r : Responder) (remoteAddress : UInt32) : Bool :=
  remoteAddress ≠ 0 && r.subnets.any fun (ip, netmask) =>
    remoteAddress &&& netmask = ip &&& netmask

/-- What a question means for a service. -/
def planService (passiv : Bool) (question : RRQuestion) (s : Service) : Service :=
  let (mask, fullNameMatch) := s.replyMask? question.header
  { s with
    replyMask :=
      if passiv ∨ s.probe.probingStatus = .done then s.replyMask.union mask else s.replyMask
    probe := { s.probe with
      tiebreakNeeded := s.probe.tiebreakNeeded ||
        (s.probe.probingStatus = .inProgress && mask.any && fullNameMatch) } }

/-- What a question means for the host's probing. -/
def hostTiebreakNeed (question : RRQuestion) (r : Responder) : Responder :=
  let (mask, fullNameMatch) := r.replyMaskForHost question.header
  { r with hostProbe := { r.hostProbe with
      tiebreakNeeded := r.hostProbe.tiebreakNeeded ||
        (r.hostProbe.probingStatus = .inProgress && mask.any && fullNameMatch) } }

/-- The replies for the host that are planned for a question. -/
def planHost (r : Responder) (question : RRQuestion) (p : SendParameter) : SendParameter :=
  if r.passivModeEnabled ∨ r.hostProbe.probingStatus = .done then
    { p with hostReplyMask := p.hostReplyMask.union (r.replyMaskForHost question.header).1 }
  else p

/-- The specialities of unicast and legacy queries, and whether to go on. -/
def unicastReply (q : Query) (question : RRQuestion) (replies : Bool) (r : Responder)
    (p : SendParameter) : Bool × SendParameter :=
  if (q.remotePort ≠ mqueryPort ∨ question.unicast) ∧ !p.unicast then
    let p := { p with unicast := true, cacheFlush := false }
    if q.remotePort ≠ mqueryPort ∧ q.questionCount = 1 ∧ (p.hostReplyMask.any ∨ replies) then
      if r.isLocal q.remoteAddress then
        (true, { p with id := q.id, legacyQuery := true, questions := [⟨question.header, false⟩] })
      else (false, p)
    else (true, p)
  else (true, p)

def planServices (question : RRQuestion) (r : Responder) : Responder :=
  { r with services := r.services.map (planService r.passivModeEnabled question) }

def needsReply (p : SendParameter) (r : Responder) : Bool :=
  p.hostReplyMask.any || r.services.any fun s => s.replyMask.any

/-- One question: whether to go on, and what is to be sent. -/
def parseQuestion (q : Query) (question : RRQuestion) (p : SendParameter) (r : Responder) :
    Bool × SendParameter × Responder :=
  let p := r.planHost question p
  let r := (r.hostTiebreakNeed question).planServices question
  let (result, p) := unicastReply q question (r.needsReply p) r p
  (result, p, r)

/-- The loop over the questions. -/
def parseQuestions (q : Query) : Nat → List RRQuestion → SendParameter → Responder →
    Bool × SendParameter × Responder
  | 0, _, p, r => (true, p, r)
  | _ + 1, [], p, r => (false, p, r)
  | count + 1, question :: questions, p, r =>
    let (result, p, r) := parseQuestion q question p r
    if result then parseQuestions q count questions p r else (false, p, r)

/-- A planned answer of the host that is known. -/
def knownHostAnswer (r : Responder) (record : ResourceRecord) (p : SendParameter) :
    SendParameter :=
  let hostMatch := p.hostReplyMask.inter (r.replyMaskForHost record.header).1
  if hostMatch.any ∧ hostTTL / 2 ≤ record.ttl then
    match record.rdata, r.hostDomain with
    | .ptr ptrDomain, some host =>
      if ptrDomain.compare host ∧ hostMatch.ptrIP4 then
        { p with hostReplyMask := { p.hostReplyMask with ptrIP4 := false } }
      else p
    | .a ipAddress, _ =>
      if hostMatch.a ∧ ipAddress = r.ipAddress then
        { p with hostReplyMask := { p.hostReplyMask with a := false } }
      else p
    | _, _ => p
  else p

def resolveHost (r : Responder) : Responder := r.modifyHostProbe .resolve

/-- The host's tiebreak. -/
def hostTiebreak (record : ResourceRecord) (r : Responder) : Responder :=
  if r.hostProbe.tiebreakNeeded then
    match r.hostDomain, record.rdata with
    | some host, .a ipAddress =>
      if record.header.domain.compare host then
        -- the higher address wins; one's own is that of an old message
        if ipAddress ≠ r.ipAddress ∧ r.ipAddress < ipAddress then
          (r.event (.lost .host)).cancelProbingForHost.resolveHost
        else r.resolveHost
      else r
    | _, _ => r
  else r

/-- The target of a record is the host. -/
def isTarget (r : Responder) (srvDomain : RRDomain) : Bool :=
  match r.hostDomain with
  | some host => host.compare srvDomain
  | none => false

/-- A planned answer of a service that is known. -/
def knownServiceAnswer (r : Responder) (record : ResourceRecord) (s : Service) : Service :=
  let serviceMatch := s.replyMask.inter (s.replyMask? record.header).1
  if serviceMatch.any ∧ serviceTTL / 2 ≤ record.ttl then
    match record.rdata with
    | .ptr ptrDomain =>
      { s with replyMask := { s.replyMask with
        ptrType := s.replyMask.ptrType &&
          !(serviceMatch.ptrType && (s.buildDomain false).compare ptrDomain)
        ptrName := s.replyMask.ptrName &&
          !(serviceMatch.ptrName && (s.buildDomain true).compare ptrDomain) } }
    | .srv priority weight port srvDomain =>
      if serviceMatch.srv ∧ r.isTarget srvDomain ∧ priority = 0 ∧ weight = 0 ∧ s.port = port then
        { s with replyMask := { s.replyMask with srv := false } }
      else s
    | .txt txts =>
      if serviceMatch.txt ∧ s.txts.compare txts then
        { s with replyMask := { s.replyMask with txt := false } }
      else s
    | _ => s
  else s

def resolveService (i : Nat) (r : Responder) : Responder := r.modifyProbe i .resolve

/-- A service's tiebreak. -/
def serviceTiebreak (record : ResourceRecord) (i : Nat) (s : Service) (r : Responder) :
    Responder :=
  if s.probe.tiebreakNeeded ∧ record.header.domain.compare (s.buildDomain true) then
    match record.rdata with
    | .srv _ _ _ srvDomain =>
      if r.isTarget srvDomain then r.resolveService i
      else if srvDomain.greater (r.hostDomain.getD .cleared) then
        ((r.event (.lost (.service i))).cancelProbingForService i s).2.resolveService i
      else r.resolveService i
    | _ => r
  else r

/-- One known answer and one service. -/
def knownAnswerForService (record : ResourceRecord) (i : Nat) (r : Responder) : Responder :=
  (r.modifyService i (knownServiceAnswer r record)).withService i (serviceTiebreak record i)

/-- One known answer. -/
def parseRecord (record : ResourceRecord) (p : SendParameter) (r : Responder) :
    SendParameter × Responder :=
  if record.header.type ≠ typeANY ∧ record.header.class' ≠ classANY then
    (r.knownHostAnswer record p, (r.hostTiebreak record).forServices (knownAnswerForService record))
  else (p, r)

/-- The loop over the known answers. -/
def parseRecords : Nat → List ResourceRecord → SendParameter → Responder →
    Bool × SendParameter × Responder
  | 0, _, p, r => (true, p, r)
  | _ + 1, [], p, r => (false, p, r)
  | count + 1, record :: records, p, r =>
    let (p, r) := parseRecord record p r
    parseRecords count records p r

/-- Tiebreaks that were not solved. -/
def resetTiebreaks (r : Responder) : Responder :=
  { r with
    hostProbe := r.hostProbe.resolve
    services := r.services.map fun s => { s with probe := s.probe.resolve } }

/-- The reply, if one is needed. -/
def replyTo (p : SendParameter) (r : Responder) : Option Message × Responder :=
  if r.needsReply p then
    r.sendMDNSMessage { p with response := true, authorative := true }
  else (none, r)

/-- `_parseQuery`: the reply, if one is sent. -/
def parseQuery (q : Query) (r : Responder) : Option Message × Responder :=
  let (read, p, r) := parseQuestions q q.questionCount q.questions .new r
  let (read, p, r) := if read then parseRecords q.recordCount q.records p r else (false, p, r)
  let (reply, r) := if read then r.replyTo p else (none, r)
  (reply, r.resetTiebreaks)

/-! ### Responses -/

/-- A response as it is read, and how often the loop goes over its records, which is decided by
the service queries. -/
structure Response where
  complete : Bool
  records : List ResourceRecord
  awaitingAnswers : Bool
  rounds : Nat

def hasProbesWaitingForAnswers (r : Responder) : Bool :=
  (r.hostProbe.probingStatus = .inProgress && 0 < r.hostProbe.sentCount) ||
    r.services.any fun s => s.probe.probingStatus = .inProgress && 0 < s.probe.sentCount

def isAddress (record : ResourceRecord) : Bool :=
  match record.rdata with
  | .a _ => true
  | _ => false

def isInstance (record : ResourceRecord) : Bool :=
  match record.rdata with
  | .txt _ | .srv _ _ _ _ => true
  | _ => false

/-- The host's probing conflict. -/
def hostConflict (record : ResourceRecord) (r : Responder) : Responder :=
  match r.hostDomain with
  | some host =>
    if r.hostProbe.probingStatus = .inProgress ∧ isAddress record ∧
        record.header.domain.compare host then r.cancelProbingForHost
    else r
  | none => r

/-- A service's probing conflict. -/
def serviceConflict (record : ResourceRecord) (i : Nat) (s : Service) (r : Responder) :
    Responder :=
  if s.probe.probingStatus = .inProgress ∧ isInstance record ∧
      record.header.domain.compare (s.buildDomain true) then
    (r.cancelProbingForService i s).2
  else r

def processAnswer (record : ResourceRecord) (r : Responder) : Responder :=
  ((r.event (.answer record)).hostConflict record).forServices fun i =>
    withService i (serviceConflict record i)

/-- `_processAnswers`, as far as probing is concerned. -/
def processAnswers (records : List ResourceRecord) : Nat → Responder → Responder
  | 0, r => r
  | rounds + 1, r =>
    processAnswers records rounds (records.foldl (fun r record => processAnswer record r) r)

/-- `_parseResponse`; the records are collected in front of each other. -/
def parseResponse (response : Response) (r : Responder) : Responder :=
  if (response.awaitingAnswers || r.hasProbesWaitingForAnswers) && response.complete then
    processAnswers response.records.reverse response.rounds r
  else r

/-! ### Runs -/

inductive Action where
  | update (now random : UInt32)
  | query (q : Query)
  | response (response : Response)
  | call (c : Call)
  | address (ip : UInt32)

/-- What happens, with what the sketch does in callbacks and which messages can be sent. -/
structure Request where
  action : Action
  sends : List Bool
  sketch : List (List Call)

/-- One step, and the reply to a query. -/
def step (request : Request) (r : Responder) : Option Message × Responder :=
  let r := { r with sends := request.sends, sketch := request.sketch }
  match request.action with
  | .update now random => (none, r.updateProbeStatus now random)
  | .query q => r.parseQuery q
  | .response response => (none, r.parseResponse response)
  | .call c => (none, r.call none c)
  | .address ip => (none, { r with ipAddress := ip })

/-- The responder when `begin` has restarted it: every name it has is ready to be probed. -/
def started (hostname : Hostname) (ipAddress : UInt32) (subnets : List (UInt32 × UInt32))
    (resultCallback passivModeEnabled : Bool) : Responder where
  hostname := some hostname
  hostProbe := { ProbeInformation.new with
    probingStatus := .readyToStart
    resultCallback := resultCallback }
  services := []
  passivModeEnabled := passivModeEnabled
  ipAddress := ipAddress
  subnets := subnets
  sends := []
  sketch := []
  log := [.named .host (buildDomainForHost (some hostname)) 0]

/-! ### What the sketch can do -/

theorem getElem?_modifyService (r : Responder) (f : Service → Service) (i k : Nat) :
    (r.modifyService i f).services[k]? =
      if i = k then r.services[k]?.map f else r.services[k]? := by
  rw [modifyService, List.getElem?_modify]
  split
  · rfl
  · exact Option.map_id'

theorem forServices_keeps {P : Responder → Prop} {f : Nat → Responder → Responder} {r : Responder}
    (keeps : ∀ i r, P r → P (f i r)) (holds : P r) : P (r.forServices f) := by
  rw [forServices]
  induction List.range r.services.length with
  | nil => exact holds
  | cons i rest ih => exact keeps i _ ih

theorem withService_keeps {P : Responder → Prop} {f : Service → Responder → Responder} {i : Nat}
    {r : Responder} (keeps : ∀ s, r.services[i]? = some s → P r → P (f s r)) (holds : P r) :
    P (r.withService i f) := by
  rw [withService]
  cases found : r.services[i]? with
  | none => exact holds
  | some s => exact keeps s found holds

/-- What holds behind every call of the sketch, if it held before. The owner is the one whose
probing is done when the sketch is called back. -/
structure Closed (P : Option Owner → Responder → Prop) : Prop where
  oracles : ∀ {o r} sends sketch,
    P o r → P o { r with sends := sends, sketch := sketch }
  hostNamed : ∀ {o r} name, P o r → P o (r.renameHost o name)
  serviceNamed : ∀ {o r} name i s, r.services[i]? = some s →
    P o r → P o (renameService o name i s r)
  added : ∀ {o r} s, s.replyMask = .zero →
    s.probe = { ProbeInformation.new with probingStatus := .readyToStart } →
    P o r → P o (r.append s)
  hostTold : ∀ {o r} set, P o r → P o (r.modifyHostProbe (.setResultCallback set))
  serviceTold : ∀ {o r} i set, P o r → P o (r.modifyProbe i (.setResultCallback set))

namespace Closed

variable {P : Option Owner → Responder → Prop} {o : Option Owner} {r : Responder}

theorem setHostname (closed : Closed P) (name : Option WString) (holds : P o r) :
    P o (r.setHostname o name) := by
  have named := closed.hostNamed name holds
  rw [Responder.setHostname]
  split
  · refine forServices_keeps (fun i r holds => ?_) named
    refine withService_keeps (fun s found holds => ?_) holds
    split
    · exact closed.serviceNamed name i s found holds
    · exact holds
  · exact named

theorem addService (closed : Closed P) (name service protocol : Option WString) (port : UInt16)
    (holds : P o r) : P o (r.addService name service protocol port) := by
  unfold Responder.addService
  split
  · rename_i service protocol _ _
    simp only
    split
    · exact closed.added (allocService _ name.isNone service protocol port) rfl rfl holds
    · exact holds
  · exact holds

theorem call (closed : Closed P) (c : Call) (holds : P o r) :
    P o (r.call o c) := by
  cases c with
  | setHostname name => exact closed.setHostname name holds
  | setServiceName i name =>
    rw [Responder.call, setServiceName]
    split
    · exact withService_keeps (fun s found holds => closed.serviceNamed name i s found holds) holds
    · exact holds
  | addService name service protocol port =>
    exact closed.addService name service protocol port holds
  | setHostProbeResultCallback set => exact closed.hostTold set holds
  | setServiceProbeResultCallback i set => exact closed.serviceTold i set holds

theorem callback (closed : Closed P) (holds : P o r) :
    P o (r.callback o) := by
  have calls : ∀ (cs : List Call) (r : Responder), P o r →
      P o (cs.foldl (fun r c => r.call o c) r) := by
    intro cs
    induction cs with
    | nil => intro r holds; exact holds
    | cons c cs ih => intro r holds; exact ih _ (closed.call c holds)
  exact calls _ _ (closed.oracles r.sends r.sketch.tail holds)

theorem cancelProbingForService (closed : Closed P) (i : Nat) (s : Service)
    (cleared : P none (r.clearService i)) : P none (r.cancelProbingForService i s).2 := by
  rw [Responder.cancelProbingForService]
  split
  · exact closed.callback cleared
  · exact cleared

theorem cancelServices (closed : Closed P)
    (clears : ∀ {r : Responder} (i : Nat), P none r → P none (r.clearService i))
    (services : List Nat) :
    ∀ {r : Responder}, P none r → P none (Responder.cancelServices services r) := by
  induction services with
  | nil => intro r holds; exact holds
  | cons i rest ih =>
    intro r holds
    rw [Responder.cancelServices]
    cases r.services[i]? with
    | none => exact ih holds
    | some s =>
      have cancelled := closed.cancelProbingForService i s (clears i holds)
      simp only
      split
      · exact cancelled
      · exact ih cancelled

theorem cancelProbingForHost (closed : Closed P)
    (clears : ∀ {r : Responder} (i : Nat), P none r → P none (r.clearService i))
    (cleared : P none r.clearHost) : P none r.cancelProbingForHost := by
  rw [Responder.cancelProbingForHost]
  split
  · exact closed.callback cleared
  · exact closed.cancelServices clears _ cleared

end Closed

end Responder

end Esp8266.Source.Mdns
