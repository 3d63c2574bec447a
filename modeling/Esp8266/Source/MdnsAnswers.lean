import Esp8266.Source.WString

/-!
# The answers of MDNSResponder

libraries/ESP8266mDNS/src/LEAmDNS_Control.cpp:749-1122 and 1677-1979, with the structures of
LEAmDNS_Structs.cpp and the accessors of LEAmDNS.cpp:1020-1237. Lists linked through `m_pNext` are
lists, from `m_pAnswers` on; a pointer into one is an index. Callbacks are left out, and so are the
check for names that are being probed, which is about other members, and a lack of memory.
-/
set_option autoImplicit false

namespace Esp8266.Source.Mdns
open Esp8266.Source.WString

/-! ## stcMDNS_RRDomain -/

/-- A label of a name that was read or built: its first two bits do not mark a redirection, and
the empty one ends a name. -/
abbrev Label := {bytes : WString // bytes ≠ [] ∧ bytes.length ≤ 63}

/-- What `_readRRDomain` reads: labels and the empty one that ends them. -/
abbrev Name := List Label

/-- `m_acName` with `m_u16NameLength`. -/
inductive RRDomain where
  | cleared
  | named (labels : Name)
deriving DecidableEq

instance : Coe Name RRDomain := ⟨.named⟩

def toLower (c : UInt8) : UInt8 := if 0x41 ≤ c ∧ c ≤ 0x5a then c + 0x20 else c

/-- `strncasecmp` of two labels of one length is 0: it stops at a NUL. -/
def sameContent (s t : WString) : Bool := (cstr s).map toLower = (cstr t).map toLower

def compareLabels : List Label → List Label → Bool
  | [], [] => true
  | label :: labels, other :: others =>
    label.1.length = other.1.length && sameContent label.1 other.1 && compareLabels labels others
  | _, _ => false

namespace RRDomain

/-- `m_u16NameLength`, the byte that ends the name included. -/
def nameLength : RRDomain → Nat
  | cleared => 0
  | named labels => (labels.map fun label => label.1.length + 1).sum + 1

def labels : RRDomain → List Label
  | cleared => []
  | named labels => labels

/-- `compare`, which is `operator==` and the negation of `operator!=`. -/
def compare (domain other : RRDomain) : Bool :=
  domain.nameLength = other.nameLength && compareLabels domain.labels other.labels

/-- `c_strLength`. -/
def cStrLength (domain : RRDomain) : Nat :=
  (domain.labels.map fun label => label.1.length + 1).sum

/-- What `c_str` writes, without the NUL at its end. -/
def cStr (domain : RRDomain) : WString :=
  (domain.labels.map (·.1)).intersperse [0x2e] |>.flatten

end RRDomain

/-! ## stcMDNSServiceTxts -/

/-- `stcMDNSServiceTxt`. Both members are strings of C; the reader links no item without a key. -/
structure Txt where
  key : WString
  value : Option WString
  keyed : key ≠ []
deriving DecidableEq

abbrev Txts := List Txt

def Txt.length (txt : Txt) : Nat := txt.key.length + 1 + (txt.value.getD []).length

/-- The copy that `operator=` makes of an item: an empty value is none. -/
def Txt.copy (txt : Txt) : Txt := { txt with value := txt.value.filter (· ≠ []) }

namespace Txts

/-- `length`, a `uint16_t`. -/
def length (txts : Txts) : Nat := (txts.map fun txt => 1 + txt.length).sum % 2 ^ 16

def find (txts : Txts) (key : WString) : Option Txt := List.find? (fun txt => txt.key = key) txts

/-- Every item is in `other` with the same value. -/
def covered (txts other : Txts) : Bool :=
  List.all txts fun txt => match other.find txt.key, txt.value with
    | some ⟨_, some otherValue, _⟩, some value => value = otherValue
    | _, _ => false

def compare (txts other : Txts) : Bool :=
  txts.length = other.length && txts.covered other && other.covered txts

/-- `operator=`: each copy is put in front of those before. -/
def assign (other : Txts) : Txts := (List.map Txt.copy other).reverse

/-- `c_str`, without the NUL at its end. -/
def cStr (txts : Txts) : WString :=
  (List.map (fun txt : Txt => txt.key ++ 0x3d :: txt.value.getD []) txts).intersperse [0x3b]
    |>.flatten

end Txts

/-! ## stcTTL -/

/-- `esp8266::polledTimeout::oneShotMs`, in milliseconds. -/
structure OneShotMs where
  start : UInt32
  timeout : UInt32
  neverExpires : Bool
deriving DecidableEq

namespace OneShotMs

def reset (now newUserTimeout : UInt32) : OneShotMs :=
  ⟨now, newUserTimeout, newUserTimeout > 0xfffffffe⟩

def resetToNeverExpires (t : OneShotMs) : OneShotMs := { t with timeout := 1, neverExpires := true }

def expired (now : UInt32) (t : OneShotMs) : Bool :=
  t.timeout = 0 || (!t.neverExpires && now - t.start ≥ t.timeout)

end OneShotMs

structure TTL where
  ttl : UInt32
  ttlTimeout : OneShotMs
  timeoutLevel : UInt8
deriving DecidableEq

namespace TTL

def levelUnset : UInt8 := 0
def levelBase : UInt8 := 80
def levelInterval : UInt8 := 5
def levelFinal : UInt8 := 100

/-- The constructor, at the time `now`. -/
def new (now : UInt32) : TTL := ⟨0, .reset now 0xffffffff, levelUnset⟩

def timeout (t : TTL) : UInt32 :=
  if t.timeoutLevel = levelBase then t.ttl * 800
  else if levelBase < t.timeoutLevel ∧ t.timeoutLevel ≤ levelFinal then t.ttl * 50
  else 0xffffffff

def set (now ttl : UInt32) (t : TTL) : TTL :=
  if ttl ≠ 0 then ⟨ttl, .reset now (ttl * 800), levelBase⟩
  else ⟨0, t.ttlTimeout.resetToNeverExpires, levelUnset⟩

def flagged (now : UInt32) (t : TTL) : Bool :=
  t.ttl ≠ 0 && t.timeoutLevel ≠ levelUnset && t.ttlTimeout.expired now

def restart (now : UInt32) (t : TTL) : Bool × TTL :=
  if levelBase ≤ t.timeoutLevel ∧ t.timeoutLevel < levelFinal then
    let t := { t with timeoutLevel := t.timeoutLevel + levelInterval }
    (true, { t with ttlTimeout := .reset now t.timeout })
  else
    (false, { t with
      ttlTimeout := t.ttlTimeout.resetToNeverExpires, timeoutLevel := levelUnset })

def prepareDeletion (now : UInt32) (t : TTL) : TTL :=
  { t with timeoutLevel := levelFinal, ttlTimeout := .reset now 1000 }

def finalTimeoutLevel (t : TTL) : Bool := t.timeoutLevel = levelFinal

/-- What a record with this TTL does to that of its part: an update, or a goodbye. -/
def refresh (now ttl : UInt32) (t : TTL) : TTL :=
  if ttl ≠ 0 then t.set now ttl else t.prepareDeletion now

end TTL

/-! ## stcAnswer -/

structure IP4Address where
  ipAddress : UInt32
  ttl : TTL
deriving DecidableEq

/-- `m_u32ContentFlags`, one field for each `ServiceQueryAnswerType`. -/
structure ContentFlags where
  serviceDomain : Bool
  hostDomainAndPort : Bool
  txts : Bool
  ip4Address : Bool
deriving DecidableEq

structure Answer where
  serviceDomain : RRDomain
  /-- The texts are made by the accessors, on demand. -/
  pcServiceDomain : Option WString
  ttlServiceDomain : TTL
  hostDomain : RRDomain
  pcHostDomain : Option WString
  port : UInt16
  ttlHostDomainAndPort : TTL
  txts : Txts
  pcTxts : Option WString
  ttlTxts : TTL
  ip4Addresses : List IP4Address
  contentFlags : ContentFlags
deriving DecidableEq

/-- The constructor, at the time `now`. -/
def Answer.new (now : UInt32) : Answer :=
  ⟨.cleared, none, .new now, .cleared, none, 0, .new now, [], none, .new now, [],
    ⟨false, false, false, false⟩⟩

/-- `stcMDNSServiceQuery`. -/
structure ServiceQuery where
  serviceTypeDomain : RRDomain
  legacyQuery : Bool
  sentCount : UInt8
  resendTimeout : OneShotMs
  awaitingAnswers : Bool
  answers : List Answer
deriving DecidableEq

namespace ServiceQuery

def findAnswerForServiceDomain (q : ServiceQuery) (serviceDomain : RRDomain) : Option Nat :=
  q.answers.findIdx? fun answer => answer.serviceDomain.compare serviceDomain

def findAnswerForHostDomain (q : ServiceQuery) (hostDomain : RRDomain) : Option Nat :=
  q.answers.findIdx? fun answer => answer.hostDomain.compare hostDomain

def addAnswer (q : ServiceQuery) (answer : Answer) : ServiceQuery :=
  { q with answers := answer :: q.answers }

/-- `f` on the answer with this index. -/
def modifyAnswer (q : ServiceQuery) (i : Nat) (f : Answer → Answer) : ServiceQuery :=
  { q with answers := q.answers.modify i f }

end ServiceQuery

/-! ## _processAnswers -/

/-- `stcMDNS_RRAnswer` and those derived from it, with `m_Header.m_Domain` and `m_u32TTL`. -/
inductive RRAnswer where
  | ptr (domain : Name) (ttl : UInt32) (ptrDomain : Name)
  | srv (domain : Name) (ttl : UInt32) (port : UInt16) (srvDomain : Name)
  | txt (domain : Name) (ttl : UInt32) (txts : Txts)
  | a (domain : Name) (ttl : UInt32) (ipAddress : UInt32)
  | generic (domain : Name) (ttl : UInt32)
deriving DecidableEq

/-- `_processPTRAnswer` for one query, and whether it found a new key answer.
`_findNextServiceQueryByServiceType` passes over queries for another type. -/
def processPTRAnswer (now : UInt32) (domain : RRDomain) (ttl : UInt32) (ptrDomain : RRDomain)
    (q : ServiceQuery) : Bool × ServiceQuery :=
  if domain.compare q.serviceTypeDomain && q.awaitingAnswers then
    match q.findAnswerForServiceDomain ptrDomain with
    | some i => (false, q.modifyAnswer i fun answer =>
        { answer with ttlServiceDomain := answer.ttlServiceDomain.refresh now ttl })
    | none =>
      if ttl ≠ 0 then
        let answer := Answer.new now
        (true, q.addAnswer { answer with
          serviceDomain := ptrDomain
          ttlServiceDomain := answer.ttlServiceDomain.set now ttl
          contentFlags := { answer.contentFlags with serviceDomain := true }
          pcServiceDomain := none })
      else (false, q)
  else (false, q)

/-- The host domain or the port of an answer is another than that of the record. -/
def Answer.differs (answer : Answer) (port : UInt16) (srvDomain : RRDomain) : Bool :=
  !answer.hostDomain.compare srvDomain || answer.port ≠ port

/-- What `_processSRVAnswer` does to the answer it finds. -/
def Answer.processSRV (now ttl : UInt32) (port : UInt16) (srvDomain : RRDomain) (answer : Answer) :
    Answer :=
  let differs := answer.differs port srvDomain
  let answer :=
    { answer with ttlHostDomainAndPort := answer.ttlHostDomainAndPort.refresh now ttl }
  if ttl ≠ 0 ∧ differs then
    { answer with
      hostDomain := srvDomain
      pcHostDomain := none
      port := port
      contentFlags := { answer.contentFlags with hostDomainAndPort := true } }
  else answer

/-- `_processSRVAnswer` for one query. -/
def processSRVAnswer (now : UInt32) (domain : RRDomain) (ttl : UInt32) (port : UInt16)
    (srvDomain : RRDomain) (q : ServiceQuery) : Bool × ServiceQuery :=
  match q.findAnswerForServiceDomain domain with
  | some i =>
    (ttl ≠ 0 && (q.answers[i]?.any fun answer => answer.differs port srvDomain),
      q.modifyAnswer i (Answer.processSRV now ttl port srvDomain))
  | none => (false, q)

/-- What `_processTXTAnswer` does to the answer it finds. -/
def Answer.processTXT (now ttl : UInt32) (txts : Txts) (answer : Answer) : Answer :=
  let differs := !answer.txts.compare txts
  let answer := { answer with ttlTxts := answer.ttlTxts.refresh now ttl }
  if ttl ≠ 0 ∧ differs then
    { answer with
      txts := Txts.assign txts
      contentFlags := { answer.contentFlags with txts := true }
      pcTxts := none }
  else answer

/-- `_processTXTAnswer` for one query. -/
def processTXTAnswer (now : UInt32) (domain : RRDomain) (ttl : UInt32) (txts : Txts)
    (q : ServiceQuery) : ServiceQuery :=
  match q.findAnswerForServiceDomain domain with
  | some i => q.modifyAnswer i (Answer.processTXT now ttl txts)
  | none => q

/-- What `_processAAnswer` does to the answer it finds. -/
def Answer.processA (now ttl ipAddress : UInt32) (answer : Answer) : Answer :=
  match answer.ip4Addresses.findIdx? (·.ipAddress = ipAddress) with
  | some i => { answer with ip4Addresses := answer.ip4Addresses.modify i fun address =>
      { address with ttl := address.ttl.refresh now ttl } }
  | none =>
    if ttl ≠ 0 then
      { answer with
        ip4Addresses := ⟨ipAddress, (TTL.new now).set now ttl⟩ :: answer.ip4Addresses
        contentFlags := { answer.contentFlags with ip4Address := true } }
    else answer

/-- `_processAAnswer` for one query. -/
def processAAnswer (now : UInt32) (domain : RRDomain) (ttl ipAddress : UInt32)
    (q : ServiceQuery) : ServiceQuery :=
  match q.findAnswerForHostDomain domain with
  | some i => q.modifyAnswer i (Answer.processA now ttl ipAddress)
  | none => q

/-- A record with one query, and whether it found a new key answer. -/
def processRecord (now : UInt32) (record : RRAnswer) (q : ServiceQuery) : Bool × ServiceQuery :=
  match record with
  | .ptr domain ttl ptrDomain => processPTRAnswer now domain ttl ptrDomain q
  | .srv domain ttl port srvDomain => processSRVAnswer now domain ttl port srvDomain q
  | .txt domain ttl txts => (false, processTXTAnswer now domain ttl txts q)
  | .a domain ttl ipAddress => (false, processAAnswer now domain ttl ipAddress q)
  | .generic _ _ => (false, q)

/-- A handler goes through `m_pServiceQueries`. -/
def processQueries (now : UInt32) (record : RRAnswer) (queries : List ServiceQuery) :
    Bool × List ServiceQuery :=
  (queries.any fun q => (processRecord now record q).1,
    queries.map fun q => (processRecord now record q).2)

/-- The inner loop of `_processAnswers`. The handler of its n-th record reads `clock n`. -/
def processAll (clock : Nat → UInt32) : List RRAnswer → List ServiceQuery →
    Bool × List ServiceQuery
  | [], queries => (false, queries)
  | record :: records, queries =>
    let (found, queries) := processQueries (clock 0) record queries
    let (foundMore, queries) := processAll (fun n => clock (n + 1)) records queries
    (found || foundMore, queries)

/-- `_processAnswers`, whose outer loop goes on while there are new key answers; nothing if the
fuel does not suffice. -/
def processAnswers (clock : Nat → UInt32) (records : List RRAnswer) :
    Nat → List ServiceQuery → Option (List ServiceQuery)
  | 0, _ => none
  | fuel + 1, queries =>
    let (foundNewKeyAnswer, queries) := processAll clock records queries
    if foundNewKeyAnswer then
      processAnswers (fun n => clock (n + records.length)) records fuel queries
    else some queries

/-! ## _checkServiceQueryCache -/

/-- What a check finds timed out. -/
inductive Loss where
  | answer (serviceDomain : RRDomain)
  | hostDomainAndPort (serviceDomain : RRDomain)
  | txts (serviceDomain : RRDomain)
  | ip4Address (serviceDomain : RRDomain) (ipAddress : UInt32)

/-- `_sendMDNSServiceQuery` and `_sendMDNSQuery`: whether it succeeds is said by the first of
`sends`, and it does where these end. -/
def send (sends : List Bool) : Bool × List Bool := (sends.headD true, sends.tail)

/-- A query for an update, and the next level of its TTL. -/
def scheduleUpdate (now : UInt32) (sends : List Bool) (t : TTL) : Bool × List Bool × TTL :=
  let (sent, sends) := send sends
  if sent then
    let (restarted, t) := t.restart now
    (restarted, sends, t)
  else (false, sends, t)

def checkHostDomainAndPort (now : UInt32) (sends : List Bool) (answer : Answer) :
    Bool × List Bool × Answer × List Loss :=
  if answer.ttlHostDomainAndPort.flagged now then
    if !answer.ttlHostDomainAndPort.finalTimeoutLevel then
      let (result, sends, ttl) := scheduleUpdate now sends answer.ttlHostDomainAndPort
      (result, sends, { answer with ttlHostDomainAndPort := ttl }, [])
    else
      (true, sends, { answer with
        hostDomain := .cleared
        pcHostDomain := none
        port := 0
        ttlHostDomainAndPort := answer.ttlHostDomainAndPort.set now 0
        ip4Addresses := []
        contentFlags :=
          { answer.contentFlags with hostDomainAndPort := false, ip4Address := false } },
        [.hostDomainAndPort answer.serviceDomain])
  else (true, sends, answer, [])

def checkTxts (now : UInt32) (sends : List Bool) (answer : Answer) :
    Bool × List Bool × Answer × List Loss :=
  if answer.ttlTxts.flagged now then
    if !answer.ttlTxts.finalTimeoutLevel then
      let (result, sends, ttl) := scheduleUpdate now sends answer.ttlTxts
      (result, sends, { answer with ttlTxts := ttl }, [])
    else
      -- `m_pcTxts` is not released
      (true, sends, { answer with
        txts := []
        ttlTxts := answer.ttlTxts.set now 0
        contentFlags := { answer.contentFlags with txts := false } },
        [.txts answer.serviceDomain])
  else (true, sends, answer, [])

/-- The loop over the addresses: those that stay, and those that do not. -/
def addressLoop (now : UInt32) : Bool → List Bool → List IP4Address →
    Bool × List Bool × List IP4Address × List UInt32
  | _, sends, [] => (true, sends, [], [])
  | aUpdateQuerySent, sends, address :: addresses =>
    if address.ttl.flagged now then
      if !address.ttl.finalTimeoutLevel then
        let (sent, sends) := if aUpdateQuerySent then (true, sends) else send sends
        if sent then
          let (result, sends, kept, lost) := addressLoop now true sends addresses
          (result, sends, { address with ttl := (address.ttl.restart now).2 } :: kept, lost)
        else (false, sends, address :: addresses, [])
      else
        let (result, sends, kept, lost) := addressLoop now aUpdateQuerySent sends addresses
        (result, sends, kept, address.ipAddress :: lost)
    else
      let (result, sends, kept, lost) := addressLoop now aUpdateQuerySent sends addresses
      (result, sends, address :: kept, lost)

def checkIP4Addresses (now : UInt32) (sends : List Bool) (answer : Answer) :
    Bool × List Bool × Answer × List Loss :=
  let (result, sends, kept, lost) := addressLoop now false sends answer.ip4Addresses
  (result, sends, { answer with
    ip4Addresses := kept
    contentFlags := if lost ≠ [] ∧ kept = [] then
      { answer.contentFlags with ip4Address := false } else answer.contentFlags },
    lost.map (.ip4Address answer.serviceDomain))

/-- One check of an answer behind another, which is left out if that failed. -/
def andThen (first second : List Bool → Answer → Bool × List Bool × Answer × List Loss)
    (sends : List Bool) (answer : Answer) : Bool × List Bool × Answer × List Loss :=
  let (result, sends, answer, lost) := first sends answer
  if result then
    let (result, sends, answer, lostMore) := second sends answer
    (result, sends, answer, lost ++ lostMore)
  else (false, sends, answer, lost)

/-- The levels of an answer below the first. -/
def checkParts (now : UInt32) : List Bool → Answer → Bool × List Bool × Answer × List Loss :=
  andThen (andThen (checkHostDomainAndPort now) (checkTxts now)) (checkIP4Addresses now)

/-- The loop over the answers of a query. -/
def answerLoop (now : UInt32) : List Bool → List Answer →
    Bool × List Bool × List Answer × List Loss
  | sends, [] => (true, sends, [], [])
  | sends, answer :: answers =>
    let goOn (sends : List Bool) (answer : Answer) :=
      let (result, sends, answer, lost) := checkParts now sends answer
      if result then
        let (result, sends, answers, lostMore) := answerLoop now sends answers
        (result, sends, answer :: answers, lost ++ lostMore)
      else (false, sends, answer :: answers, lost)
    if answer.ttlServiceDomain.flagged now then
      if !answer.ttlServiceDomain.finalTimeoutLevel then
        let (result, sends, ttl) := scheduleUpdate now sends answer.ttlServiceDomain
        let answer := { answer with ttlServiceDomain := ttl }
        if result then goOn sends answer else (false, sends, answer :: answers, [])
      else
        -- `pSQAnswer = 0` ends the loop
        (true, sends, answers, [.answer answer.serviceDomain])
    else goOn sends answer

/-- `MDNS_DYNAMIC_QUERY_RESEND_COUNT` -/
def resendCount : UInt8 := 5

/-- A dynamic query is sent again. -/
def resendQuery (now : UInt32) (sends : List Bool) (q : ServiceQuery) :
    Bool × List Bool × ServiceQuery :=
  if !q.legacyQuery && q.sentCount < resendCount && q.resendTimeout.expired now then
    let (sent, sends) := send sends
    if sent then
      let sentCount := q.sentCount + 1
      (true, sends, { q with
        sentCount := sentCount
        resendTimeout := .reset now
          (if sentCount < resendCount then 5000 * (sentCount - 1).toUInt32 else 0xffffffff) })
    else (false, sends, q)
  else (true, sends, q)

def checkQuery (now : UInt32) (sends : List Bool) (q : ServiceQuery) :
    Bool × List Bool × ServiceQuery × List Loss :=
  let (result, sends, q) := resendQuery now sends q
  if result && q.awaitingAnswers then
    let (result, sends, answers, lost) := answerLoop now sends q.answers
    (result, sends, { q with answers := answers }, lost)
  else (result, sends, q, [])

/-- `_checkServiceQueryCache` at the time `now`. -/
def checkServiceQueryCache (now : UInt32) : List Bool → List ServiceQuery →
    Bool × List (ServiceQuery × List Loss)
  | _, [] => (true, [])
  | sends, q :: queries =>
    let (result, sends, q, lost) := checkQuery now sends q
    if result then
      let (result, checked) := checkServiceQueryCache now sends queries
      (result, (q, lost) :: checked)
    else (false, (q, lost) :: queries.map fun q => (q, []))

/-! ## The accessors -/

namespace Answer

/-- `answerServiceDomain`: the text is made if there is none. -/
def answerServiceDomain (answer : Answer) : Option WString × Answer :=
  if answer.serviceDomain.nameLength ≠ 0 ∧ answer.pcServiceDomain = none then
    let text := if answer.serviceDomain.cStrLength ≠ 0 then some answer.serviceDomain.cStr else none
    (text, { answer with pcServiceDomain := text })
  else (answer.pcServiceDomain, answer)

def answerHostDomain (answer : Answer) : Option WString × Answer :=
  if answer.hostDomain.nameLength ≠ 0 ∧ answer.pcHostDomain = none then
    let text := if answer.hostDomain.cStrLength ≠ 0 then some answer.hostDomain.cStr else none
    (text, { answer with pcHostDomain := text })
  else (answer.pcHostDomain, answer)

def answerTxts (answer : Answer) : Option WString × Answer :=
  if answer.txts ≠ [] ∧ answer.pcTxts = none then
    let text := if answer.txts.length ≠ 0 then some answer.txts.cStr else none
    (text, { answer with pcTxts := text })
  else (answer.pcTxts, answer)

end Answer

end Esp8266.Source.Mdns
