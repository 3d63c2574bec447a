import Esp8266.Lib.Decimal
import Esp8266.Source.Updater
import Esp8266.Source.WString

/-!
# ArduinoOTA

libraries/ArduinoOTA/ArduinoOTA.cpp with the parts of UdpContext.h and MD5Builder.cpp that it
uses. A `char` is unsigned, as on the target. What the updater, the TCP client and the clock
answer is given from outside; mDNS, the debug output and the callbacks themselves are left out.
-/
set_option autoImplicit false

namespace Esp8266.Source.Ota
open Esp8266.Lib.Decimal Esp8266.Source.Updater Esp8266.Source.WString

/-! ## MD5 -/

def IsHexDigit (c : UInt8) : Prop := (0x30 ≤ c ∧ c ≤ 0x39) ∨ (0x61 ≤ c ∧ c ≤ 0x66)

/-- An MD5 sum as `toString` prints it. -/
structure Digest where
  text : WString
  length_text : text.length = 32
  hex : ∀ c ∈ text, IsHexDigit c

/-- `begin`, `add` of a string, `calculate` and `toString`. The length that `add` takes has
16 bits. -/
def md5Builder (md5 : List UInt8 → Digest) (data : WString) : WString :=
  (md5 ((cstr data).take ((cstr data).length % 2 ^ 16))).text

/-! ## UdpContext -/

structure Datagram where
  bytes : List UInt8
  address : Nat
  port : Nat

structure UdpContext where
  /-- What is not yet read of the current datagram. -/
  rxBuf : Option (List UInt8)
  /-- The datagrams that are chained behind it. -/
  chained : List Datagram
  firstBufTaken : Bool
  srcAddr : Nat
  srcPort : Nat
  txBuf : List UInt8
  /-- The datagrams that were sent, the last one first. -/
  sent : List Datagram

namespace UdpContext

def init : UdpContext := ⟨none, [], false, 0, 0, [], []⟩

/-- The part of `_recv` before the handler is called. -/
def recv (d : Datagram) (udp : UdpContext) : UdpContext :=
  match udp.rxBuf with
  | some _ => { udp with chained := udp.chained ++ [d] }
  | none =>
    { udp with
      srcAddr := d.address
      srcPort := d.port
      firstBufTaken := false
      rxBuf := some d.bytes }

def next (udp : UdpContext) : Bool × UdpContext :=
  match udp.rxBuf with
  | none => (false, udp)
  | some _ =>
    if !udp.firstBufTaken then (true, { udp with firstBufTaken := true })
    else
      match udp.chained with
      | [] => (false, { udp with rxBuf := none })
      | d :: chained =>
        (true, { udp with rxBuf := some d.bytes, chained, srcAddr := d.address, srcPort := d.port })

/-- `while(_udp_ota->next()) _udp_ota->flush();`, with fuel for the datagrams that are there. -/
def flushAll : Nat → UdpContext → UdpContext
  | 0, udp => udp
  | fuel + 1, udp =>
    let (more, udp) := udp.next
    if more then flushAll fuel { udp with rxBuf := udp.rxBuf.map fun _ => [] } else udp

def append (data : List UInt8) (udp : UdpContext) : UdpContext :=
  { udp with txBuf := udp.txBuf ++ data }

def send (address port : Nat) (udp : UdpContext) : UdpContext :=
  { udp with txBuf := [], sent := ⟨udp.txBuf, address, port⟩ :: udp.sent }

end UdpContext

/-! ## ArduinoOTAClass -/

inductive OtaState where
  | idle | waitAuth | runUpdate
deriving DecidableEq, Repr

/-- `U_AUTH`. -/
def uAuth : Nat := 200

structure ArduinoOTAClass where
  password : WString
  nonce : WString
  udp : UdpContext
  initialized : Bool
  rebootOnSuccess : Bool
  state : OtaState
  size : Nat
  cmd : Nat
  otaPort : Nat
  otaUdpPort : Nat
  otaIp : Nat
  md5 : WString

namespace ArduinoOTAClass

/-- ArduinoOTA.cpp:33; the UDP port of the inviter is not initialised. -/
def construct (otaUdpPort : Nat) : ArduinoOTAClass where
  password := []
  nonce := []
  udp := .init
  initialized := false
  rebootOnSuccess := true
  state := .idle
  size := 0
  cmd := 0
  otaPort := 0
  otaUdpPort := otaUdpPort
  otaIp := 0
  md5 := []

/-- ArduinoOTA.cpp:89. -/
def setPassword (md5 : List UInt8 → Digest) (password : WString) (s : ArduinoOTAClass) :
    ArduinoOTAClass :=
  if !s.initialized ∧ s.password.length = 0 then { s with password := md5Builder md5 password }
  else s

/-- ArduinoOTA.cpp:99. -/
def setPasswordHash (password : WString) (s : ArduinoOTAClass) : ArduinoOTAClass :=
  if !s.initialized ∧ s.password.length = 0 then { s with password := cstr password } else s

def setRebootOnSuccess (reboot : Bool) (s : ArduinoOTAClass) : ArduinoOTAClass :=
  { s with rebootOnSuccess := reboot }

/-- ArduinoOTA.cpp:109, when the port can be listened on. -/
def begin (s : ArduinoOTAClass) : ArduinoOTAClass :=
  if s.initialized then s else { s with udp := .init, initialized := true, state := .idle }

/-! ## The tokens of a datagram -/

/-- `atoi` of digits, which stops at the largest `int`. -/
def atoi (data : WString) : Nat := min (value data) (2 ^ 31 - 1)

/-- The loop over `index`; `room` is what is left of `data`. -/
def parseDigits : Nat → WString → List UInt8 → Nat × List UInt8
  | 0, _, bytes => (0, bytes)
  | _ + 1, data, [] => (atoi data, [])
  | room + 1, data, c :: bytes =>
    if c < 0x30 ∨ c > 0x39 then (atoi data, c :: bytes)
    else parseDigits room (data ++ [c]) bytes

/-- ArduinoOTA.cpp:154, on what is left of the datagram. -/
def parseInt (bytes : List UInt8) : Nat × List UInt8 :=
  parseDigits 16 [] (bytes.dropWhile (· = 0x20))

/-- ArduinoOTA.cpp:170, on what is left of the datagram. -/
def readStringUntil (stop : UInt8) : List UInt8 → WString × List UInt8
  | [] => ([], [])
  | c :: bytes =>
    if c = 0 ∨ c = stop then ([], bytes)
    else
      let (res, bytes) := readStringUntil stop bytes
      (c :: res, bytes)

/-! ## _onRx -/

/-- A token from the current datagram. -/
def token {α : Type} (parse : List UInt8 → α × List UInt8) (s : ArduinoOTAClass) :
    α × ArduinoOTAClass :=
  let (found, bytes) := parse (s.udp.rxBuf.getD [])
  (found, { s with udp := { s.udp with rxBuf := some bytes } })

/-- `_udp_ota->read()` with the byte dropped. -/
def skip (s : ArduinoOTAClass) : ArduinoOTAClass := (s.token fun bytes => ((), bytes.drop 1)).2

def answer (text : WString) (s : ArduinoOTAClass) : ArduinoOTAClass :=
  { s with udp := (s.udp.append text).send s.otaIp s.otaUdpPort }

/-- The part of `_onRx` for OTA_IDLE, and whether it goes on behind it. -/
def onInvitation (md5 : List UInt8 → Digest) (micros : Nat) (s : ArduinoOTAClass) :
    Bool × ArduinoOTAClass :=
  let (cmd, s) := s.token parseInt
  if cmd ≠ uFlash ∧ cmd ≠ uFs then (false, s)
  else
    let s := { s with otaIp := s.udp.srcAddr, cmd }
    let (port, s) := s.token parseInt
    let s := { s with otaPort := port % 2 ^ 16, otaUdpPort := s.udp.srcPort }
    let (size, s) := s.token parseInt
    let s := { s with size }.skip
    let (md5Text, s) := s.token (readStringUntil 0x0a)
    let s := { s with md5 := md5Text.trim }
    if s.md5.length ≠ 32 then (false, s)
    else if s.password.length ≠ 0 then
      let s := { s with nonce := md5Builder md5 (decimal micros) }
      let s := s.answer (ofString "AUTH " ++ s.nonce)
      (false, { s with state := .waitAuth })
    else (true, { s with state := .runUpdate })

/-- The part of `_onRx` for OTA_WAITAUTH, and whether it goes on behind it. -/
def onResponse (md5 : List UInt8 → Digest) (s : ArduinoOTAClass) : Bool × ArduinoOTAClass :=
  let (cmd, s) := s.token parseInt
  if cmd ≠ uAuth then (false, { s with state := .idle })
  else
    let s := s.skip
    let (cnonce, s) := s.token (readStringUntil 0x20)
    let (response, s) := s.token (readStringUntil 0x0a)
    if cnonce.length ≠ 32 ∨ response.length ≠ 32 then (false, { s with state := .idle })
    else
      let challenge := s.password ++ [0x3a] ++ s.nonce ++ [0x3a] ++ cnonce
      let result := md5Builder md5 challenge
      if result.equalsConstantTime response then (true, { s with state := .runUpdate })
      else (true, { s.answer (ofString "Authentication Failed") with state := .idle })

/-- ArduinoOTA.cpp:183; `micros` is what the clock says. -/
def onRx (md5 : List UInt8 → Digest) (micros : Nat) (s : ArduinoOTAClass) : ArduinoOTAClass :=
  let (more, udp) := s.udp.next
  let s := { s with udp }
  if !more then s
  else
    let (goesOn, s) :=
      match s.state with
      | .idle => s.onInvitation md5 micros
      | .waitAuth => s.onResponse md5
      | .runUpdate => (true, s)
    if goesOn then { s with udp := s.udp.flushAll (s.udp.chained.length + 2) } else s

end ArduinoOTAClass

/-! ## _runUpdate

The network stack runs, and with it `_onRx`, whenever `_runUpdate` waits or a callback lets
it. `Pc` names these places; between two of them the code runs through. -/

inductive Pc where
  /-- Not in `handle`. -/
  | outside
  /-- In the delay after a failed `Update.begin`. -/
  | refused
  /-- In the delay after the OK. -/
  | accepted
  /-- In `_start_callback`. -/
  | starting
  /-- In the first `_progress_callback`. -/
  | announced
  | connecting
  /-- In `_error_callback(OTA_CONNECT_ERROR)`. -/
  | notConnected
  /-- At the head of the loop, with `total`. -/
  | receiving (total : Nat)
  /-- In `_error_callback(OTA_RECEIVE_ERROR)`. -/
  | late (total : Nat)
  /-- In `Update.write`. -/
  | writing (total : Nat)
  /-- In the delay before the OK is printed. -/
  | flushed
  /-- In the delays and the callback after it. -/
  | succeeded
  /-- In `_error_callback(OTA_END_ERROR)`. -/
  | failed
  | restarted
deriving DecidableEq

/-- What the code between two places is told. -/
structure Answer where
  /-- What `Update.begin`, `client.connect` or `Update.end` returns. -/
  ok : Bool
  /-- `!Update.isFinished() && (client.connected() || client.available())`. -/
  again : Bool
  /-- `waited` is zero behind the loop that waits for data. -/
  late : Bool
  /-- What `Update.write` returns. -/
  written : Nat
  /-- What `Update.printError` prints. -/
  error : WString

/-- The calls that pass on what the invitation said. -/
inductive Call where
  | begin (size cmd : Nat)
  | setMD5 (expected : WString)
  | connect (address port : Nat)
  | progress (total size : Nat)
deriving DecidableEq

structure Device where
  ota : ArduinoOTAClass
  pc : Pc
  /-- What was printed to the client of the update. -/
  printed : List UInt8

namespace Device

def print (text : List UInt8) (d : Device) : Device := { d with printed := d.printed ++ text }

def setState (state : OtaState) (d : Device) : Device := { d with ota := { d.ota with state } }

/-- The end of `handle`. -/
def handled (d : Device) : Device := { d.setState .idle with pc := .outside }

/-- `handle` or `_runUpdate` up to the next place (ArduinoOTA.cpp:255-370). -/
def goOn (a : Answer) (d : Device) : List Call × Device :=
  match d.pc with
  | .outside =>
    if d.ota.state = .runUpdate then
      let d := { d with printed := [] }
      if a.ok then
        ([.begin d.ota.size d.ota.cmd],
          { d with ota := d.ota.answer (ofString "OK"), pc := .accepted })
      else
        ([.begin d.ota.size d.ota.cmd],
          { d with ota := d.ota.answer (ofString "ERR: " ++ a.error), pc := .refused })
    else ([], d)
  | .refused => ([], (d.setState .idle).handled)
  | .accepted => ([.setMD5 d.ota.md5], { d with pc := .starting })
  | .starting => ([.progress 0 d.ota.size], { d with pc := .announced })
  | .announced => ([.connect d.ota.otaIp d.ota.otaPort], { d with pc := .connecting })
  | .connecting => ([], { d with pc := if a.ok then .receiving 0 else .notConnected })
  | .notConnected => ([], { d.setState .idle with pc := .receiving 0 })
  | .receiving total =>
    if a.again then ([], { d with pc := if a.late then .late total else .writing total })
    else ([], { d with pc := if a.ok then .flushed else .failed })
  | .late total => ([], { d.setState .idle with pc := .writing total })
  | .writing total =>
    if 0 < a.written then
      let total := total + a.written
      ([.progress total d.ota.size],
        { d.print (decimal a.written) with pc := .receiving total })
    else ([], { d with pc := .receiving total })
  | .flushed => ([], { d.print (ofString "OK") with pc := .succeeded })
  | .succeeded =>
    if d.ota.rebootOnSuccess then ([], { d with pc := .restarted }) else ([], d.handled)
  | .failed => ([], ((d.print a.error).setState .idle).handled)
  | .restarted => ([], d)

/-- A datagram comes in, at the time that the clock says. -/
def receive (md5 : List UInt8 → Digest) (datagram : Datagram) (micros : Nat) (d : Device) : Device :=
  if d.pc = .restarted then d
  else { d with ota := { d.ota with udp := d.ota.udp.recv datagram }.onRx md5 micros }

end Device

inductive Event where
  | receive (datagram : Datagram) (micros : Nat)
  | goOn (answer : Answer)

/-- One event: a datagram, or the task that calls `handle` goes on. -/
def step (md5 : List UInt8 → Digest) (event : Event) (d : Device) : List Call × Device :=
  match event with
  | .receive datagram micros => ([], d.receive md5 datagram micros)
  | .goOn answer => d.goOn answer

end Esp8266.Source.Ota
