import Mathlib.Data.List.Basic

/-!
# The data path of WiFiClientSecure

ESP8266WiFi/src/WiFiClientSecureBearSSL.cpp:212-215, 253-558 over an engine that is known by its
buffers only. What the loops depend on besides is said for each round: the state of the
connection, the room for writing, what `WiFiClient::write` accepts and what `WiFiClient::read`
returns; the time is up where the rounds end. `_client` is there, and what the lower `flush` waits
for has no part in the data.
-/
set_option autoImplicit false

namespace Esp8266.Source.BearSSL

/-- The bits of `br_ssl_engine_current_state`. -/
structure EngineState where
  closed : Bool
  sendrec : Bool
  recvrec : Bool
  sendapp : Bool
  recvapp : Bool
  deriving DecidableEq

/-- `BR_SSL_CLOSED` -/
def EngineState.onlyClosed : EngineState := ⟨true, false, false, false, false⟩

/-- The functions of `br_ssl_engine_context` for its four buffers. Acknowledging what was written
to a buffer comes with the bytes; `recvapp` and `sendrec` are what waits behind the pointers that
the others return. -/
structure Engine (E : Type*) where
  currentState : E → EngineState
  sendappLen : E → Nat
  sendappAck : List UInt8 → E → E
  recvappLen : E → Nat
  recvapp : E → List UInt8
  recvappAck : Nat → E → E
  sendrecLen : E → Nat
  sendrec : E → List UInt8
  sendrecAck : Nat → E → E
  recvrecLen : E → Nat
  recvrecAck : List UInt8 → E → E
  flush : E → E

/-- `br_ssl_engine_recvapp_buf`, which is null where no byte is offered. -/
def Engine.recvappBuf {E : Type*} (engine : Engine E) (e : E) : Option Nat :=
  if engine.recvappLen e = 0 then none else some (engine.recvappLen e)

/-- One round of `_run_until`. -/
structure Round where
  established : Bool
  /-- Whether bytes are left behind a connection that is gone. -/
  remaining : Bool
  availableForWrite : Nat
  accepted : Nat
  available : Bool
  /-- What `WiFiClient::read` returns; none if that is negative. -/
  arrived : Option (List UInt8)

/-- `_recvapp_buf` is null where there is no length. What went to TCP and what came from there is
kept as well. -/
structure WiFiClientSecure (E : Type*) where
  eng : E
  ctxPresent : Bool
  handshakeDone : Bool
  recvappLen : Option Nat
  rounds : List (List Round)
  clientConnected : List Bool
  toTcp : List UInt8
  fromTcp : List UInt8

namespace WiFiClientSecure

variable {E : Type*} (engine : Engine E)

/-- Record data goes to TCP. -/
def sendRecord (wlen : Nat) (c : WiFiClientSecure E) : WiFiClientSecure E :=
  { c with
    eng := engine.sendrecAck wlen c.eng
    toTcp := c.toTcp ++ (engine.sendrec c.eng).take wlen }

/-- Record data comes from TCP. -/
def receiveRecord (bytes : List UInt8) (c : WiFiClientSecure E) : WiFiClientSecure E :=
  if bytes = [] then c
  else { c with
    eng := engine.recvrecAck bytes c.eng
    fromTcp := c.fromTcp ++ bytes }

def engineFlush (c : WiFiClientSecure E) : WiFiClientSecure E :=
  { c with eng := engine.flush c.eng }

/-- What is written: a write that does not block takes what there is room for. -/
def writable (blocking : Bool) (round : Round) (len : Nat) : Nat :=
  min round.accepted
    (if !blocking ∧ round.availableForWrite < len then round.availableForWrite else len)

/-- The loop of `_run_until`. -/
def runLoop (target : EngineState → Bool) (blocking : Bool) :
    List Round → Nat → WiFiClientSecure E → Bool × WiFiClientSecure E
  | [], _, c => (false, c)
  | round :: rest, noWork, c =>
    let state := engine.currentState c.eng
    if !blocking ∧ 2 ≤ noWork then (false, c)
    else if state.closed then (false, c)
    else if !round.established ∧ !round.remaining then (target state, c)
    else if state.sendrec then
      let wlen := writable blocking round (engine.sendrecLen c.eng)
      if wlen = 0 then (false, c)
      else runLoop target blocking rest 0 (c.sendRecord engine wlen)
    else if target state then (true, c)
    else if state.recvapp then (false, c)
    else if state.recvrec ∧ round.available then
      match round.arrived with
      | none => (false, c)
      | some bytes =>
        runLoop target blocking rest 0
          (c.receiveRecord engine (bytes.take (engine.recvrecLen c.eng)))
    else runLoop target blocking rest (noWork + 1) (c.engineFlush engine)

/-- `_run_until`: true where it returns 0. -/
def runUntil (target : EngineState → Bool) (blocking : Bool) (c : WiFiClientSecure E) :
    Bool × WiFiClientSecure E :=
  if c.ctxPresent then
    runLoop engine target blocking (c.rounds.headD []) 0 { c with rounds := c.rounds.tail }
  else (false, c)

/-- Received data is offered, or not. -/
def offer (c : WiFiClientSecure E) : Nat × WiFiClientSecure E :=
  let state := engine.currentState c.eng
  if state = .onlyClosed then (0, c)
  else if state.recvapp then
    (engine.recvappLen c.eng, { c with recvappLen := engine.recvappBuf c.eng })
  else (0, c)

def available (c : WiFiClientSecure E) : Nat × WiFiClientSecure E :=
  match c.recvappLen with
  | some len => (len, c)
  | none =>
    let (ok, c) := c.runUntil engine EngineState.recvapp false
    if ok then c.offer engine else (0, c)

def connected (c : WiFiClientSecure E) : Bool × WiFiClientSecure E :=
  let (avail, c) := c.available engine
  if avail ≠ 0 then (true, c)
  else
    (c.clientConnected.headD false && c.handshakeDone &&
        decide (engine.currentState c.eng ≠ .onlyClosed),
      { c with clientConnected := c.clientConnected.tail })

/-- Data is taken from the buffer. -/
def take (size : Nat) (c : WiFiClientSecure E) : List UInt8 × WiFiClientSecure E :=
  let toCopy := min (c.recvappLen.getD 0) size
  ((engine.recvapp c.eng).take toCopy,
    { c with eng := engine.recvappAck toCopy c.eng, recvappLen := none })

/-- `read(buf, size)`: none for -1. -/
def read (size : Nat) (c : WiFiClientSecure E) : Option (List UInt8) × WiFiClientSecure E :=
  if !c.ctxPresent || !c.handshakeDone then (none, c)
  else
    let (avail, c) := c.available engine
    let (conn, c) := c.connected engine
    if avail = 0 then (if conn then some [] else none, c)
    else
      let (bytes, c) := c.take engine size
      (some bytes, c)

/-- `read()` -/
def readByte (c : WiFiClientSecure E) : Option UInt8 × WiFiClientSecure E :=
  match c.read engine 1 with
  | (some [byte], c) => (some byte, c)
  | (_, c) => (none, c)

def peek (c : WiFiClientSecure E) : Option UInt8 × WiFiClientSecure E :=
  if !c.ctxPresent then (none, c)
  else
    let (avail, c) := c.available engine
    if avail = 0 then (none, c)
    else if c.recvappLen.getD 0 = 0 then (none, c)
    else ((engine.recvapp c.eng).head?, c)

/-- The loop of `peekBytes`, which ends in time. -/
def peekWait (length : Nat) : Nat → WiFiClientSecure E → WiFiClientSecure E
  | 0, c => (c.available engine).2
  | polls + 1, c =>
    let (avail, c) := c.available engine
    if avail < length then peekWait length polls c else c

def peekBytes (length polls : Nat) (c : WiFiClientSecure E) :
    List UInt8 × WiFiClientSecure E :=
  if !c.ctxPresent then ([], c)
  else
    let c := c.peekWait engine length polls
    ((engine.recvapp c.eng).take (min (c.recvappLen.getD 0) length), c)

def flush (c : WiFiClientSecure E) : WiFiClientSecure E :=
  (c.runUntil engine EngineState.sendapp true).2

/-- Data is given to the engine. -/
def give (bytes : List UInt8) (c : WiFiClientSecure E) : WiFiClientSecure E :=
  (engineFlush engine { c with eng := engine.sendappAck bytes c.eng }).flush engine

/-- The loop of `_write`, with the number of bytes left for its rounds. -/
def writeLoop : Nat → List UInt8 → WiFiClientSecure E → Nat × WiFiClientSecure E
  | 0, _, c => (0, c)
  | size + 1, buf, c =>
    let (ok, c) := c.runUntil engine EngineState.sendapp true
    if ok ∧ (engine.currentState c.eng).sendapp then
      let toSend := buf.take (engine.sendappLen c.eng)
      let left := buf.drop (engine.sendappLen c.eng)
      let c := c.give engine toSend
      if left = [] then (toSend.length, c)
      else
        let (sent, c) := writeLoop size left c
        (toSend.length + sent, c)
    else (0, c)

/-- `_write`, and `write` and `write_P`, which differ in how the memory is read. -/
def write (buf : List UInt8) (c : WiFiClientSecure E) : Nat × WiFiClientSecure E :=
  let (conn, c) := c.connected engine
  if !conn || buf.isEmpty || !c.handshakeDone then (0, c)
  else writeLoop engine buf.length buf c

/-- The loop over what `readBytes` returns. -/
def streamLoop : List (List UInt8) → WiFiClientSecure E → Nat × WiFiClientSecure E
  | [], c => (0, c)
  | temp :: rest, c =>
    if temp = [] then (0, c)
    else
      let (countSent, c) := c.write engine temp
      if countSent = temp.length then
        let (sent, c) := streamLoop rest c
        (countSent + sent, c)
      else (countSent, c)

/-- `write(stream)` -/
def writeStream (chunks : List (List UInt8)) (c : WiFiClientSecure E) :
    Nat × WiFiClientSecure E :=
  let (conn, c) := c.connected engine
  if !conn || !c.handshakeDone then (0, c) else streamLoop engine chunks c

/-! ### Calls -/

inductive Call where
  | read (size : Nat)
  | readByte
  | peek
  | peekBytes (length polls : Nat)
  | available
  | write (buf : List UInt8)
  | writeP (buf : List UInt8)
  | writeStream (chunks : List (List UInt8))
  | flush

inductive Answer where
  | count (n : Nat)
  | byte (byte : Option UInt8)
  | bytes (bytes : Option (List UInt8))
  | done
  deriving DecidableEq

structure Request where
  call : Call
  rounds : List (List Round)
  clientConnected : List Bool

def step (request : Request) (c : WiFiClientSecure E) : Answer × WiFiClientSecure E :=
  let c := { c with rounds := request.rounds, clientConnected := request.clientConnected }
  match request.call with
  | .read size => let (bytes, c) := c.read engine size; (.bytes bytes, c)
  | .readByte => let (byte, c) := c.readByte engine; (.byte byte, c)
  | .peek => let (byte, c) := c.peek engine; (.byte byte, c)
  | .peekBytes length polls =>
    let (bytes, c) := c.peekBytes engine length polls
    (.bytes (some bytes), c)
  | .available => let (n, c) := c.available engine; (.count n, c)
  | .write buf | .writeP buf => let (n, c) := c.write engine buf; (.count n, c)
  | .writeStream chunks => let (n, c) := c.writeStream engine chunks; (.count n, c)
  | .flush => (.done, c.flush engine)

end WiFiClientSecure

end Esp8266.Source.BearSSL
