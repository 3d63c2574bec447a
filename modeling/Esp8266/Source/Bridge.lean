import Mathlib.Data.List.Basic

/-!
# The UART/TCP bridge

UartToTcp/main.cpp:79-190 with the parts of WiFiClient.cpp and ClientContext.h that it looks at.
A client is a connection with what its peer sent, as far as it has arrived; how much a
connection or the UART can take is given from outside, one answer for each time it is asked.
-/
set_option autoImplicit false

namespace Esp8266.Source

/-- `ClientContext::state`, with every state but two taken together. -/
inductive TcpState where
  | closed
  | established
  | other
deriving DecidableEq

structure Client where
  state : TcpState
  /-- What has arrived and is not read yet. -/
  unread : List UInt8
  /-- All that has arrived. -/
  sent : List UInt8
  /-- What was read and written to the UART. -/
  toUart : List UInt8
  /-- What was written to the client. -/
  received : List UInt8

def Client.fresh : Client := ⟨.established, [], [], [], []⟩

/-- A `WiFiClient` and its `_client`. -/
abbrev Slot := Option Client

namespace Slot

def available : Slot → Nat
  | none => 0
  | some c => c.unread.length

def connected : Slot → Bool
  | none => false
  | some c =>
    if c.state = .closed then false
    else decide (c.state = .established) || decide (0 < available (some c))

/-- `operator bool`. -/
def toBool (slot : Slot) : Bool := decide (0 < slot.available) || slot.connected

/-- `room` is `tcp_sndbuf`. -/
def availableForWrite (slot : Slot) (room : Nat) : Nat :=
  match slot with
  | none => 0
  | some _ => room

/-- `write` of a block that the client has room for. -/
def write (slot : Slot) (block : List UInt8) : Slot :=
  slot.map fun c => { c with received := c.received ++ block }

end Slot

/-- `MAX_SRV_CLIENTS`. -/
def maxSrvClients : Nat := 2

/-- `STACK_PROTECTOR`. -/
def stackProtector : Nat := 512

/-- What one iteration is told: the answers of `uart.availableForWrite`, the rooms of the clients
when the block size is determined and when the block is pushed, and how many bytes
`uart.readBytes` gets before its timeout. -/
structure Pass where
  txRoom : List Nat
  rooms : Nat → Nat
  later : Nat → Nat
  got : Nat

structure Bridge where
  serverClients : List Slot
  /-- Connections that the server has accepted and nobody has taken. -/
  unclaimed : List Client
  uartRx : List UInt8
  /-- The clients that were replaced, and those that were turned away. -/
  replaced : List Client
  rejected : List Client
  /-- The blocks that were read from the UART. -/
  blocks : List (List UInt8)

namespace Bridge

def init : Bridge := ⟨List.replicate maxSrvClients none, [], [], [], [], []⟩

/-- The text `busy` and a line end. -/
def busy : List UInt8 := [98, 117, 115, 121, 13, 10]

/-- A new client gets the first slot that is free, or is turned away. -/
def accept (s : Bridge) : Bridge :=
  match s.unclaimed with
  | [] => s
  | c :: unclaimed =>
    match s.serverClients.findIdx? fun slot => !slot.toBool with
    | some i =>
      { s with
        serverClients := s.serverClients.set i (some c)
        unclaimed
        replaced := s.replaced ++ (s.serverClients.getD i none).toList }
    | none =>
      { s with
        unclaimed
        rejected := s.rejected ++ [{ c with received := c.received ++ busy }] }

/-- The inner loop of the way to the UART: the bytes that are written, and the answers that are
left. -/
def drain : List UInt8 → List Nat → List UInt8 × List Nat
  | [], txRoom => ([], txRoom)
  | _ :: _, [] => ([], [])
  | byte :: unread, room :: txRoom =>
    if 0 < room then
      let (written, txRoom) := drain unread txRoom
      (byte :: written, txRoom)
    else ([], txRoom)

/-- Checks the TCP clients for data. -/
def drainClients : List Slot → List Nat → List Slot
  | [], _ => []
  | none :: slots, txRoom => none :: drainClients slots txRoom
  | some c :: slots, txRoom =>
    let (written, txRoom) := drain c.unread txRoom
    some { c with
      unread := c.unread.drop written.length
      toUart := c.toUart ++ written } :: drainClients slots txRoom

def toUart (txRoom : List Nat) (s : Bridge) : Bridge :=
  { s with serverClients := drainClients s.serverClients txRoom }

/-- The step of the loop that determines `maxToTcp`. -/
def takeRoom (rooms : Nat → Nat) (maxToTcp : Nat) (entry : Slot × Nat) : Nat :=
  if entry.1.toBool then
    let afw := entry.1.availableForWrite (rooms entry.2)
    if afw ≠ 0 then
      if maxToTcp = 0 then afw else min maxToTcp afw
    else maxToTcp
  else maxToTcp

def maxToTcp (rooms : Nat → Nat) (slots : List Slot) : Nat :=
  slots.zipIdx.foldl (takeRoom rooms) 0

/-- Pushes the block to every client with room for it. -/
def push (later : Nat → Nat) (block : List UInt8) (slots : List Slot) : List Slot :=
  slots.mapIdx fun i slot =>
    if block.length ≤ slot.availableForWrite (later i) then slot.write block else slot

/-- The part of the loop behind the way to the UART. -/
def fromUart (p : Pass) (s : Bridge) : Bridge :=
  let len := min (min s.uartRx.length (maxToTcp p.rooms s.serverClients)) stackProtector
  if len ≠ 0 then
    let sbuf := s.uartRx.take (min len p.got)
    { s with
      uartRx := s.uartRx.drop sbuf.length
      serverClients := push p.later sbuf s.serverClients
      blocks := s.blocks ++ [sbuf] }
  else s

def loop (p : Pass) (s : Bridge) : Bridge := ((s.accept).toUart p.txRoom).fromUart p

/-! ## What happens between two iterations -/

inductive Peer where
  | receive (bytes : List UInt8)
  | become (state : TcpState)

def Peer.apply : Peer → Client → Client
  | .receive bytes, c => { c with unread := c.unread ++ bytes, sent := c.sent ++ bytes }
  | .become state, c => { c with state := state }

inductive Action where
  | connect
  | client (slot : Nat) (peer : Peer)
  | unclaimed (index : Nat) (peer : Peer)
  | uartReceive (bytes : List UInt8)
  | uartLose (count : Nat)
  | loop (p : Pass)

def act : Action → Bridge → Bridge
  | .connect, s => { s with unclaimed := s.unclaimed ++ [.fresh] }
  | .client slot peer, s =>
    { s with serverClients := s.serverClients.modify slot (Option.map peer.apply) }
  | .unclaimed index peer, s => { s with unclaimed := s.unclaimed.modify index peer.apply }
  | .uartReceive bytes, s => { s with uartRx := s.uartRx ++ bytes }
  | .uartLose count, s => { s with uartRx := s.uartRx.drop count }
  | .loop p, s => s.loop p

end Bridge
end Esp8266.Source
