import Esp8266.Source.Pbuf

/-!
# The receive side of a TCP connection

ESP8266WiFi/src/include/ClientContext.h:63-122, 233-315, 566-640. `none` stands for a step that
the source does not survive: a read outside of a pbuf or through a null or released pointer, or
a loop that does not end. Lengths are numbers; the total length of a chain, 16 bits wide in the
source, is taken to hold it. `recved` is the credit that `tcp_recved` was given.
-/
set_option autoImplicit false

namespace Esp8266.Source

/-- A pbuf that lwIP delivers holds at least one byte. -/
structure Segment where
  bytes : List UInt8
  bytes_ne : bytes ≠ []

structure ClientContext where
  /-- `_pcb` is set. -/
  pcb : Bool
  rxBuf : List (Pbuf Unit)
  rxBufOffset : Nat
  recved : Nat

namespace ClientContext

/-- A context for a connection just made. -/
def fresh : ClientContext := ⟨true, [], 0, 0⟩

/-- `abort`: nothing is received any more. -/
def abort (c : ClientContext) : ClientContext := { c with pcb := false }

/-- `close`. -/
def close (c : ClientContext) : ClientContext := { c with pcb := false }

/-- `_error`. -/
def error (c : ClientContext) : ClientContext := { c with pcb := false }

def getSize (c : ClientContext) : Nat :=
  if c.rxBuf = [] then 0 else Pbuf.totLen c.rxBuf - c.rxBufOffset

/-- `tcp_recved`, for a connection that is there. -/
def credit (size : Nat) (c : ClientContext) : ClientContext :=
  if c.pcb then { c with recved := c.recved + size } else c

/-- `_consume`. -/
def consume (size : Nat) (c : ClientContext) : Option ClientContext :=
  let c := c.credit size
  match c.rxBuf with
  | [] => none
  | head :: next =>
    let left : Int := head.len - c.rxBufOffset - size
    if 0 < left then some { c with rxBufOffset := c.rxBufOffset + size }
    else if next = [] then some { c with rxBuf := [], rxBufOffset := 0 }
    else
      (Pbuf.afterFree 1 (head :: Pbuf.reference next)).map fun rxBuf =>
        { c with rxBuf, rxBufOffset := 0 }

/-- `read()`. -/
def read (c : ClientContext) : Option (UInt8 × ClientContext) :=
  match c.rxBuf with
  | [] => some (0, c)
  | head :: _ => do
    let byte ← head.payload[c.rxBufOffset]?
    let c ← c.consume 1
    some (byte, c)

/-- The loop of `read(dst, size)`. A round that consumes nothing repeats for ever. -/
def readLoop : Nat → Nat → ClientContext → Option (List UInt8 × ClientContext)
  | _, 0, c => some ([], c)
  | 0, _ + 1, _ => none
  | fuel + 1, size@(_ + 1), c =>
    match c.rxBuf with
    | [] => none
    | head :: _ => do
      let copySize := min size (head.len - c.rxBufOffset)
      let copied := (head.payload.drop c.rxBufOffset).take copySize
      let c ← c.consume copySize
      let (bytes, c) ← readLoop fuel (size - copySize) c
      some (copied ++ bytes, c)

/-- `read(dst, size)`. -/
def readBytes (size : Nat) (c : ClientContext) : Option (List UInt8 × ClientContext) :=
  if c.rxBuf = [] then some ([], c)
  else
    let size := min size (Pbuf.totLen c.rxBuf - c.rxBufOffset)
    readLoop size size c

/-- `peek()`. -/
def peek (c : ClientContext) : Option UInt8 :=
  match c.rxBuf with
  | [] => some 0
  | head :: _ => head.payload[c.rxBufOffset]?

def peekBytes (size : Nat) (c : ClientContext) : List UInt8 :=
  match c.rxBuf with
  | [] => []
  | head :: next =>
    let size := min size (Pbuf.totLen (head :: next) - c.rxBufOffset)
    (head.payload.drop c.rxBufOffset).take (min size (head.len - c.rxBufOffset))

def discardReceived (c : ClientContext) : ClientContext :=
  if c.rxBuf = [] then c
  else { c.credit (Pbuf.totLen c.rxBuf) with rxBuf := [], rxBufOffset := 0 }

/-- `_recv` of a chain. -/
def recv (pb : List (Pbuf Unit)) (c : ClientContext) : ClientContext :=
  if c.rxBuf = [] then { c with rxBuf := pb, rxBufOffset := 0 }
  else { c with rxBuf := Pbuf.cat c.rxBuf pb }

/-- `_recv` without a pbuf: the peer has closed the connection. -/
def recvClosed (c : ClientContext) : ClientContext :=
  if c.rxBuf ≠ [] ∧ Pbuf.totLen c.rxBuf ≠ 0 then c else c.abort

end ClientContext

/-! ## The life of a context -/

/-- What lwIP and the sketch call. -/
inductive ClientCall where
  | recv (head : Segment) (rest : List Segment)
  | recvClosed
  | error
  | close
  | read
  | readBytes (size : Nat)
  | peek
  | peekBytes (size : Nat)

/-- A context with the history of the pbufs received and the bytes that `read` returned. A
`read()` that finds nothing returns 0, and no byte of the stream. -/
structure ClientLife where
  context : ClientContext
  received : List Segment
  returned : List UInt8

namespace ClientLife

def fresh : ClientLife := ⟨.fresh, [], []⟩

/-- The pbufs of a delivered chain. -/
def chain (segments : List Segment) : List (Pbuf Unit) :=
  segments.map fun segment => Pbuf.fresh segment.bytes

def step (call : ClientCall) (life : ClientLife) : Option ClientLife :=
  match call with
  | .recv head rest => some { life with
      context := life.context.recv (chain (head :: rest))
      received := life.received ++ head :: rest }
  | .recvClosed => some { life with context := life.context.recvClosed }
  | .error => some { life with context := life.context.error }
  | .close => some { life with context := life.context.close }
  | .read => life.context.read.map fun (byte, context) => { life with
      context
      returned := life.returned ++ if life.context.rxBuf = [] then [] else [byte] }
  | .readBytes size => (life.context.readBytes size).map fun (bytes, context) => { life with
      context
      returned := life.returned ++ bytes }
  | .peek => life.context.peek.map fun _ => life
  | .peekBytes _ => some life

/-- Make the calls in order. -/
def run : List ClientCall → ClientLife → Option ClientLife
  | [], life => some life
  | call :: rest, life => (life.step call).bind (run rest)

end ClientLife
end Esp8266.Source
