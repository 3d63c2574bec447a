import Mathlib.Algebra.Group.Nat.Defs
import Esp8266.Source.Pbuf

/-!
# The receive side of a UDP socket

ESP8266WiFi/src/include/UdpContext.h:237-388, 469-480, 513-603. Addresses, of either version of
IP, and network interfaces are what they are: `A` and `N`. `none` stands for a failed assertion
or a read through a released pointer, and as the answer of `read` and `peek` for -1. `char` is
unsigned with the compiler of the platform. The offsets given to lwIP are 16 bits wide.
-/
set_option autoImplicit false

namespace Esp8266.Source

/-- What lwIP delivers: a chain of at least one pbuf, and where it came from. `tot_len` has 16
bits. -/
structure Datagram (A N : Type*) where
  pbufs : List (List UInt8)
  pbufs_ne : pbufs ≠ []
  short : pbufs.flatten.length < 2 ^ 16
  srcaddr : A
  dstaddr : A
  srcport : UInt16
  netif : N

structure AddrHelper (A N : Type*) where
  srcaddr : A
  dstaddr : A
  srcport : Int16
  inputNetif : N

structure UdpContext (A N : Type*) where
  rxBuf : List (Pbuf (AddrHelper A N))
  firstBufTaken : Bool
  rxBufOffset : Nat
  rxBufSize : Nat
  currentAddr : AddrHelper A N

namespace UdpContext

variable {A N : Type*}

/-- A new context; its address is not initialised. -/
def fresh (currentAddr : AddrHelper A N) : UdpContext A N := ⟨[], false, 0, 0, currentAddr⟩

/-- `rxBufMaxDepth`. -/
def rxBufMaxDepth : Nat := 4

/-- A flagged pbuf, with the object built in its memory. -/
def helper (memory : List UInt8) (addr : AddrHelper A N) : Pbuf (AddrHelper A N) :=
  ⟨memory, some addr, 1⟩

def addrHelper (d : Datagram A N) : AddrHelper A N :=
  ⟨d.srcaddr, d.dstaddr, d.srcport.toInt16, d.netif⟩

/-- The pbufs of a datagram. -/
def chain (d : Datagram A N) : List (Pbuf (AddrHelper A N)) := d.pbufs.map Pbuf.fresh

def getSize (u : UdpContext A N) : Nat :=
  if u.rxBuf = [] then 0 else u.rxBufSize - u.rxBufOffset

def isValidOffset (pos : Nat) (u : UdpContext A N) : Bool := decide (pos ≤ u.rxBufSize)

def seek (pos : Nat) (u : UdpContext A N) : Option (UdpContext A N) :=
  if u.isValidOffset pos then some { u with rxBufOffset := pos } else none

def getRemoteAddress (u : UdpContext A N) : A := u.currentAddr.srcaddr

def getRemotePort (u : UdpContext A N) : UInt16 := u.currentAddr.srcport.toUInt16

/-- `_processSize`: the bytes in front of the next helper. -/
def processSize : List (Pbuf (AddrHelper A N)) → Nat
  | [] => 0
  | pb :: rest => if pb.object.isSome then 0 else pb.len + processSize rest

/-- The walk of `next` to a helper, or to the end of the chain: the pbufs passed, and the rest. -/
def walk : List (Pbuf (AddrHelper A N)) →
    List (Pbuf (AddrHelper A N)) × List (Pbuf (AddrHelper A N))
  | [] => ([], [])
  | pb :: rest =>
    if pb.object.isSome then ([], pb :: rest) else (pb :: (walk rest).1, (walk rest).2)

/-- The end of `next`: the pbufs in front of `index` are given up. -/
def forward (index : Nat) (deleteme : List (Pbuf (AddrHelper A N))) (u : UdpContext A N) :
    Option (Bool × UdpContext A N) :=
  (Pbuf.afterFree index deleteme).map fun rxBuf =>
    (rxBuf ≠ [], { u with rxBuf, rxBufOffset := 0, rxBufSize := processSize rxBuf })

def next (u : UdpContext A N) : Option (Bool × UdpContext A N) :=
  if u.rxBuf = [] then some (false, u)
  else if !u.firstBufTaken then some (true, { u with firstBufTaken := true })
  else
    match walk u.rxBuf with
    | (passed, []) => u.forward passed.length passed
    | (passed, pb :: data) =>
      match pb.object, data with
      | some addr, _ :: _ =>
        { u with currentAddr := addr }.forward (passed.length + 1)
          (passed ++ pb :: Pbuf.reference data)
      | _, _ => none

/-- `_consume`. -/
def consume (size : Nat) (u : UdpContext A N) : UdpContext A N :=
  { u with rxBufOffset := min (u.rxBufOffset + size) u.rxBufSize }

/-- `read()`. -/
def read (u : UdpContext A N) : Option UInt8 × UdpContext A N :=
  if u.rxBuf = [] ∨ u.rxBufSize ≤ u.rxBufOffset then (none, u)
  else (some (Pbuf.getAt u.rxBuf (u.rxBufOffset % 2 ^ 16)), u.consume 1)

/-- `read(dst, size)`. -/
def readBytes (size : Nat) (u : UdpContext A N) : List UInt8 × UdpContext A N :=
  if u.rxBuf = [] then ([], u)
  else
    let size := min size (u.rxBufSize - u.rxBufOffset)
    match Pbuf.getContiguous u.rxBuf size (size % 2 ^ 16) (u.rxBufOffset % 2 ^ 16) with
    | none => ([], u)
    | some buf => (buf, u.consume size)

def peek (u : UdpContext A N) : Option UInt8 :=
  if u.rxBuf = [] ∨ u.rxBufOffset = u.rxBufSize then none
  else some (Pbuf.getAt u.rxBuf (u.rxBufOffset % 2 ^ 16))

def flush (u : UdpContext A N) : UdpContext A N :=
  if u.rxBuf = [] then u else u.consume (u.rxBufSize - u.rxBufOffset)

/-- The loop that counts the pbufs of the chain: it stops early at a pbuf too deep. -/
def tooDeep : Nat → List (Pbuf (AddrHelper A N)) → Bool
  | _, [] => false
  | count, _ :: rest =>
    if count + 1 < rxBufMaxDepth * 2 then tooDeep (count + 1) rest else true

/-- `_recv`, with whether the datagram is taken. `alloc` is the memory that `pbuf_alloc` finds
for a helper. -/
def recv (d : Datagram A N) (alloc : Option (List UInt8)) (u : UdpContext A N) :
    Bool × UdpContext A N :=
  if tooDeep 0 u.rxBuf then (false, u)
  else if u.rxBuf ≠ [] then
    match alloc with
    | none => (false, u)
    | some memory =>
      (true, { u with
        rxBuf := Pbuf.cat (Pbuf.cat u.rxBuf [helper memory (addrHelper d)]) (chain d) })
  else
    (true, { u with
      currentAddr := addrHelper d
      firstBufTaken := false
      rxBuf := chain d
      rxBufOffset := 0
      rxBufSize := Pbuf.totLen (chain d) })

end UdpContext

/-! ## The life of a context -/

/-- What lwIP and the sketch call. -/
inductive UdpCall (A N : Type*) where
  | recv (d : Datagram A N) (alloc : Option (List UInt8))
  | next
  | read
  | readBytes (size : Nat)
  | peek
  | flush
  | seek (pos : Nat)

/-- What a successful `next` presents: the sender, and the bytes from the start. -/
structure Packet (A : Type*) where
  remoteAddress : A
  remotePort : UInt16
  bytes : List UInt8

/-- A context with the history of the datagrams it took and the packets it presented. -/
structure UdpLife (A N : Type*) where
  context : UdpContext A N
  accepted : List (Datagram A N)
  presented : List (Packet A)

namespace UdpLife

variable {A N : Type*}

def fresh (currentAddr : AddrHelper A N) : UdpLife A N := ⟨.fresh currentAddr, [], []⟩

/-- The packet that a context presents. -/
def packet (u : UdpContext A N) : Packet A :=
  ⟨u.getRemoteAddress, u.getRemotePort,
    (UdpContext.readBytes u.rxBufSize { u with rxBufOffset := 0 }).1⟩

def step (call : UdpCall A N) (life : UdpLife A N) : Option (UdpLife A N) :=
  match call with
  | .recv d alloc =>
    let (taken, context) := life.context.recv d alloc
    some { life with context, accepted := life.accepted ++ if taken then [d] else [] }
  | .next => life.context.next.map fun (found, context) => { life with
      context
      presented := life.presented ++ if found then [packet context] else [] }
  | .read => some { life with context := life.context.read.2 }
  | .readBytes size => some { life with context := (life.context.readBytes size).2 }
  | .peek => some life
  | .flush => some { life with context := life.context.flush }
  | .seek pos => (life.context.seek pos).map fun context => { life with context }

/-- Make the calls in order. -/
def run : List (UdpCall A N) → UdpLife A N → Option (UdpLife A N)
  | [], life => some life
  | call :: rest, life => (life.step call).bind (run rest)

/-- Every `seek` of the run is to a valid offset. -/
def SeeksValid : List (UdpCall A N) → UdpLife A N → Prop
  | [], _ => True
  | call :: rest, life =>
    (∀ pos, call = .seek pos → life.context.isValidOffset pos = true) ∧
      ∀ next, life.step call = some next → SeeksValid rest next

end UdpLife
end Esp8266.Source
