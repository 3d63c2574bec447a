import Mathlib.Algebra.Group.Nat.Defs
import Mathlib.Data.List.Basic

/-!
# The transmit side of a UDP socket

ESP8266WiFi/src/include/UdpContext.h:390-511, and `pbuf_cat` of lwip/src/core/pbuf.c:823. A chain
of pbufs is a list, and `_tx_buf_cur` an index into it, behind the end for the null pointer.
`tot_len` has 16 bits and is what `pbuf_cat` adds up. Sizes are numbers; differences of them are
taken modulo 2^32, as `size_t` takes them. `none` stands for an access through the null pointer or
behind a payload.
-/
set_option autoImplicit false

namespace Esp8266.Source

structure TxPbuf where
  payload : List UInt8
  totLen : UInt16

namespace TxPbuf

def len (p : TxPbuf) : Nat := p.payload.length

/-- The bytes of a chain. -/
def bytes (chain : List TxPbuf) : List UInt8 := chain.flatMap payload

/-- What the allocator returns: none, or memory with some contents. -/
abbrev Alloc := Option (Nat → UInt8)

/-- `pbuf_alloc` of one pbuf in RAM; the length has 16 bits. -/
def alloc (length : Nat) (memory : Alloc) : Option TxPbuf :=
  memory.map fun byte => ⟨(List.range (length % 2 ^ 16)).map byte, UInt16.ofNat length⟩

/-- `pbuf_cat` of one pbuf. -/
def cat (chain : List TxPbuf) (tail : TxPbuf) : List TxPbuf :=
  chain.map (fun p => { p with totLen := p.totLen + tail.totLen }) ++ [tail]

/-- `memcpy` into a payload. -/
def store (data : List UInt8) (position : Nat) (p : TxPbuf) : Option TxPbuf :=
  if p.len < position + data.length then none
  else some { p with
    payload := p.payload.take position ++ data ++ p.payload.drop (position + data.length) }

end TxPbuf

structure UdpTransmit where
  txBufHead : List TxPbuf
  txBufCur : Nat
  txBufOffset : Nat

namespace UdpTransmit
open TxPbuf

/-- A new context. -/
def fresh : UdpTransmit := ⟨[], 0, 0⟩

def pbufUnitSize : Nat := 128

/-- `_tx_buf_head->tot_len`, 0 for the null pointer. -/
def headTotLen (u : UdpTransmit) : Nat := u.txBufHead.head?.elim 0 fun head => head.totLen.toNat

/-- The loop of `_reserve`; each allocation takes its turn. -/
def growLoop (growSize : Nat) (memory : List Alloc) (chain : List TxPbuf) : List TxPbuf :=
  if growSize = 0 then chain
  else
    match alloc pbufUnitSize memory.head?.join with
    | none => chain
    | some pb =>
      if growSize < pbufUnitSize then cat chain pb
      else growLoop (growSize - pbufUnitSize) memory.tail (cat chain pb)
termination_by growSize
decreasing_by
  unfold pbufUnitSize
  omega

/-- `_reserve`. -/
def reserve (size : Nat) (memory : List Alloc) (u : UdpTransmit) : UdpTransmit :=
  let grow (memory : List Alloc) (u : UdpTransmit) : UdpTransmit :=
    if size < u.headTotLen then u
    else { u with txBufHead := growLoop (size - u.headTotLen) memory u.txBufHead }
  if u.txBufHead = [] then
    match alloc pbufUnitSize memory.head?.join with
    | none => u
    | some head => grow memory.tail ⟨[head], 0, 0⟩
  else grow memory u

/-- A difference of two sizes. -/
def sizeSub (a b : Nat) : Nat := (a + (2 ^ 32 - b % 2 ^ 32)) % 2 ^ 32

/-- The loop of `append`, for a number of rounds at most. -/
def copyLoop : Nat → List UInt8 → UdpTransmit → Option UdpTransmit
  | 0, _, _ => none
  | rounds + 1, data, u =>
    if data.length = 0 then some u
    else
      match u.txBufHead[0]?, u.txBufHead[u.txBufCur]? with
      | some head, some cur =>
        let usedCur := sizeSub u.txBufOffset (sizeSub head.totLen.toNat cur.totLen.toNat)
        let freeCur := sizeSub cur.len usedCur
        if freeCur = 0 then copyLoop rounds data { u with txBufCur := u.txBufCur + 1 }
        else
          let willCopy := min data.length freeCur
          match store (data.take willCopy) usedCur cur with
          | none => none
          | some stored => copyLoop rounds (data.drop willCopy) { u with
              txBufHead := u.txBufHead.set u.txBufCur stored
              txBufOffset := u.txBufOffset + willCopy }
      | _, _ => none

/-- A test of `append`. -/
def tooSmall (size : Nat) (u : UdpTransmit) : Bool :=
  u.txBufHead = [] || u.headTotLen < u.txBufOffset + size

def append (data : List UInt8) (memory : List Alloc) (u : UdpTransmit) :
    Option (Nat × UdpTransmit) :=
  let u := if u.tooSmall data.length then u.reserve (u.txBufOffset + data.length) memory else u
  if u.tooSmall data.length then some (0, u)
  else (copyLoop (data.length + u.txBufHead.length + 1) data u).map fun u => (data.length, u)

/-- The loop of `send`: what is copied out of a chain. -/
def copyOut : Nat → List TxPbuf → List UInt8
  | _, [] => []
  | dataSize, p :: rest =>
    let willCopy := min dataSize p.len
    p.payload.take willCopy ++ copyOut (dataSize - willCopy) rest

/-- `send`: the payload of the datagram, or none if there is no memory for it. -/
def send (memory : Alloc) (u : UdpTransmit) : Option (Option (List UInt8) × UdpTransmit) :=
  match alloc u.txBufOffset memory with
  | none => some (none, fresh)
  | some txCopy => (store (copyOut u.txBufOffset u.txBufHead) 0 txCopy).map fun txCopy =>
      (some txCopy.payload, fresh)

end UdpTransmit

/-- What a sketch calls, with the results of the allocations. -/
inductive UdpTxCall where
  | append (data : List UInt8) (memory : List TxPbuf.Alloc)
  | send (memory : TxPbuf.Alloc)

/-- What the call returns: a size, or the payload of what was transmitted. -/
inductive UdpTxAnswer where
  | appended (size : Nat)
  | sent (datagram : Option (List UInt8))

namespace UdpTransmit

def step (call : UdpTxCall) (u : UdpTransmit) : Option (UdpTxAnswer × UdpTransmit) :=
  match call with
  | .append data memory => (u.append data memory).map fun r => (.appended r.1, r.2)
  | .send memory => (u.send memory).map fun r => (.sent r.1, r.2)

/-- The calls of a sketch, one after the other. -/
def calls : List UdpTxCall → UdpTransmit → Option (List UdpTxAnswer × UdpTransmit)
  | [], u => some ([], u)
  | call :: rest, u =>
    (u.step call).bind fun first => (calls rest first.2).map fun later =>
      (first.1 :: later.1, later.2)

end UdpTransmit
end Esp8266.Source
