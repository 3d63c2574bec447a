import Mathlib.Logic.Function.Basic
import Mathlib.Order.Lattice

/-!
# The double buffer of samples

UartToTcp/AudioInput.h. `write` may run as an interrupt, so that `read` is given twice: as one
call, and as the steps between which interrupts are served. `atomicSet` repeats its assignment
until both sides agree, and so takes effect as one load or one store. Memory outside of the two
buffers is whatever lies there: `_data` has a value at every index.
-/
set_option autoImplicit false

namespace Esp8266.Source

/-- `PCMBUF_SIZE`. -/
def pcmBufSize : Nat := 4000

/-- `PCMBUF_COUNT`. -/
def pcmBufCount : Nat := 2

structure PcmBuf where
  data : Int → Int → UInt16
  writePos : Nat
  writeBufNum : Nat
  readPcmBufNum : Int
  readPos : Int
  txPos : UInt64

/-- What one call of `read` hands to the object: the value of `_txPos`, then the samples of the
buffer `bufNum` from `readPos` on. -/
structure Payload where
  txPos : UInt64
  bufNum : Int
  readPos : Int
  samples : List UInt16

namespace PcmBuf

/-- A new object; its buffers are not initialised. -/
def fresh (data : Int → Int → UInt16) : PcmBuf where
  data
  writePos := 0
  writeBufNum := 0
  readPcmBufNum := -1
  readPos := 0
  txPos := 0

/-- `data[_writePos] = val`, with `_writePos` moved on. -/
def store (val : Int) (p : PcmBuf) : PcmBuf :=
  { p with
    data := Function.update p.data p.writeBufNum
      (Function.update (p.data p.writeBufNum) p.writePos (UInt16.ofInt val))
    writePos := p.writePos + 1 }

def write (val : Int) (p : PcmBuf) : PcmBuf :=
  let p := p.store val
  if pcmBufSize ≤ p.writePos then
    { p with
      readPos := 0
      readPcmBufNum := p.writeBufNum
      writePos := 0
      writeBufNum := (p.writeBufNum + 1) % pcmBufCount }
  else p

def readAval (p : PcmBuf) : Bool := decide (0 ≤ p.readPos ∧ p.readPos < pcmBufSize)

/-- `count` samples from `readPos` on. -/
def count (maxCount readPos : Int) : Int := min maxCount (pcmBufSize - readPos)

/-- `count * sizeof(Item)`, an `int` that is passed on as `size_t`. -/
def byteSize (count : Int) : BitVec 32 := BitVec.ofInt 32 (count * 2)

/-- The samples that the second call of `readFunc` covers. -/
def samples (p : PcmBuf) (bufNum readPos count : Int) : List UInt16 :=
  (List.range ((byteSize count).toNat / 2)).map fun i : Nat => p.data bufNum (readPos + i)

/-- The two calls of `readFunc`. -/
def send (bufNum readPos count : Int) (p : PcmBuf) : Payload × PcmBuf :=
  (⟨p.txPos, bufNum, readPos, p.samples bufNum readPos count⟩,
    { p with txPos := p.txPos + UInt64.ofBitVec ((byteSize count).signExtend 64) })

/-- `read` as one call. Without data it returns `false` and sends nothing; the other path sets
no result. -/
def read (maxCount : Int) (p : PcmBuf) : Option Payload × PcmBuf :=
  let readPos := p.readPos
  if readPos < 0 ∨ pcmBufSize ≤ readPos then (none, p)
  else
    let bufNum := p.readPcmBufNum
    let n := count maxCount readPos
    let (sent, p) := p.send bufNum readPos n
    (some sent, if readPos = p.readPos then { p with readPos := readPos + n } else p)

/-! ## The steps of `read` -/

/-- Where a call of `read` stands, with its locals. -/
inductive Reader where
  | idle
  | positioned (maxCount readPos : Int)
  | located (maxCount readPos bufNum : Int)
  | sent (readPos count : Int)
  | matched (readPos : Int)

/-- The first step of a call: `_readPos` is loaded, and the call ends when it is out of range. -/
def load (maxCount : Int) (p : PcmBuf) : Reader :=
  if p.readPos < 0 ∨ pcmBufSize ≤ p.readPos then .idle else .positioned maxCount p.readPos

/-- The next step of the call in progress. -/
def next (p : PcmBuf) : Reader → Option Payload × PcmBuf × Reader
  | .idle => (none, p, .idle)
  | .positioned maxCount readPos => (none, p, .located maxCount readPos p.readPcmBufNum)
  | .located maxCount readPos bufNum =>
    let n := count maxCount readPos
    let (sent, p) := p.send bufNum readPos n
    (some sent, p, .sent readPos n)
  | .sent readPos n =>
    (none, p, if readPos = p.readPos then .matched (readPos + n) else .idle)
  | .matched readPos => (none, { p with readPos }, .idle)

end PcmBuf
end Esp8266.Source
