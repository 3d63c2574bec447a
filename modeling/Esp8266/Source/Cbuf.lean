import Mathlib.Algebra.Group.Nat.Defs
import Esp8266.Lib.Ring

/-!
# The ring buffer `cbuf`

cores/esp8266/cbuf.cpp and cbuf.h. Pointers are offsets from `_buf`, and an access outside of the
allocation ends the call with `none`. `new` may return NULL, which the caller decides.
-/
set_option autoImplicit false

namespace Esp8266.Source

structure Cbuf where
  _size : Nat
  /-- The bytes at `_buf`, of which the first `_size` are allocated. -/
  _buf : Nat → UInt8
  _bufend : Nat
  _begin : Nat
  _end : Nat

namespace Cbuf

/-- The constructor, once `new` has returned memory of any contents. -/
def construct (size : Nat) (memory : Nat → UInt8) : Cbuf := ⟨size, memory, size, 0, 0⟩

/-! ## Accesses -/

/-- `memcpy` out of the allocation. -/
def load (p n : Nat) (b : Cbuf) : Option (List UInt8) :=
  if p + n ≤ b._size then some ((List.range n).map fun i => b._buf (p + i)) else none

/-- `memcpy` into the allocation. -/
def store (p : Nat) (bytes : List UInt8) (b : Cbuf) : Option Cbuf :=
  if p + bytes.length ≤ b._size then
    some { b with _buf := fun i => if p ≤ i then bytes.getD (i - p) (b._buf i) else b._buf i }
  else none

def byteAt (p : Nat) (b : Cbuf) : Option UInt8 :=
  if p < b._size then some (b._buf p) else none

/-! ## The functions of cbuf.h -/

def wrapIfBufend (b : Cbuf) (ptr : Nat) : Nat := if ptr = b._bufend then 0 else ptr

def empty (b : Cbuf) : Bool := decide (b._begin = b._end)

def full (b : Cbuf) : Bool := decide (b.wrapIfBufend (b._end + 1) = b._begin)

/-! ## The functions of cbuf.cpp -/

def available (b : Cbuf) : Nat :=
  if b._end ≥ b._begin then b._end - b._begin else b._size - (b._begin - b._end)

def room (b : Cbuf) : Nat :=
  if b._end ≥ b._begin then b._size - (b._end - b._begin) - 1 else b._begin - b._end - 1

/-- `peek()`; the inner `none` is its -1. -/
def peekChar (b : Cbuf) : Option (Option UInt8) :=
  if b.empty then some none else (b.byteAt b._begin).map some

/-- `peek(dst, size)`; the bytes put to `dst`. -/
def peek (size : Nat) (b : Cbuf) : Option (List UInt8) := do
  let sizeToRead := min size b.available
  if b._end < b._begin ∧ sizeToRead > b._bufend - b._begin then
    let topSize := b._bufend - b._begin
    let top ← b.load b._begin topSize
    let rest ← b.load 0 (sizeToRead - topSize)
    some (top ++ rest)
  else b.load b._begin sizeToRead

/-- `read()`. -/
def readChar (b : Cbuf) : Option (Option UInt8 × Cbuf) := do
  if b.empty then some (none, b)
  else
    let result ← b.byteAt b._begin
    some (some result, { b with _begin := b.wrapIfBufend (b._begin + 1) })

/-- `read(dst, size)`; the bytes put to `dst`. -/
def read (size : Nat) (b : Cbuf) : Option (List UInt8 × Cbuf) := do
  let sizeToRead := min size b.available
  if b._end < b._begin ∧ sizeToRead > b._bufend - b._begin then
    let topSize := b._bufend - b._begin
    let top ← b.load b._begin topSize
    let rest ← b.load 0 (sizeToRead - topSize)
    some (top ++ rest, { b with _begin := b.wrapIfBufend (0 + (sizeToRead - topSize)) })
  else
    let bytes ← b.load b._begin sizeToRead
    some (bytes, { b with _begin := b.wrapIfBufend (b._begin + sizeToRead) })

/-- `write(c)`. -/
def writeChar (c : UInt8) (b : Cbuf) : Option (Nat × Cbuf) := do
  if b.full then some (0, b)
  else
    let b ← b.store b._end [c]
    some (1, { b with _end := b.wrapIfBufend (b._end + 1) })

/-- `write(src, size)`, where `src` are the `size` bytes. -/
def write (src : List UInt8) (b : Cbuf) : Option (Nat × Cbuf) := do
  let sizeToWrite := min src.length b.room
  if b._end ≥ b._begin ∧ sizeToWrite > b._bufend - b._end then
    let topSize := b._bufend - b._end
    let b ← b.store b._end (src.take topSize)
    let b ← b.store 0 ((src.drop topSize).take (sizeToWrite - topSize))
    some (sizeToWrite, { b with _end := b.wrapIfBufend (0 + (sizeToWrite - topSize)) })
  else
    let b ← b.store b._end (src.take sizeToWrite)
    some (sizeToWrite, { b with _end := b.wrapIfBufend (b._end + sizeToWrite) })

def flush (b : Cbuf) : Cbuf := { b with _begin := 0, _end := 0 }

def remove (size : Nat) (b : Cbuf) : Nat × Cbuf :=
  let bytesAvailable := b.available
  if size ≥ bytesAvailable then (0, b.flush)
  else
    let sizeToRemove := min size bytesAvailable
    let b :=
      if b._end < b._begin ∧ sizeToRemove > b._bufend - b._begin then
        let topSize := b._bufend - b._begin
        { b with _begin := b.wrapIfBufend (0 + (sizeToRemove - topSize)) }
      else { b with _begin := b.wrapIfBufend (b._begin + sizeToRemove) }
    (b.available, b)

/-- `resize`, where `granted` tells whether `new` returns memory. The bytes behind the stored ones
are set to 0. -/
def resize (granted : Bool) (newSize : Nat) (b : Cbuf) : Option (Nat × Cbuf) := do
  let bytesAvailable := b.available
  if newSize ≤ bytesAvailable ∨ newSize = b._size then some (b._size, b)
  else if !granted then some (b._size, b)
  else
    let (bytes, _) ← b.read bytesAvailable
    some (newSize, ⟨newSize, fun i => bytes.getD i 0, newSize, 0, 0 + bytesAvailable⟩)

/-- `resizeAdd`; a `size_t` has 32 bits. -/
def resizeAdd (granted : Bool) (addSize : Nat) (b : Cbuf) : Option (Nat × Cbuf) :=
  b.resize granted ((b._size + addSize) % 2 ^ 32)

/-! ## Calls -/

inductive Call
  | writeChar (c : UInt8)
  | write (src : List UInt8)
  | readChar
  | read (size : Nat)
  | peekChar
  | peek (size : Nat)
  | remove (size : Nat)
  | flush
  | resize (granted : Bool) (newSize : Nat)
  | resizeAdd (granted : Bool) (addSize : Nat)

/-- What a call returns and puts to the caller's memory. -/
inductive Answer
  | count (n : Nat)
  | char (c : Option UInt8)
  | bytes (l : List UInt8)
  | done
  deriving DecidableEq

def call : Call → Cbuf → Option (Answer × Cbuf)
  | .writeChar c, b => (b.writeChar c).map fun r => (.count r.1, r.2)
  | .write src, b => (b.write src).map fun r => (.count r.1, r.2)
  | .readChar, b => b.readChar.map fun r => (.char r.1, r.2)
  | .read size, b => (b.read size).map fun r => (.bytes r.1, r.2)
  | .peekChar, b => b.peekChar.map fun c => (.char c, b)
  | .peek size, b => (b.peek size).map fun l => (.bytes l, b)
  | .remove size, b => some (.count (b.remove size).1, (b.remove size).2)
  | .flush, b => some (.done, b.flush)
  | .resize granted newSize, b => (b.resize granted newSize).map fun r => (.count r.1, r.2)
  | .resizeAdd granted addSize, b => (b.resizeAdd granted addSize).map fun r => (.count r.1, r.2)

def calls : List Call → Cbuf → Option (List Answer × Cbuf)
  | [], b => some ([], b)
  | request :: rest, b => do
    let (answer, b) ← call request b
    let (answers, b) ← calls rest b
    some (answer :: answers, b)

end Cbuf

end Esp8266.Source
