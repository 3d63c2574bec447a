import Esp8266.Source.Spi

/-!
# Transfers over the SPI bus

libraries/SPI/SPI.cpp:302-357 and :525-616. A command shifts bits out of the FIFO and those of the
slave into it; what the slave returns is a function of the bits that it has received so far. Only
commands of whole bytes are given. A null pointer is `none`, a pointer is an address in memory, and
a word access at an odd place ends with `none`. The buffer on the stack is a memory of its own.
-/
set_option autoImplicit false

namespace Esp8266.Source.SpiClass

/-! ## The controller and the slave -/

abbrev Slave := List Bool → Bool

/-- The bits that come back while these go out, behind those that have been sent. -/
def answers (slave : Slave) : List Bool → List Bool → List Bool
  | _, [] => []
  | sent, bit :: out => slave sent :: answers slave (sent ++ [bit]) out

/-- The byte that eight bits make in the order in which they are shifted in. -/
def byteOf (lsbFirst : Bool) (received : List Bool) : UInt8 :=
  UInt8.ofNat ((List.range 8).map fun i =>
    if received.getD (if lsbFirst then i else 7 - i) false then 2 ^ i else 0).sum

/-- `SPI1CMD |= SPIBUSY` and the wait for its end, where the bits of the slave are taken too. -/
def Registers.duplex (slave : Slave) (readLsbFirst : Bool) (s : Registers) : Registers :=
  let out := ((List.range 64).flatMap fun j => bits s.lsbFirst (s.fifo j)).take
    (mosiField s.spi1U1 + 1)
  let received := answers slave s.mosi out
  { s with mosi := s.mosi ++ out
           fifo := fun j => if 8 * (j + 1) ≤ received.length
             then byteOf readLsbFirst ((received.drop (8 * j)).take 8) else s.fifo j }

/-- `readLsbFirst` is `SPICRBO`. -/
structure Host where
  registers : Registers
  readLsbFirst : Bool
  memory : Nat → UInt8

namespace Host

/-! ## Bytes -/

def transfer (slave : Slave) (data : UInt8) (s : Host) : UInt8 × Host :=
  let r := s.registers.setDataBits 8
  let r := { r with fifo := fun j => if j = 0 then data else if j < 4 then 0 else r.fifo j }
  let r := r.duplex slave s.readLsbFirst
  (r.fifo 0, { s with registers := r })

def store (memory : Nat → UInt8) (a : Nat) (b : UInt8) : Nat → UInt8 :=
  fun a' => if a' = a then b else memory a'

/-- The byte for the slave, which is all ones where there is none. -/
def outByte (memory : Nat → UInt8) : Option Nat → UInt8
  | some out => memory out
  | none => 0xFF

def storeIn (memory : Nat → UInt8) (b : UInt8) : Option Nat → Nat → UInt8
  | some in_ => store memory in_ b
  | none => memory

/-- `transfer` for one byte after the other, from `out` to `in_`. -/
def transferEach (slave : Slave) : Option Nat → Option Nat → Nat → Host → Host
  | _, _, 0, s => s
  | out, in_, n + 1, s =>
    let (b, s) := transfer slave (outByte s.memory out) s
    transferEach slave (out.map (· + 1)) (in_.map (· + 1)) n
      { s with memory := storeIn s.memory b in_ }

/-! ## Blocks -/

/-- The loop `while(inSize--)`. -/
def storeBytes (fifo : Nat → UInt8) : Nat → Nat → Nat → (Nat → UInt8) → Nat → UInt8
  | 0, _, _, memory => memory
  | inSize + 1, in_, fifoPtr, memory =>
    storeBytes fifo inSize (in_ + 1) (fifoPtr + 1) (store memory in_ (fifo fifoPtr))

/-- The loop `while(inSize >= 4)`, and the one behind it. -/
def storeWords (fifo : Nat → UInt8) (inSize in_ fifoPtr : Nat) (memory : Nat → UInt8) :
    Nat → UInt8 :=
  if 4 ≤ inSize then
    storeWords fifo (inSize - 4) (in_ + 4) (fifoPtr + 4) fun a =>
      if in_ ≤ a ∧ a < in_ + 4 then fifo (fifoPtr + (a - in_)) else memory a
  else storeBytes fifo inSize in_ fifoPtr memory
termination_by inSize

/-- The pointer is null or that of a word. -/
def IsAligned (p : Option Nat) : Prop := p.getD 0 % 4 = 0

instance (p : Option Nat) : Decidable (IsAligned p) := inferInstanceAs (Decidable (_ = _))

def transferBytesAligned_ (slave : Slave) (out in_ : Option Nat) (size : UInt8) (s : Host) :
    Option Host :=
  if size = 0 then some s
  else if IsAligned out ∧ IsAligned in_ then
    let r := s.registers.setDataBits (UInt16.ofNat (size.toNat * 8))
    let outSize := (size.toNat + 3) / 4
    let r := match out with
      | some out => r.fillFifo outSize fun j => s.memory (out + j)
      | none => r.fillFifo outSize fun _ => 0xFF
    let r := r.duplex slave s.readLsbFirst
    let memory := match in_ with
      | some in_ => storeWords r.fifo size.toNat in_ 0 s.memory
      | none => s.memory
    some { s with registers := r, memory }
  else none

/-- `stack` is what is in the buffer on the stack. -/
def transferBytes_ (slave : Slave) (stack : Nat → UInt8) (out in_ : Option Nat) (size : UInt8)
    (s : Host) : Option Host :=
  if IsAligned out ∧ IsAligned in_ then transferBytesAligned_ slave out in_ size s
  else
    let aligned := match out with
      | some out => fun j => if j < size.toNat then s.memory (out + j) else stack j
      | none => stack
    (transferBytesAligned_ slave (out.map fun _ => 0) (in_.map fun _ => 0) size
      { s with memory := aligned }).map fun s' =>
        { s' with memory := match in_ with
          | some in_ => fun a =>
            if in_ ≤ a ∧ a < in_ + size.toNat then s'.memory (a - in_) else s.memory a
          | none => s.memory }

def transferBytes (slave : Slave) (stack : Nat → UInt8) (out in_ : Option Nat) (size : Nat)
    (s : Host) : Option Host :=
  if size = 0 then some s
  else if 64 < size then
    (transferBytes_ slave stack out in_ 64 s).bind
      (transferBytes slave stack (out.map (· + 64)) (in_.map (· + 64)) (size - 64))
  else transferBytes_ slave stack out in_ (UInt8.ofNat size) s
termination_by size

/-- `*cbuf = transfer(*cbuf)` -/
def transferAt (slave : Slave) (cbuf : Nat) (s : Host) : Host :=
  let (b, s) := transfer slave (s.memory cbuf) s
  { s with memory := store s.memory cbuf b }

/-- The loop up to the next word: how many bytes are left, where, and the host. -/
def transferUnaligned (slave : Slave) : Nat → Nat → Host → Nat × Nat × Host
  | 0, cbuf, s => (0, cbuf, s)
  | count + 1, cbuf, s =>
    if cbuf % 4 ≠ 0 then transferUnaligned slave count (cbuf + 1) (transferAt slave cbuf s)
    else (count + 1, cbuf, s)

/-- The loop over the last bytes. -/
def transferLast (slave : Slave) : Nat → Nat → Host → Host
  | 0, _, s => s
  | count + 1, cbuf, s => transferLast slave count (cbuf + 1) (transferAt slave cbuf s)

/-- `transfer` of a buffer. -/
def transferBuffer (slave : Slave) (stack : Nat → UInt8) (buf : Nat) (count : UInt16) (s : Host) :
    Option Host :=
  let (count, cbuf, s) := transferUnaligned slave count.toNat buf s
  let count4 := count / 4 * 4
  (transferBytes slave stack (some cbuf) (some cbuf) count4 s).map
    (transferLast slave (count - count4) (cbuf + count4))

end Host

end Esp8266.Source.SpiClass
