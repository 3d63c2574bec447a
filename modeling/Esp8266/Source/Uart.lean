import Esp8266.Lib.Ring

/-!
# The UART receive path

cores/esp8266/uart.cpp:128-399, without GDB, for a UART whose receiver is enabled or not. The
hardware FIFO fills on its own: `line` says what arrives before each of the next accesses of the
FIFO, so that a byte may arrive between any two of them. `arrived` is the history of the bytes
that the FIFO took; one that finds it full is lost on the line and raises the overflow
interrupt. Sizes are those of allocated memory, so that no `size_t` sum wraps.
-/
set_option autoImplicit false

namespace Esp8266.Source
open Esp8266.Lib

/-- The receive FIFO of the hardware, 128 bytes deep. -/
structure RxFifo where
  bytes : List UInt8
  bytes_le : bytes.length ≤ 128

def RxFifo.empty : RxFifo := ⟨[], by decide⟩

structure Uart where
  rxEnabled : Bool
  rxOverrun : Bool
  rxError : Bool
  rxBuffer : Lib.Ring UInt8
  fifo : RxFifo
  /-- The overflow interrupt is pending. -/
  overflow : Bool
  line : List (List UInt8)
  arrived : List UInt8

namespace Uart

/-! ## The hardware -/

/-- A byte reaches the FIFO. -/
def arrive (byte : UInt8) (u : Uart) : Uart :=
  if h : u.fifo.bytes.length < 128 then
    { u with
      fifo := ⟨u.fifo.bytes ++ [byte], by rw [List.length_append]; exact h⟩
      arrived := u.arrived ++ [byte] }
  else { u with overflow := true }

def arriveAll (bytes : List UInt8) (u : Uart) : Uart := bytes.foldl (fun u byte => u.arrive byte) u

/-- What happens on the line before the next access. -/
def elapse (u : Uart) : Uart := { u.arriveAll (u.line.headD []) with line := u.line.tail }

/-- `uart_rx_fifo_available`; the count is eight bits wide. -/
def rxFifoAvailable (u : Uart) : Nat × Uart :=
  let u := u.elapse
  (u.fifo.bytes.length % 256, u)

/-- A read of the register `USF`. It is only made while there is a byte. -/
def usf (u : Uart) : UInt8 × Uart :=
  let u := u.elapse
  (u.fifo.bytes.headD 0,
    { u with fifo := ⟨u.fifo.bytes.tail, Nat.le_trans (by simp) u.fifo.bytes_le⟩ })

/-! ## The functions of uart.cpp -/

/-- `uart_rx_buffer_available_unsafe`. -/
def rxBufferAvailableUnsafe (u : Uart) : Nat := u.rxBuffer.used

/-- `uart_rx_available_unsafe`. -/
def rxAvailableUnsafe (u : Uart) : Nat × Uart :=
  let buffered := u.rxBufferAvailableUnsafe
  let (count, u) := u.rxFifoAvailable
  (buffered + count, u)

/-- The body of the copy loop once the FIFO has a byte: the oldest data go when the buffer is
full. -/
def copyByte (u : Uart) : Uart :=
  let nextPos := (u.rxBuffer.wpos + 1) % u.rxBuffer.size
  let u :=
    if nextPos = u.rxBuffer.rpos then
      let rpos := u.rxBuffer.rpos + 1
      { u with
        rxOverrun := true
        rxBuffer := { u.rxBuffer with rpos := if rpos = u.rxBuffer.size then 0 else rpos } }
    else u
  let (data, u) := u.usf
  { u with rxBuffer := u.rxBuffer.push data }

/-- The bytes that are in the FIFO or on the line. -/
def pending (u : Uart) : Nat := u.fifo.bytes.length + u.line.flatten.length

def copyLoop : Nat → Uart → Uart
  | 0, u => u
  | fuel + 1, u =>
    let (count, u) := u.rxFifoAvailable
    if count ≠ 0 then copyLoop fuel u.copyByte else u

/-- `uart_rx_copy_fifo_to_buffer_unsafe`. Each pass takes a byte that is in the FIFO or on the
line, which bounds the passes. -/
def rxCopyFifoToBufferUnsafe (u : Uart) : Uart := copyLoop (u.pending + 1) u

/-- `uart_peek_char_unsafe`. -/
def peekCharUnsafe (u : Uart) : Option UInt8 × Uart :=
  let (available, u) := u.rxAvailableUnsafe
  if available = 0 then (none, u)
  else
    let u := if u.rxBufferAvailableUnsafe = 0 then u.rxCopyFifoToBufferUnsafe else u
    (some (u.rxBuffer.buffer u.rxBuffer.rpos), u)

/-- `uart_peek_char`. -/
def peekChar (u : Uart) : Option UInt8 × Uart :=
  if !u.rxEnabled then (none, u) else u.peekCharUnsafe

/-- The inner loop of `uart_read`, with room for `room` more bytes. -/
def readFifo : Nat → Uart → List UInt8 × Uart
  | 0, u => ([], u)
  | room + 1, u =>
    let (count, u) := u.rxFifoAvailable
    if count ≠ 0 then
      let (data, u) := u.usf
      let (rest, u) := readFifo room u
      (data :: rest, u)
    else ([], u)

/-- `chunk` before it is cut to the user's size. -/
def chunk (r : Lib.Ring UInt8) : Nat := if r.rpos < r.wpos then r.wpos - r.rpos else r.size - r.rpos

/-- The loop of `uart_read`, with room for `room` more bytes. A pass ends the loop or takes a
byte, so that `room` is fuel enough. -/
def readLoop : Nat → Nat → Uart → List UInt8 × Uart
  | 0, _, u => ([], u)
  | fuel + 1, room, u =>
    if 0 < room then
      let (available, u) := u.rxAvailableUnsafe
      if available = 0 then ([], u)
      else if u.rxBufferAvailableUnsafe = 0 then u.readFifo room
      else
        let n := min (chunk u.rxBuffer) room
        let taken := u.rxBuffer.linear n
        let (rest, u) := readLoop fuel (room - n) { u with rxBuffer := u.rxBuffer.advance n }
        (taken ++ rest, u)
    else ([], u)

/-- `uart_read`; the bytes put into the user's buffer. -/
def read (usersize : Nat) (u : Uart) : List UInt8 × Uart :=
  if !u.rxEnabled then ([], u) else u.readLoop (usersize + 1) usersize

def uiff : Nat := 0
def uipe : Nat := 2
def uifr : Nat := 3
def uiof : Nat := 4
def uito : Nat := 8

/-- `uart_isr`. `usis` is the interrupt status, in which a pending overflow shows. -/
def isr (usis : Nat) (u : Uart) : Uart :=
  let overflowed := usis.testBit uiof || u.overflow
  if !u.rxEnabled then { u with overflow := false }
  else
    let u := if usis.testBit uiff then u.rxCopyFifoToBufferUnsafe else u
    let u := if overflowed then { u with rxOverrun := true } else u
    let u :=
      if usis.testBit uifr || usis.testBit uipe || usis.testBit uito then
        { u with rxError := true }
      else u
    { u with overflow := if overflowed then false else u.overflow }

/-- `uart_rx_available`, interrupted or not between its two reads. -/
def rxAvailable (interrupts : List Nat) (u : Uart) : Nat × Uart :=
  if !u.rxEnabled then (0, u)
  else
    let buffered := u.rxBufferAvailableUnsafe
    let u := interrupts.foldl (fun u usis => u.isr usis) u
    let (count, u) := u.rxFifoAvailable
    (buffered + count, u)

/-- `uart_read_char_unsafe`; `none` is its -1. -/
def readCharUnsafe (u : Uart) : Option UInt8 × Uart :=
  if u.rxBufferAvailableUnsafe ≠ 0 then
    (some (u.rxBuffer.buffer u.rxBuffer.rpos), { u with rxBuffer := u.rxBuffer.advance 1 })
  else (none, u)

/-- The loop of `uart_resize_rx_buffer`. Each pass fills a cell, so that the new size and one is
fuel enough; a -1 is stored as the byte 0xFF. -/
def resizeLoop (newSize : Nat) : Nat → (Nat → UInt8) → Nat → Uart → (Nat → UInt8) × Nat × Uart
  | 0, newBuf, newWpos, u => (newBuf, newWpos, u)
  | fuel + 1, newBuf, newWpos, u =>
    let (available, u) := u.rxAvailableUnsafe
    if available ≠ 0 ∧ newWpos < newSize then
      let (ret, u) := u.readCharUnsafe
      resizeLoop newSize fuel (fun i => if i = newWpos then ret.getD 0xff else newBuf i)
        (newWpos + 1) u
    else (newBuf, newWpos, u)

/-- `uart_resize_rx_buffer`, with what `malloc` gave. -/
def resizeRxBuffer (newSize : Nat) (malloc : Option (Nat → UInt8)) (u : Uart) : Nat × Uart :=
  if !u.rxEnabled then (0, u)
  else if u.rxBuffer.size = newSize then (u.rxBuffer.size, u)
  else
    match malloc with
    | none => (u.rxBuffer.size, u)
    | some newBuf =>
      let (newBuf, newWpos, u) := u.resizeLoop newSize (newSize + 1) newBuf 0
      let newWpos := if newWpos = newSize then 0 else newWpos
      (newSize, { u with
        rxBuffer := { size := newSize, rpos := 0, wpos := newWpos, buffer := newBuf } })

/-- `uart_init`, with what `malloc` gave. -/
def init (rxEnabled : Bool) (size : Nat) (buffer : Nat → UInt8) : Uart where
  rxEnabled := rxEnabled
  rxOverrun := false
  rxError := false
  rxBuffer := { size, rpos := 0, wpos := 0, buffer }
  fifo := RxFifo.empty
  overflow := false
  line := []
  arrived := []

end Uart

end Esp8266.Source
