import Esp8266.Source.I2sQueue

/-!
# Transmitting samples

cores/esp8266/core_esp8266_i2s.cpp:156-184 for the transmit channel, and :289-392. The DMA engine
plays the buffers in ring order, word by word; behind the last word of a buffer it goes to the
next one and interrupts. The sections in which interrupts are disabled are one step each, every
other access of the writing functions is a step of its own.
-/
set_option autoImplicit false

namespace Esp8266.Source.I2s

/-- The arguments and variables of `_i2s_write_buffer`; `next` is how far its pointer has gone. -/
structure Frames where
  frames : Nat → UInt16
  next : Nat
  frameCount : Nat
  mono : Bool
  nb : Bool
  framesWritten : Nat

/-- A call of `_i2s_write_sample`, or one of `_i2s_write_buffer`. -/
inductive Job where
  | sample (sample : UInt32) (nb : Bool)
  | buffer (locals : Frames)

def Job.nb : Job → Bool
  | .sample _ nb => nb
  | .buffer locals => locals.nb

/-- Where a writing function is; both make room in the same way. -/
inductive Writer where
  | idle
  | loop (locals : Frames)
  | test (job : Job)
  | check (job : Job)
  | wait (job : Job)
  | take (job : Job)
  | rewind (job : Job)
  | fill (job : Job)
  | copy (locals : Frames) (fc left : Nat)

/-- The channel, the engine at word `position` of buffer `current`, and what was played, stored
in buffers and accepted by calls that have returned. -/
structure Tx where
  queue : Queue
  currSlcBuf : Option Buf
  currSlcBufPos : Nat
  memory : Buf → Nat → UInt32
  writer : Writer
  current : Buf
  position : Nat
  played : List UInt32
  stored : List UInt32
  accepted : List UInt32

/-- A call of `_i2s_write_sample` or of `_i2s_write_buffer`. -/
inductive WriteCall where
  | sample (sample : UInt32) (nb : Bool)
  | buffer (frames : Nat → UInt16) (frameCount : UInt16) (mono nb : Bool)

/-- The engine goes on; or the writer does, with a call when it is idle. -/
inductive TxAction where
  | dma
  | advance (call : WriteCall)

/-- Frame `k` as a word. -/
def frameWord (frames : Nat → UInt16) (mono : Bool) (k : Nat) : UInt32 :=
  if mono then ((frames k).toUInt32 <<< 16) ||| (frames k).toUInt32
  else ((frames (2 * k)).toUInt32 <<< 16) ||| (frames (2 * k + 1)).toUInt32

namespace Frames

/-- The words of the first `n` frames. -/
def words (l : Frames) (n : Nat) : List UInt32 := (List.range n).map (frameWord l.frames l.mono)

/-- The next word, as the two loops make it. -/
def fetch (l : Frames) : UInt32 × Frames :=
  if l.mono then
    let v := l.frames l.next
    ((v.toUInt32 <<< 16) ||| v.toUInt32, { l with next := l.next + 1 })
  else
    let v1 := l.frames l.next
    let v2 := l.frames (l.next + 1)
    ((v1.toUInt32 <<< 16) ||| v2.toUInt32, { l with next := l.next + 2 })

end Frames

namespace Tx

/-- `i2s_slc_isr` with the RXEOF status. -/
def slcIsr (s : Tx) : Tx :=
  let finishedItem := s.current
  let queue := if s.queue.slcQueueLen ≥ slcBufCnt - 1 then s.queue.nextItem.2 else s.queue
  { s with
    memory := fun b => if b = finishedItem then fun _ => 0 else s.memory b
    queue := queue.push finishedItem }

/-- The engine plays a word, or goes to the next buffer. -/
def dma (s : Tx) : Tx :=
  if s.position < slcBufLen then
    { s with
      played := s.played ++ [s.memory s.current s.position]
      position := s.position + 1 }
  else
    let s := s.slcIsr
    { s with current := (s.current + 1) % slcBufCnt, position := 0 }

/-- `tx->curr_slc_buf[tx->curr_slc_buf_pos++] = word` -/
def store (word : UInt32) (s : Tx) : Tx :=
  match s.currSlcBuf with
  | none => s
  | some buf =>
    { s with
      memory := fun b i => if b = buf ∧ i = s.currSlcBufPos then word else s.memory b i
      currSlcBufPos := s.currSlcBufPos + 1
      stored := s.stored ++ [word] }

/-- A call returns that it has accepted these words. -/
def finish (words : List UInt32) (s : Tx) : Option Nat × Tx :=
  (some words.length, { s with writer := .idle, accepted := s.accepted ++ words })

/-- The next step of the writing function. -/
def advance (call : WriteCall) (s : Tx) : Option Nat × Tx :=
  match s.writer with
  | .idle =>
    match call with
    | .sample sample nb => (none, { s with writer := .test (.sample sample nb) })
    | .buffer frames frameCount mono nb =>
      (none, { s with writer := .loop ⟨frames, 0, frameCount.toNat, mono, nb, 0⟩ })
  | .loop l =>
    if 0 < l.frameCount then (none, { s with writer := .test (.buffer l) })
    else s.finish (l.words l.framesWritten)
  | .test job =>
    if s.currSlcBufPos = slcBufLen ∨ s.currSlcBuf = none then
      (none, { s with writer := .check job })
    else (none, { s with writer := .fill job })
  | .check job =>
    if s.queue.slcQueueLen = 0 then
      if job.nb then
        match job with
        | .sample _ _ => s.finish []
        | .buffer l => s.finish (l.words l.framesWritten)
      else (none, { s with writer := .wait job })
    else (none, { s with writer := .take job })
  | .wait job =>
    if 0 < s.queue.slcQueueLen then (none, { s with writer := .take job }) else (none, s)
  | .take job =>
    let (buf, queue) := s.queue.nextItem
    (none, { s with queue := queue, currSlcBuf := some buf, writer := .rewind job })
  | .rewind job => (none, { s with currSlcBufPos := 0, writer := .fill job })
  | .fill (.sample sample _) => (s.store sample).finish [sample]
  | .fill (.buffer l) =>
    let available := slcBufLen - s.currSlcBufPos
    let fc := if available < l.frameCount then available else l.frameCount
    (none, { s with writer := .copy l fc fc })
  | .copy l fc left =>
    if left = 0 then
      let l := { l with frameCount := l.frameCount - fc, framesWritten := l.framesWritten + fc }
      (none, { s with writer := .loop l })
    else
      let (word, l) := l.fetch
      let s := s.store word
      (none, { s with writer := .copy l fc (left - 1) })

def step (action : TxAction) (s : Tx) : Option Nat × Tx :=
  match action with
  | .dma => (none, s.dma)
  | .advance call => s.advance call

/-- The channel when it has been allocated and cleared, with the engine at its first buffer. -/
def start : Tx :=
  { queue := ⟨fun _ => 0, 0⟩, currSlcBuf := none, currSlcBufPos := 0, memory := fun _ _ => 0
    writer := .idle, current := 0, position := 0, played := [], stored := [], accepted := [] }

/-- `i2s_is_full` of a channel that is open. -/
def i2sIsFull (s : Tx) : Bool :=
  decide ((s.currSlcBufPos = slcBufLen ∨ s.currSlcBuf = none) ∧ s.queue.slcQueueLen = 0)

/-- `i2s_available` of a channel that is open; the result has 16 bits. -/
def i2sAvailable (s : Tx) : Nat :=
  (((slcBufCnt : Int) - s.queue.slcQueueLen) * slcBufLen % 65536).toNat

/-- The steps of a call until it returns, without an interrupt in between. -/
def returned (call : WriteCall) : Nat → Tx → Option (Nat × Tx)
  | 0, _ => none
  | steps + 1, s =>
    match s.advance call with
    | (some count, s) => some (count, s)
    | (none, s) => returned call steps s

/-- A call of `i2s_write_sample_nb`, which returns after six steps at the latest. -/
def writeSampleNb (sample : UInt32) (s : Tx) : Option (Bool × Tx) :=
  (returned (.sample sample true) 6 s).map fun r => (decide (r.1 ≠ 0), r.2)

end Tx

end Esp8266.Source.I2s
