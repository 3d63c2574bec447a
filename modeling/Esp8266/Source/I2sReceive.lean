import Esp8266.Source.I2sQueue

/-!
# Receiving samples

cores/esp8266/core_esp8266_i2s.cpp:156-184 for the receive channel, and :402-434. The DMA engine
completes the buffers in ring order; each completion is an interrupt. The section of
`i2s_read_sample` in which interrupts are disabled is one step, every other access a step of its
own. Both halves of a sample are asked for.
-/
set_option autoImplicit false

namespace Esp8266.Source.I2s

/-- Where `i2s_read_sample` is. -/
inductive Reader where
  | idle
  | test (blocking : Bool)
  | check (blocking : Bool)
  | wait
  | take
  | rewind
  | sample
  deriving DecidableEq

/-- How many completions there had been with the last one of a buffer, out of the first `n`. -/
def latest : Nat → Buf → Nat
  | 0, _ => 0
  | n + 1, b => if n % slcBufCnt = b then n + 1 else latest n b

/-- The channel, with the number of completed blocks and those that were delivered, by their
number. -/
structure Rx where
  queue : Queue
  currSlcBuf : Option Buf
  currSlcBufPos : Nat
  memory : Buf → Nat → UInt32
  reader : Reader
  completed : Nat
  delivered : List Nat

/-- The DMA engine completes a buffer; or the reader goes on, with a call when it is idle. -/
inductive RxAction where
  | complete (block : Nat → UInt32)
  | advance (blocking : Bool)

/-- What a call of `i2s_read_sample` returns. -/
inductive ReadResult where
  | nothing
  | sample (left right : UInt16)

namespace Rx

/-- `i2s_slc_isr` with the TXEOF status. -/
def slcIsr (block : Nat → UInt32) (s : Rx) : Rx :=
  let finishedItem := s.completed % slcBufCnt
  { s with
    memory := fun b => if b = finishedItem then block else s.memory b
    queue := s.queue.appendItem finishedItem
    completed := s.completed + 1 }

/-- The next step of `i2s_read_sample`. -/
def readSample (blocking : Bool) (s : Rx) : Option ReadResult × Rx :=
  match s.reader with
  | .idle => (none, { s with reader := .test blocking })
  | .test blocking =>
    if s.currSlcBufPos = slcBufLen ∨ s.currSlcBuf = none then
      (none, { s with reader := .check blocking })
    else (none, { s with reader := .sample })
  | .check blocking =>
    if s.queue.slcQueueLen = 0 then
      if !blocking then (some .nothing, { s with reader := .idle })
      else (none, { s with reader := .wait })
    else (none, { s with reader := .take })
  | .wait =>
    if 0 < s.queue.slcQueueLen then (none, { s with reader := .take }) else (none, s)
  | .take =>
    let (buf, queue) := s.queue.nextItem
    (none, { s with
      queue := queue
      currSlcBuf := some buf
      reader := .rewind
      delivered := s.delivered ++ [latest s.completed buf] })
  | .rewind => (none, { s with currSlcBufPos := 0, reader := .sample })
  | .sample =>
    match s.currSlcBuf with
    | none => (none, s)
    | some buf =>
      let sample := s.memory buf s.currSlcBufPos
      (some (.sample (sample &&& 0xffff).toUInt16 (sample >>> 16).toUInt16),
        { s with currSlcBufPos := s.currSlcBufPos + 1, reader := .idle })

def step (action : RxAction) (s : Rx) : Option ReadResult × Rx :=
  match action with
  | .complete block => (none, s.slcIsr block)
  | .advance blocking => s.readSample blocking

/-- The channel when it has been allocated and cleared. -/
def start : Rx :=
  { queue := ⟨fun _ => 0, 0⟩, currSlcBuf := none, currSlcBufPos := 0, memory := fun _ _ => 0
    reader := .idle, completed := 0, delivered := [] }

end Rx

end Esp8266.Source.I2s
