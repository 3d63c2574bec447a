import Mathlib.Logic.Function.Basic
import Esp8266.Lib.Ring
import Esp8266.Lib.Word32

/-!
# circular_queue

libraries/SoftwareSerial/src/circular_queue/circular_queue.h. One side pushes and the other pops,
one of them perhaps as an interrupt. The calls are given twice: as a whole, and as the loads and
stores between which the other side may run. `m_buffer` is `buffer`; a fresh array holds anything.
-/
set_option autoImplicit false

namespace Esp8266.Source
open Esp8266.Lib Esp8266.Lib.Word32

structure CircularQueue (α : Type*) where
  bufSize : Nat
  buffer : Nat → α
  inPos : Nat
  outPos : Nat

namespace CircularQueue

variable {α : Type*}

/-- A queue for `capacity` elements. -/
def make (capacity : Nat) (buffer : Nat → α) : CircularQueue α := ⟨capacity + 1, buffer, 0, 0⟩

def capacity (q : CircularQueue α) : Nat := q.bufSize - 1

/-- The number of elements between two positions. -/
def between (bufSize inPos outPos : Nat) : Nat :=
  if inPos < outPos then inPos + bufSize - outPos else inPos - outPos

/-! ## Whole calls -/

def available (q : CircularQueue α) : Nat := between q.bufSize q.inPos q.outPos

def flush (q : CircularQueue α) : CircularQueue α := { q with outPos := q.inPos }

/-- Where the queue is empty, this is the cell of the next push. -/
def peek (q : CircularQueue α) : α := q.buffer q.outPos

def pushpeek (q : CircularQueue α) : α := q.buffer q.inPos

/-- An assignment to the reference that `pushpeek` returns. -/
def setPushpeek (val : α) (q : CircularQueue α) : CircularQueue α :=
  { q with buffer := Function.update q.buffer q.inPos val }

/-- `push()`. -/
def release (q : CircularQueue α) : Bool × CircularQueue α :=
  let next := (q.inPos + 1) % q.bufSize
  if next = q.outPos then (false, q) else (true, { q with inPos := next })

/-- `push(val)`. -/
def push (val : α) (q : CircularQueue α) : Bool × CircularQueue α :=
  let next := (q.inPos + 1) % q.bufSize
  if next = q.outPos then (false, q)
  else (true, { q with buffer := Function.update q.buffer q.inPos val, inPos := next })

/-- `pop()`, where `none` stands for the default value of an empty queue. -/
def pop (q : CircularQueue α) : Option α × CircularQueue α :=
  if q.inPos = q.outPos then (none, q)
  else (some (q.buffer q.outPos), { q with outPos := (q.outPos + 1) % q.bufSize })

/-- `n` cells from `outPos` on, in two copies. -/
def popCells (bufSize outPos n : Nat) : List Nat :=
  let first := min n (bufSize - outPos)
  (List.range first).map (outPos + ·) ++ List.range (n - first)

/-- `pop_n(buffer, size)`. -/
def popN (size : Nat) (q : CircularQueue α) : List α × CircularQueue α :=
  let size := min size q.available
  if size = 0 then ([], q)
  else
    ((popCells q.bufSize q.outPos size).map q.buffer,
      { q with outPos := (q.outPos + size) % q.bufSize })

/-- The rounds of `for_each(fun)`: what is handed to `fun`, which does not use the queue itself. -/
def forEachLoop (inPos : Nat) : Nat → CircularQueue α → List α × CircularQueue α
  | 0, q => ([], q)
  | fuel + 1, q =>
    if q.outPos ≠ inPos then
      let (vals, last) := forEachLoop inPos fuel { q with outPos := (q.outPos + 1) % q.bufSize }
      (q.buffer q.outPos :: vals, last)
    else ([], q)

def forEach (q : CircularQueue α) : List α × CircularQueue α := forEachLoop q.inPos q.bufSize q

/-- The cells and values of `push_n`, the value of `next` and what the call returns. -/
def pushCells (bufSize inPos outPos : Nat) (vals : List α) : List (Nat × α) × Nat × Nat :=
  let blockSize :=
    if inPos < outPos then outPos - 1 - inPos
    else if outPos = 0 then bufSize - 1 - inPos
    else bufSize - inPos
  let blockSize := min vals.length blockSize
  let next := (inPos + blockSize) % bufSize
  let size := min (vals.length - blockSize) (if 1 < outPos then sub32 (sub32 outPos next) 1 else 0)
  (((List.range blockSize).map (inPos + ·) ++ List.range size).zip vals, next + size,
    blockSize + size)

/-! ## Loads and stores -/

/-- Where the side that pushes stands, with its locals. -/
inductive Producer (α : Type*) where
  | idle
  | push (val : α) (inPos : Nat)
  | pushN (vals : List α) (inPos : Nat)
  | copying (cells : List (Nat × α)) (next count : Nat)

/-- Where the side that pops stands. -/
inductive Consumer (α : Type*) where
  | idle
  | pop (outPos : Nat)
  | popN (size inPos : Nat)
  | sized (n : Nat)
  | reading (cells : List Nat) (vals : List α) (next : Nat)
  | forEach (outPos : Nat)
  | each (outPos inPos : Nat)
  | given (outPos inPos : Nat)
  | flush (inPos : Nat)

/-- What a step returns: nothing yet, the number of elements pushed, those popped, or one that
`for_each` hands to its function. -/
inductive Reply (α : Type*) where
  | none
  | pushed (count : Nat)
  | popped (vals : List α)
  | item (val : α)
  | done

/-- The queue and its two sides. -/
structure Sides (α : Type*) where
  queue : CircularQueue α
  producer : Producer α
  consumer : Consumer α

inductive Action (α : Type*) where
  | push (val : α)
  | pushN (vals : List α)
  | produce
  | pop
  | popN (size : Nat)
  | forEach
  | flush
  | consume

/-- The next step of a call of `push` or `push_n`. -/
def produce (q : CircularQueue α) : Producer α → Reply α × CircularQueue α × Producer α
  | .idle => (.none, q, .idle)
  | .push val inPos =>
    let next := (inPos + 1) % q.bufSize
    if next = q.outPos then (.pushed 0, q, .idle) else (.none, q, .copying [(inPos, val)] next 1)
  | .pushN vals inPos =>
    let (cells, next, count) := pushCells q.bufSize inPos q.outPos vals
    if count = 0 then (.pushed 0, q, .idle) else (.none, q, .copying cells next count)
  | .copying ((i, val) :: cells) next count =>
    (.none, { q with buffer := Function.update q.buffer i val }, .copying cells next count)
  | .copying [] next count => (.pushed count, { q with inPos := next }, .idle)

/-- The next step of a call of `pop`, `pop_n`, `for_each` or `flush`. -/
def consume (q : CircularQueue α) : Consumer α → Reply α × CircularQueue α × Consumer α
  | .idle => (.none, q, .idle)
  | .pop outPos =>
    if q.inPos = outPos then (.popped [], q, .idle)
    else (.none, q, .reading [outPos] [] ((outPos + 1) % q.bufSize))
  | .popN size inPos =>
    let n := min size (between q.bufSize inPos q.outPos)
    if n = 0 then (.popped [], q, .idle) else (.none, q, .sized n)
  | .sized n =>
    (.none, q, .reading (popCells q.bufSize q.outPos n) [] ((q.outPos + n) % q.bufSize))
  | .reading (i :: cells) vals next => (.none, q, .reading cells (vals ++ [q.buffer i]) next)
  | .reading [] vals next => (.popped vals, { q with outPos := next }, .idle)
  | .forEach outPos => (.none, q, .each outPos q.inPos)
  | .each outPos inPos =>
    if outPos ≠ inPos then (.item (q.buffer outPos), q, .given outPos inPos) else (.done, q, .idle)
  | .given outPos inPos =>
    let outPos := (outPos + 1) % q.bufSize
    (.none, { q with outPos }, .each outPos inPos)
  | .flush inPos => (.done, { q with outPos := inPos }, .idle)

/-- A call begins with its first load, unless its side is within another call. -/
def act : Action α → Sides α → Reply α × Sides α
  | .push val, s =>
    match s.producer with
    | .idle => (.none, { s with producer := .push val s.queue.inPos })
    | _ => (.none, s)
  | .pushN vals, s =>
    match s.producer with
    | .idle => (.none, { s with producer := .pushN vals s.queue.inPos })
    | _ => (.none, s)
  | .produce, s =>
    let (reply, queue, producer) := produce s.queue s.producer
    (reply, { s with queue, producer })
  | .pop, s =>
    match s.consumer with
    | .idle => (.none, { s with consumer := .pop s.queue.outPos })
    | _ => (.none, s)
  | .popN size, s =>
    match s.consumer with
    | .idle => (.none, { s with consumer := .popN size s.queue.inPos })
    | _ => (.none, s)
  | .forEach, s =>
    match s.consumer with
    | .idle => (.none, { s with consumer := .forEach s.queue.outPos })
    | _ => (.none, s)
  | .flush, s =>
    match s.consumer with
    | .idle => (.none, { s with consumer := .flush s.queue.inPos })
    | _ => (.none, s)
  | .consume, s =>
    let (reply, queue, consumer) := consume s.queue s.consumer
    (reply, { s with queue, consumer })

end CircularQueue
end Esp8266.Source
