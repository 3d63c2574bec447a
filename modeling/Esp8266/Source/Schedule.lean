import Mathlib.Data.List.Basic

/-!
# Scheduled functions

cores/esp8266/Schedule.cpp:34-86 and :118-154. A call of `schedule_function` and the removal of
the first function hold the interrupt lock and are one step each; every other access of
`run_scheduled_functions` to the queue is a step of its own, so that calls may come in between.
-/
set_option autoImplicit false

namespace Esp8266.Source.Schedule

abbrev Addr := Nat

def scheduledFnMaxCount : Nat := 32

structure ScheduledFn (α : Type*) where
  mNext : Option Addr
  mFunc : Option α

/-- The nodes in memory, with the addresses that are in use. -/
structure Queue (α : Type*) where
  node : Addr → ScheduledFn α
  sFirst : Option Addr
  sLast : Option Addr
  sUnused : Option Addr
  sCount : Nat
  allocated : List Addr

namespace Queue

variable {α : Type*}

def set (item : Addr) (fn : ScheduledFn α) (s : Queue α) : Queue α :=
  { s with node := fun a => if a = item then fn else s.node a }

/-- `new (std::nothrow) scheduled_fn_t`: memory that is not in use, if there is any. -/
def new (offer : Option Addr) (s : Queue α) : Option Addr × Queue α :=
  match offer with
  | none => (none, s)
  | some item =>
    if item ∈ s.allocated then (none, s)
    else (some item, { s.set item ⟨none, none⟩ with allocated := item :: s.allocated })

def getFnUnsafe (offer : Option Addr) (s : Queue α) : Option Addr × Queue α :=
  match s.sUnused with
  | some result => (some result, { s with sUnused := (s.node result).mNext })
  | none =>
    if s.sCount < scheduledFnMaxCount then
      match s.new offer with
      | (some result, s) => (some result, { s with sCount := s.sCount + 1 })
      | (none, s) => (none, s)
    else (none, s)

def recycleFnUnsafe (fn : Addr) (s : Queue α) : Queue α :=
  { s.set fn ⟨s.sUnused, none⟩ with sUnused := some fn }

/-- The node becomes the last one. There is no result where a null pointer is followed. -/
def link (item : Addr) (s : Queue α) : Option (Queue α) :=
  match s.sFirst with
  | some _ =>
    match s.sLast with
    | some last =>
      some { s.set last ⟨some item, (s.node last).mFunc⟩ with sLast := some item }
    | none => none
  | none => some { s with sFirst := some item, sLast := some item }

def scheduleFunction (fn : Option α) (offer : Option Addr) (s : Queue α) :
    Option (Bool × Queue α) :=
  match fn with
  | none => some (false, s)
  | some fn =>
    match s.getFnUnsafe offer with
    | (none, s) => some (false, s)
    | (some item, s) => ((s.set item ⟨none, some fn⟩).link item).map fun s => (true, s)

/-- The section of `run_scheduled_functions` that removes the function it has called. -/
def removeFirst (s : Queue α) : Option (Queue α) :=
  match s.sFirst with
  | none => none
  | some toRecycle =>
    let s := if s.sLast = s.sFirst then { s with sLast := none } else s
    let s := { s with sFirst := (s.node toRecycle).mNext }
    some (s.recycleFnUnsafe toRecycle)

def empty : Queue α :=
  { node := fun _ => ⟨none, none⟩, sFirst := none, sLast := none, sUnused := none, sCount := 0
    allocated := [] }

end Queue

/-- Where `run_scheduled_functions` is: outside; before the test of its loop; before `done` is
set; before the call; in the called function, or behind it and before the removal. -/
inductive Pass where
  | idle
  | test (stop : Option Addr) (done : Bool)
  | mark (stop : Option Addr)
  | call (stop : Option Addr) (done : Bool)
  | remove (stop : Option Addr) (done : Bool)
  deriving DecidableEq

/-- The functions accepted up to the start of a pass, and those called up to its end. -/
structure Ended (α : Type*) where
  entered : List α
  executed : List α

/-- The functions are recorded in the order in which they are accepted and called. -/
structure System (α : Type*) where
  queue : Queue α
  pass : Pass
  accepted : List α
  executed : List α
  entered : List α
  ended : List (Ended α)

inductive Action (α : Type*) where
  | schedule (fn : Option α) (offer : Option Addr)
  | advance

namespace System

variable {α : Type*}

/-- The next step of the pass, or the start of one. -/
def advance (s : System α) : Option (System α) :=
  match s.pass with
  | .idle => some { s with pass := .test s.queue.sLast false, entered := s.accepted }
  | .test stop done =>
    if s.queue.sFirst.isSome && !done then some { s with pass := .mark stop }
    else some { s with pass := .idle, ended := ⟨s.entered, s.executed⟩ :: s.ended }
  | .mark stop => some { s with pass := .call stop (s.queue.sFirst = stop) }
  | .call stop done =>
    match s.queue.sFirst with
    | none => none
    | some first =>
      match (s.queue.node first).mFunc with
      | none => none
      | some fn => some { s with pass := .remove stop done, executed := s.executed ++ [fn] }
  | .remove stop done =>
    match s.queue.removeFirst with
    | none => none
    | some queue => some { s with queue := queue, pass := .test stop done }

/-- One step, with what `schedule_function` returns; there is no answer where a null pointer or
an empty function is followed. -/
def step (action : Action α) (s : System α) : Option Bool × System α :=
  match action with
  | .schedule fn offer =>
    match s.queue.scheduleFunction fn offer with
    | none => (none, s)
    | some (ok, queue) =>
      (some ok, { s with queue := queue,
                         accepted := if ok then s.accepted ++ fn.toList else s.accepted })
  | .advance =>
    match s.advance with
    | none => (none, s)
    | some s => (some true, s)

def start : System α :=
  { queue := .empty, pass := .idle, accepted := [], executed := [], entered := [], ended := [] }

end System

end Esp8266.Source.Schedule
