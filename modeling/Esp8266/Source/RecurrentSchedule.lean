import Mathlib.Logic.Function.Basic

/-!
# Recurrent functions

cores/esp8266/Schedule.cpp:22-31, :88-116 and :156-233. What the alarm and the function of a node
answer, whether its period is over, and what is registered while they run or while the loop
yields, is given for each visit. Where a pointer to no node is followed there is no result. The
period itself and the assertion about it are left out.
-/
set_option autoImplicit false

namespace Esp8266.Source.Recurrent

abbrev Addr := Nat

structure RecurrentFn (α : Type*) where
  mNext : Option Addr
  mFunc : α
  alarm : Option α

/-- What a call of `schedule_recurrent_function_us` registers. -/
structure Registered (α : Type*) where
  mFunc : α
  alarm : Option α

/-- The nodes in memory. The functions are recorded as they are accepted and visited. -/
structure Functions (α : Type*) where
  node : Addr → Option (RecurrentFn α)
  rFirst : Option Addr
  rLast : Option Addr
  fence : Bool
  accepted : List (Registered α)
  visited : List (Registered α)

/-- A call that a callback makes; `offer` is the memory that `new` would return. -/
inductive Call (α : Type*)
  | schedule (fn alarm : Option α) (offer : Option Addr)
  | run

/-- One visit: the answers of the alarm and of the function, and the calls made in them and while
the loop yields. -/
structure Visit (α : Type*) where
  wakeup : Bool
  alarmCalls : List (Call α)
  callNow : Bool
  again : Bool
  funcCalls : List (Call α)
  yieldCalls : List (Call α)

namespace Functions

variable {α : Type*}

def store (a : Addr) (fn : Option (RecurrentFn α)) (s : Functions α) : Functions α :=
  { s with node := Function.update s.node a fn }

/-- The new node behind the last one. -/
def link (item : Addr) (s : Functions α) : Option (Functions α) :=
  match s.rLast with
  | some last => do
    let fn ← s.node last
    some { s.store last (some { fn with mNext := some item }) with rLast := some item }
  | none => some { s with rFirst := some item, rLast := some item }

/-- `schedule_recurrent_function_us`; memory that is in use is not offered. -/
def scheduleRecurrentFunctionUs (fn alarm : Option α) (offer : Option Addr) (s : Functions α) :
    Option (Bool × Functions α) :=
  match fn, offer with
  | some mFunc, some item =>
    if (s.node item).isSome then some (false, s)
    else do
      let s ← (s.store item (some ⟨none, mFunc, alarm⟩)).link item
      some (true, { s with accepted := s.accepted ++ [⟨mFunc, alarm⟩] })
  | _, _ => some (false, s)

/-- `run_scheduled_recurrent_functions` within a pass, which must not start another one. -/
def runWithin (s : Functions α) : Option (Functions α) :=
  if s.rFirst.isNone || s.fence then some s else none

def calls : List (Call α) → Functions α → Option (Functions α)
  | [], s => some s
  | .schedule fn alarm offer :: rest, s => do
    let (_, s) ← s.scheduleRecurrentFunctionUs fn alarm offer
    calls rest s
  | .run :: rest, s => do
    let s ← s.runWithin
    calls rest s

/-- The calls of a callback, where it is called. -/
def callsIf (called : Bool) (l : List (Call α)) (s : Functions α) : Option (Functions α) :=
  if called then s.calls l else some s

/-- The node before `current`, or `rFirst`, gets its successor. -/
def bypass (prev next : Option Addr) (s : Functions α) : Option (Functions α) :=
  match prev with
  | some prev => do
    let fn ← s.node prev
    some (s.store prev (some { fn with mNext := next }))
  | none => some { s with rFirst := next }

/-- The section that removes `current`, with `prev` and `current` after it. -/
def ditch (prev : Option Addr) (current : Addr) (s : Functions α) :
    Option (Option Addr × Option Addr × Functions α) := do
  let s := { s with rLast := if s.rLast = some current then prev else s.rLast }
  let fn ← s.node current
  let s ← s.bypass prev fn.mNext
  some (prev, fn.mNext, s.store current none)

/-- The other branch goes on to the next node. -/
def advance (remove : Bool) (prev : Option Addr) (current : Addr) (s : Functions α) :
    Option (Option Addr × Option Addr × Functions α) :=
  if remove then s.ditch prev current
  else (s.node current).map fun fn => (some current, fn.mNext, s)

/-- The body of the loop, with `prev` and `current` after it. -/
def visit (v : Visit α) (prev : Option Addr) (current : Addr) (s : Functions α) :
    Option (Option Addr × Option Addr × Functions α) := do
  let fn ← s.node current
  let s := { s with visited := s.visited ++ [Registered.mk fn.mFunc fn.alarm] }
  let s ← s.callsIf fn.alarm.isSome v.alarmCalls
  let wakeup := fn.alarm.isSome && v.wakeup
  let called := wakeup || v.callNow
  let s ← s.callsIf called v.funcCalls
  let (prev, next, s) ← s.advance (called && !v.again) prev current
  let s ← s.calls v.yieldCalls
  some (prev, next, s)

/-- The loop, which ends with no result if it is not over after `fuel` visits. -/
def passLoop (visits : Nat → Visit α) (stop : Option Addr) :
    Nat → Nat → Option Addr → Addr → Functions α → Option (Functions α)
  | 0, _, _, _, _ => none
  | fuel + 1, i, prev, current, s => do
    let done := decide (some current = stop)
    let (prev, next, s) ← s.visit (visits i) prev current
    match next with
    | some current => if done then some s else passLoop visits stop fuel (i + 1) prev current s
    | none => some s

def runScheduledRecurrentFunctions (visits : Nat → Visit α) (fuel : Nat) (s : Functions α) :
    Option (Functions α) :=
  match s.rFirst with
  | none => some s
  | some current =>
    if s.fence then some s
    else do
      let s ← passLoop visits s.rLast fuel 0 none current { s with fence := true }
      some { s with fence := false }

def start : Functions α where
  node := fun _ => none
  rFirst := none
  rLast := none
  fence := false
  accepted := []
  visited := []

/-- The states between the calls of a program. -/
inductive Reachable : Functions α → Prop
  | start : Reachable start
  | schedule {s s' : Functions α} {ok : Bool} (fn alarm : Option α) (offer : Option Addr)
      (reached : Reachable s)
      (called : s.scheduleRecurrentFunctionUs fn alarm offer = some (ok, s')) : Reachable s'
  | run {s s' : Functions α} (visits : Nat → Visit α) (fuel : Nat) (reached : Reachable s)
      (called : s.runScheduledRecurrentFunctions visits fuel = some s') : Reachable s'

end Functions

end Esp8266.Source.Recurrent
