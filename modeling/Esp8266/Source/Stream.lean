import Mathlib.Data.List.Basic

/-!
# Searching a stream

cores/esp8266/Stream.cpp:82-127. A stream is what is left to be read; `timedRead` takes its first
character, and times out behind the last one. A C string is given as the characters at it, with a
0 behind them. `char` is unsigned.
-/
set_option autoImplicit false

namespace Esp8266.Source.Stream

def chars (text : List UInt8) (i : Nat) : UInt8 := text.getD i 0

def strlen (text : List UInt8) : Nat := (text.takeWhile (· ≠ 0)).length

/-- The loop of `findUntil`, with what it leaves of the stream. -/
def findUntilLoop (target : Nat → UInt8) (targetLen : Nat) (terminator : Nat → UInt8)
    (termLen : Nat) : List UInt8 → Nat → Nat → Bool × List UInt8
  | [], _, _ => (false, [])
  | c :: rest, index, termIndex =>
    if c = 0 then (false, rest)
    else
      let index := if c ≠ target index then 0 else index
      let index' := if c = target index then index + 1 else index
      if c = target index ∧ index' ≥ targetLen then (true, rest)
      else if termLen > 0 ∧ c = terminator termIndex then
        let termIndex := termIndex + 1
        if termIndex ≥ termLen then (false, rest)
        else findUntilLoop target targetLen terminator termLen rest index' termIndex
      else findUntilLoop target targetLen terminator termLen rest index' 0

/-- `findUntil` with the lengths. -/
def findUntilLen (target : Nat → UInt8) (targetLen : Nat) (terminator : Nat → UInt8)
    (termLen : Nat) (stream : List UInt8) : Bool × List UInt8 :=
  if target 0 = 0 then (true, stream)
  else findUntilLoop target targetLen terminator termLen stream 0 0

def findUntil (target terminator : List UInt8) (stream : List UInt8) : Bool × List UInt8 :=
  findUntilLen (chars target) (strlen target) (chars terminator) (strlen terminator) stream

def find (target : List UInt8) (stream : List UInt8) : Bool × List UInt8 :=
  findUntil target [] stream

end Esp8266.Source.Stream
