import Esp8266.Source.WString

/-!
# Query strings

libraries/ESP8266WebServer/src/Parsing-impl.h:276-358 and 600-632. Both passes over the data run
the same loop with a handler of their own; the loop is run with fuel, and `none` is a loop that
is still running when it is used up.
-/
set_option autoImplicit false

namespace Esp8266.Source.QueryString
open Esp8266.Source.WString

structure RequestArgument where
  key : WString
  value : WString
deriving DecidableEq, Repr

/-- What `new RequestArgument[n]` holds. -/
def RequestArgument.empty : RequestArgument := ⟨[], []⟩

/-! ## `urlDecode` -/

def hexDigit? (c : UInt8) : Option UInt8 :=
  if 48 ≤ c ∧ c ≤ 57 then some (c - 48)
  else if 65 ≤ c ∧ c ≤ 70 then some (c - 55)
  else if 97 ≤ c ∧ c ≤ 102 then some (c - 87)
  else none

/-- `strtol` of `0x` and two characters: the digits up to the first character that is none. -/
def hexByte (high low : UInt8) : UInt8 :=
  match hexDigit? high with
  | none => 0
  | some h =>
    match hexDigit? low with
    | none => h
    | some l => h * 16 + l

/-- A `%` is an escape when two characters follow it. -/
def urlDecode : WString → WString
  | [] => []
  | 37 :: high :: low :: rest => hexByte high low :: urlDecode rest
  | 43 :: rest => 32 :: urlDecode rest
  | c :: rest => c :: urlDecode rest

/-! ## The handlers of the two passes -/

abbrev ArgHandler := RequestArgument → WString → Int → Nat → Int → Int → RequestArgument

/-- `storeArgHandler`. -/
def storeArg : ArgHandler := fun arg data equalIndex pos keyEndPos nextIndex =>
  let arg := { arg with key := urlDecode (data.substring pos (data.rightEnd keyEndPos)) }
  if equalIndex ≠ -1 ∧ (equalIndex < nextIndex - 1 ∨ nextIndex = -1) then
    { arg with
      value := urlDecode (data.substring (equalIndex + 1).toNat (data.rightEnd nextIndex)) }
  else arg

/-- `nullArgHandler`. -/
def nullArg : ArgHandler := fun arg _ _ _ _ _ => arg

/-! ## The loop -/

def separator (c : UInt8) : Bool := c == 38 || c == 59

/-- The loop that skips empty expressions, from `pos` on. It ends at the end of the data, so that
their length is fuel enough. -/
def skipEmpty (data : WString) : Nat → Nat → Nat
  | 0, pos => pos
  | fuel + 1, pos =>
    if separator (data.charAt pos) then
      if data.length ≤ pos + 1 then pos + 1 else skipEmpty data fuel (pos + 1)
    else pos

/-- `next_index`: the first of both separators. -/
def nextIndex (data : WString) (pos : Nat) : Int :=
  let next := data.indexOf 38 pos
  let next2 := data.indexOf 59 pos
  if next = -1 ∨ (next2 ≠ -1 ∧ next2 < next) then next2 else next

def keyEndPos (data : WString) (equal next : Int) : Int :=
  let keyEnd := if equal = -1 ∨ (equal > next ∧ next ≠ -1) then next else equal
  if keyEnd = -1 then data.length else keyEnd

/-- `_parseArgumentsPrivate` from `pos` on, with `total` arguments handled. -/
def parseArguments (handler : ArgHandler) (data : WString) :
    Nat → Nat → Nat → List RequestArgument → Option (Nat × List RequestArgument)
  | 0, _, _, _ => none
  | fuel + 1, pos, total, args =>
    let pos := skipEmpty data data.length pos
    let equal := data.indexOf 61 pos
    let next := nextIndex data pos
    let keyEnd := keyEndPos data equal next
    if (pos : Int) < keyEnd then
      let args := args.modify total fun arg => handler arg data equal pos keyEnd next
      if next = -1 then some (total + 1, args)
      else parseArguments handler data fuel (next + 1).toNat (total + 1) args
    else if next = -1 then some (total, args)
    else parseArguments handler data fuel pos total args

/-- `_parseArgumentsPrivate`. -/
def parseArgumentsPrivate (fuel : Nat) (data : WString) (handler : ArgHandler)
    (args : List RequestArgument) : Option (Nat × List RequestArgument) :=
  parseArguments handler data fuel 0 0 args

/-- `_parseArguments`: what `_currentArgs` holds afterwards, with one entry to spare, and
`_currentArgCount`. -/
def parseQuery (fuel : Nat) (data : WString) : Option (Nat × List RequestArgument) := do
  let (count, _) ← parseArgumentsPrivate fuel data nullArg []
  let (_, args) ← parseArgumentsPrivate fuel data storeArg
    (List.replicate (count + 1) RequestArgument.empty)
  some (count, args)

end Esp8266.Source.QueryString
