import Esp8266.Lib.Radix
import Esp8266.Source.WString

/-!
# Numbers of the mesh

libraries/ESP8266WiFiMesh/src/TypeConversionFunctions.cpp, with the string of a number of
cores/esp8266/WString.cpp and `strtoul` of a 32-bit target. The asserted range of the base is that
of its type. Memory for strings is always found.
-/
set_option autoImplicit false

namespace Esp8266.Source.Mesh
open Esp8266.Lib.Radix Esp8266.Source.WString

/-- `String(uint32_t, base)`, as `utoa` writes it. -/
def stringOf (value : Nat) (base : Base) : WString := text base value

def uint64ToStringLoop (base : Base) (number : Nat) (result : WString) : WString :=
  if number = 0 then result
  else uint64ToStringLoop base (number / base) (stringOf (number % base) base ++ result)
termination_by number
decreasing_by
  have := base.2.1
  exact Nat.div_lt_self (by omega) (by omega)

def uint64ToString (number : UInt64) (base : Base) : WString :=
  let result := uint64ToStringLoop base number.toNat []
  if result = [] then ofString "0" else result

/-- `strtoul` of the text behind a sign. -/
def magnitude (base : Base) : WString → Nat
  -- In base 16 the digits may have a prefix.
  | 0x30 :: x :: rest =>
    if base.1 = 16 ∧ (x = 0x78 ∨ x = 0x58) then value base (leading base rest)
    else value base (leading base (0x30 :: x :: rest))
  | s => value base (leading base s)

/-- `strtoul` of a string of C: a number that is too large is the largest one. -/
def strtoul (s : WString) (base : Base) : Nat :=
  let t := s.dropWhile fun c => IsSpace c
  let negative := t.head? = some 0x2d
  let acc := magnitude base (if negative ∨ t.head? = some 0x2b then t.tail else t)
  if 2 ^ 32 ≤ acc then 2 ^ 32 - 1 else if negative then (2 ^ 32 - acc) % 2 ^ 32 else acc

/-- What `strtoul` sees at `currentCharacter`, which is one byte long: the memory behind it is read
up to the first NUL in it. -/
def currentText (currentCharacter : UInt8) (behind : List UInt8) : WString :=
  cstr (currentCharacter :: behind)

/-- The number of a string, where `behind i` is in memory behind `currentCharacter` at the index
`i`. -/
def stringToUint64 (behind : Nat → List UInt8) (string : WString) (base : Base) : UInt64 :=
  (List.range string.length).foldl (fun result i =>
    result * UInt64.ofNat base +
      UInt64.ofNat (strtoul (currentText (charAt string i) (behind i)) base)) 0

end Esp8266.Source.Mesh
