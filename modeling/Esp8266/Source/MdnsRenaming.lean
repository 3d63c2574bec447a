import Esp8266.Source.MdnsResponder

/-!
# Renaming a host

libraries/ESP8266mDNS/src/LEAmDNS_Helpers.cpp:41-185, with `strtoul` of a 32-bit target. Strings
of C are the lists of their characters without the NUL behind them. Memory is always found.
-/
set_option autoImplicit false

namespace Esp8266.Source.Mdns
open Esp8266.Lib.Decimal Esp8266.Source.WString

/-- `strrstr`: where the last occurrence of the pattern begins. -/
def strrstr (s pattern : WString) : Option Nat :=
  if s ≠ [] ∧ pattern ≠ [] ∧ pattern.length ≤ s.length then
    (List.range (s.length - pattern.length + 1)).reverse.find? fun i =>
      pattern.isPrefixOf (s.drop i)
  else none

/-- `strtoul` of digits behind their sign: the value, and what stands behind the digits. -/
def unsignedDigits (negative : Bool) (s t : WString) : Nat × WString :=
  let digits := t.takeWhile fun c => IsDigit c
  if digits = [] then (0, s)
  else
    let acc := value digits
    (if 2 ^ 32 ≤ acc then 2 ^ 32 - 1 else if negative then (2 ^ 32 - acc) % 2 ^ 32 else acc,
      t.drop digits.length)

/-- `strtoul` with base 10: the value, and what stands at `*pEnd`. -/
def strtoul (s : WString) : Nat × WString :=
  match s.dropWhile fun c => IsSpace c with
  | 0x2d :: t => unsignedDigits true s t
  | 0x2b :: t => unsignedDigits false s t
  | t => unsignedDigits false s t

/-- `indexDomain`: the domain that takes the place of the one given. -/
def indexDomain (domain divider defaultDomain : Option WString) : WString :=
  let pcDivider := divider.getD (ofString "-")
  match domain with
  | some domain =>
    match strrstr domain pcDivider with
    | some found =>
      let (ulIndex, pEnd) := strtoul (domain.drop (found + pcDivider.length))
      if ulIndex ≠ 0 ∧ pEnd = [] then
        domain.take (found + pcDivider.length) ++ decimal ((ulIndex + 1) % 2 ^ 32)
      else domain ++ pcDivider ++ ofString "2"
    | none => domain ++ pcDivider ++ ofString "2"
  | none => defaultDomain.getD (ofString "esp8266")

namespace Responder

/-- What `setHostname` returns: `setName` does not fail. -/
def setHostnameResult (name : Option WString) : Bool := (hostname? name).isSome

/-- Rounds of `indexDomain` and `setHostname`, each with the probing that is finished in it: the
names of the host behind them. -/
def rename (domain : WString) (r : Responder) : List (Option Owner) → List (Option Hostname)
  | [] => []
  | finishing :: rounds =>
    let domain := indexDomain (some domain) none none
    let r := r.setHostname finishing (some domain)
    r.hostname :: r.rename domain rounds

end Responder

end Esp8266.Source.Mdns
