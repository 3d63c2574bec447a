import Esp8266.Source.WString

/-!
# Uri and UriBraces

libraries/ESP8266WebServer/src/Uri.h and uri/UriBraces.h. The arguments of the path belong to
the handler of the requests, and a call finds there what the call before it has left.
-/
set_option autoImplicit false

namespace Esp8266.Source.UriBraces
open Esp8266.Source.WString

/-- The loop over the two texts. Each pass goes on in the pattern, so that its length and one is
fuel enough. -/
def matchLoop (uri requestUri : WString) : Nat → Nat → Nat → List WString → Bool × List WString
  | 0, _, _, pathArgs => (false, pathArgs)
  | fuel + 1, i, requestUriIndex, pathArgs =>
    if i < uri.length then
      let uriChar := uri.charAt i
      let requestUriChar := requestUri.charAt requestUriIndex
      if uriChar = requestUriChar then
        matchLoop uri requestUri fuel (i + 1) (requestUriIndex + 1) pathArgs
      else if uriChar ≠ 0x7b then (false, pathArgs)
      else
        let i := i + 2
        if i ≥ uri.length then
          let arg := requestUri.substring requestUriIndex requestUri.length
          (decide (arg.indexOf 0x2f 0 = -1), pathArgs ++ [arg])
        else
          let charEnd := uri.charAt i
          let uriIndex := requestUri.indexOf charEnd requestUriIndex
          if uriIndex < 0 then (false, pathArgs)
          else
            matchLoop uri requestUri fuel (i + 1) (uriIndex.toNat + 1)
              (pathArgs ++ [requestUri.substring requestUriIndex uriIndex.toNat])
    else (decide (requestUri.length ≤ requestUriIndex), pathArgs)

/-- `UriBraces::canHandle`, with what it leaves in `pathArgs`. -/
def canHandle (uri requestUri : WString) (pathArgs : List WString) : Bool × List WString :=
  if uri.equals requestUri then (true, pathArgs)
  else matchLoop uri requestUri (uri.length + 1) 0 0 []

end Esp8266.Source.UriBraces
