import Esp8266.Source.WebAuth

/-!
# `base64::encode`

cores/esp8266/base64.cpp, on the encoder of libb64. The data are encoded in blocks of 36 bytes
into a buffer of 50, and a C string is taken from the buffer each time.
-/
set_option autoImplicit false

namespace Esp8266.Source.Base64
open Esp8266.Source.WebServer Esp8266.Source.WString

/-- `BUFSIZE` and the size of `buf`. -/
def bufsize : Nat := 48
def bufLength : Nat := bufsize + 1 + 1

/-- `base64_init_encodestate_nonewlines`. -/
def initEncodestateNonewlines : Base64EncodeState :=
  { base64InitEncodestate with stepsnewline := -1 }

/-- `base64_encode_expected_len_nonewlines`. -/
def expectedLenNonewlines (n : Nat) : Nat := (4 * n / 3 + 3) / 4 * 4

/-- The loop over the blocks: the characters that each call writes to the buffer, and the state
behind the last. Each pass takes a byte, so that the length is fuel enough. -/
def encodeLoop : Nat → List UInt8 → Base64EncodeState → List (List UInt8) × Base64EncodeState
  | 0, _, state => ([], state)
  | fuel + 1, data, state =>
    if 0 < data.length then
      let (block, state) := base64EncodeBlock (data.take (bufsize * 3 / 4)) state
      let (blocks, state) := encodeLoop fuel (data.drop (bufsize * 3 / 4)) state
      (block :: blocks, state)
    else ([], state)

/-- The string, the size that was reserved for it, and what was written to the buffer, with the
NUL each time. -/
structure Encoded where
  base64 : WString
  reserved : Nat
  writes : List (List UInt8)

/-- base64.cpp:37; `reserves` says whether there is memory for the string. -/
def encode (data : List UInt8) (doNewLines reserves : Bool) : Encoded :=
  let size :=
    (if doNewLines then base64EncodeExpectedLen data.length
      else expectedLenNonewlines data.length) + 1
  if reserves then
    let init := if doNewLines then base64InitEncodestate else initEncodestateNonewlines
    let (blocks, state) := encodeLoop data.length data init
    let writes := (blocks ++ [base64EncodeBlockend state]).map (· ++ [0])
    { base64 := (writes.map cstr).flatten, reserved := size, writes }
  else { base64 := ofString "-FAIL-", reserved := 0, writes := [] }

end Esp8266.Source.Base64
