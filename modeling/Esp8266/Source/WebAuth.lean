import Esp8266.Source.ArduinoOta
import Esp8266.Source.WebServer

/-!
# The credentials of a request

`authenticate`, `authenticateDigest` and `requestAuthentication` of ESP8266WebServer-impl.h, on
the encoder of cores/esp8266/libb64. A `char` is unsigned, as on the target. Memory that is not
there for the buffers is left out.
-/
set_option autoImplicit false

namespace Esp8266.Source.WebServer
open Esp8266.Source.Ota Esp8266.Source.WString

/-! ## libb64 -/

inductive Base64EncodeStep where
  | stepA | stepB | stepC
  deriving DecidableEq, Repr

structure Base64EncodeState where
  step : Base64EncodeStep
  result : UInt8
  stepcount : Nat
  stepsnewline : Int

/-- `BASE64_CHARS_PER_LINE`. -/
def base64CharsPerLine : Nat := 72

def base64InitEncodestate : Base64EncodeState := ⟨.stepA, 0, 0, base64CharsPerLine⟩

def base64EncodeValue (n : UInt8) : UInt8 :=
  if n < 26 then n + 0x41
  else if n < 26 + 26 then n - 26 + 0x61
  else if n < 26 + 26 + 10 then n - 26 - 26 + 0x30
  else if n = 62 then 0x2b
  else 0x2f

/-- cencode.cpp:41. -/
def base64EncodeBlock : List UInt8 → Base64EncodeState → List UInt8 × Base64EncodeState
  | [], state => ([], state)
  | fragment :: plain, state =>
    match state.step with
    | .stepA =>
      let result := (fragment &&& 0xfc) >>> 2
      let (code, last) := base64EncodeBlock plain
        { state with step := .stepB, result := (fragment &&& 0x03) <<< 4 }
      (base64EncodeValue result :: code, last)
    | .stepB =>
      let result := state.result ||| (fragment &&& 0xf0) >>> 4
      let (code, last) := base64EncodeBlock plain
        { state with step := .stepC, result := (fragment &&& 0x0f) <<< 2 }
      (base64EncodeValue result :: code, last)
    | .stepC =>
      let result := state.result ||| (fragment &&& 0xc0) >>> 6
      let low := fragment &&& 0x3f
      let stepcount := state.stepcount + 1
      let breaks := decide (stepcount = base64CharsPerLine / 4 ∧ 0 < state.stepsnewline)
      let (code, last) := base64EncodeBlock plain
        { state with
          step := .stepA
          result := low
          stepcount := if breaks then 0 else stepcount }
      (base64EncodeValue result :: base64EncodeValue low ::
        (if breaks then 0x0a :: code else code), last)

section

variable (fragment result : UInt8) (plain : List UInt8) (stepcount : Nat) (stepsnewline : Int)

@[simp] theorem base64EncodeBlock_nil (state : Base64EncodeState) :
    base64EncodeBlock [] state = ([], state) := rfl

@[simp] theorem base64EncodeBlock_stepA :
    base64EncodeBlock (fragment :: plain) ⟨.stepA, result, stepcount, stepsnewline⟩ =
      (base64EncodeValue ((fragment &&& 0xfc) >>> 2) ::
          (base64EncodeBlock plain
            ⟨.stepB, (fragment &&& 0x03) <<< 4, stepcount, stepsnewline⟩).1,
        (base64EncodeBlock plain
          ⟨.stepB, (fragment &&& 0x03) <<< 4, stepcount, stepsnewline⟩).2) := rfl

@[simp] theorem base64EncodeBlock_stepB :
    base64EncodeBlock (fragment :: plain) ⟨.stepB, result, stepcount, stepsnewline⟩ =
      (base64EncodeValue (result ||| (fragment &&& 0xf0) >>> 4) ::
          (base64EncodeBlock plain
            ⟨.stepC, (fragment &&& 0x0f) <<< 2, stepcount, stepsnewline⟩).1,
        (base64EncodeBlock plain
          ⟨.stepC, (fragment &&& 0x0f) <<< 2, stepcount, stepsnewline⟩).2) := rfl

/-- The last step of a group, with a line feed where a line is full. -/
@[simp] theorem base64EncodeBlock_stepC :
    base64EncodeBlock (fragment :: plain) ⟨.stepC, result, stepcount, stepsnewline⟩ =
      let breaks := decide (stepcount + 1 = base64CharsPerLine / 4 ∧ 0 < stepsnewline)
      let next := base64EncodeBlock plain
        ⟨.stepA, fragment &&& 0x3f, if breaks then 0 else stepcount + 1, stepsnewline⟩
      (base64EncodeValue (result ||| (fragment &&& 0xc0) >>> 6) ::
          base64EncodeValue (fragment &&& 0x3f) ::
          (if breaks then 0x0a :: next.1 else next.1),
        next.2) := rfl

end

def base64EncodeBlockend (state : Base64EncodeState) : List UInt8 :=
  match state.step with
  | .stepB => [base64EncodeValue state.result, 0x3d, 0x3d]
  | .stepC => [base64EncodeValue state.result, 0x3d]
  | .stepA => []

@[simp] theorem base64EncodeBlockend_stepA (result : UInt8) (stepcount : Nat) (perLine : Int) :
    base64EncodeBlockend ⟨.stepA, result, stepcount, perLine⟩ = [] := rfl

@[simp] theorem base64EncodeBlockend_stepB (result : UInt8) (stepcount : Nat) (perLine : Int) :
    base64EncodeBlockend ⟨.stepB, result, stepcount, perLine⟩ =
      [base64EncodeValue result, 0x3d, 0x3d] := rfl

@[simp] theorem base64EncodeBlockend_stepC (result : UInt8) (stepcount : Nat) (perLine : Int) :
    base64EncodeBlockend ⟨.stepC, result, stepcount, perLine⟩ =
      [base64EncodeValue result, 0x3d] := rfl

/-- `base64_encode_chars`, without the NUL it writes behind the code. -/
def base64EncodeChars (plaintext : List UInt8) : List UInt8 :=
  let (code, state) := base64EncodeBlock plaintext base64InitEncodestate
  code ++ base64EncodeBlockend state

/-- `base64_encode_expected_len`; `& ~3` rounds down to a multiple of four. -/
def base64EncodeExpectedLen (n : Nat) : Nat :=
  (4 * n / 3 + 3) / 4 * 4 + (n / (base64CharsPerLine * 3 / 4) + 1)

/-! ## Basic -/

/-- `toencodeLen`, a `char`. -/
def toencodeLen (username password : WString) : Nat :=
  ((cstr username).length + (cstr password).length + 1) % 2 ^ 8

/-- What `sprintf` prints. -/
def credentials (username password : WString) : WString :=
  cstr username ++ [0x3a] ++ cstr password

/-- The bytes of `toencode` that are encoded. -/
def encoded (username password : WString) : WString :=
  base64EncodeChars
    ((credentials username password ++ [0]).take (toencodeLen username password))

/-- The two buffers hold what is written to them, a NUL each included. -/
def BuffersSuffice (username password : WString) : Prop :=
  (credentials username password).length + 1 ≤ toencodeLen username password + 1 ∧
    (encoded username password).length + 1 ≤
      base64EncodeExpectedLen (toencodeLen username password) + 1

/-- The comparison at the end of the Basic part. -/
def acceptsBasic (username password authReq : WString) : Bool :=
  decide (0 < (encoded username password).length) &&
    authReq.equalsConstantTime (encoded username password)

/-! ## Digest -/

/-- The members that remember the last challenge. -/
structure Challenge where
  srealm : WString
  snonce : WString
  sopaque : WString

/-- `strstr`, as an index. -/
def findText (text : WString) : WString → Option Nat
  | [] => if text = [] then some 0 else none
  | c :: rest => if text.isPrefixOf (c :: rest) then some 0 else (findText text rest).map (· + 1)

/-- `indexOf` of a text without NUL, from the beginning. -/
def indexOfText (s text : WString) : Option Nat :=
  if s.length = 0 then none else findText text (cstr s)

/-- ESP8266WebServer-impl.h:119. -/
def extractParam (authReq param : WString) (delimit : UInt8) : WString :=
  match indexOfText authReq param with
  | none => []
  | some start =>
    substring authReq (start + param.length)
      (rightEnd authReq (indexOf authReq delimit (start + param.length)))

def quote : UInt8 := 0x22

/-- `name="`. -/
def quoted (name : String) : WString := ofString name ++ [0x3d, quote]

/-- `credentialHash`. -/
def credentialHash (md5 : List UInt8 → Digest) (username realm password : WString) : WString :=
  md5Builder md5 (username ++ [0x3a] ++ realm ++ [0x3a] ++ password)

/-- The method in the hash of the request. -/
def digestMethod : HTTPMethod → WString
  | .get => ofString "GET:"
  | .post => ofString "POST:"
  | .put => ofString "PUT:"
  | .delete => ofString "DELETE:"
  | _ => ofString "GET:"

/-- `qop=auth`, quoted or not. -/
def hasQopAuth (authReq : WString) : Bool :=
  (indexOfText authReq (ofString "qop=auth")).isSome ||
    (indexOfText authReq (ofString "qop=" ++ [quote] ++ ofString "auth" ++ [quote])).isSome

/-- ESP8266WebServer-impl.h:165. -/
def authenticateDigest (md5 : List UInt8 → Digest) (challenge : Challenge) (method : HTTPMethod)
    (header username h1 : WString) : Bool :=
  if header.length = 0 then false
  else if !startsWith header (ofString "Digest") then false
  else
    let authReq := substring header 7 header.length
    let user := extractParam authReq (quoted "username") quote
    let realm := extractParam authReq (quoted "realm") quote
    let nonce := extractParam authReq (quoted "nonce") quote
    let uri := extractParam authReq (quoted "uri") quote
    let response := extractParam authReq (quoted "response") quote
    let opaq := extractParam authReq (quoted "opaque") quote
    if user.length = 0 || !equals user username then false
    else if realm.length = 0 || nonce.length = 0 || uri.length = 0 || response.length = 0 ||
        opaq.length = 0 then false
    else if !equals opaq challenge.sopaque || !equals nonce challenge.snonce ||
        !equals realm challenge.srealm then false
    else
      let nc := extractParam authReq (ofString "nc=") 0x2c
      let cnonce := extractParam authReq (quoted "cnonce") quote
      let h2 := md5Builder md5 (digestMethod method ++ uri)
      let responsecheck :=
        if hasQopAuth authReq then
          md5Builder md5 (h1 ++ [0x3a] ++ nonce ++ [0x3a] ++ nc ++ [0x3a] ++ cnonce ++
            ofString ":auth:" ++ h2)
        else md5Builder md5 (h1 ++ [0x3a] ++ nonce ++ [0x3a] ++ h2)
      equals response responsecheck

/-- ESP8266WebServer-impl.h:127; the header is the value of Authorization. -/
def authenticate (md5 : List UInt8 → Digest) (challenge : Challenge) (method : HTTPMethod)
    (header username password : WString) : Bool :=
  if header.length = 0 then false
  else if startsWith header (ofString "Basic") then
    acceptsBasic username password (substring header 6 header.length).trim
  else if startsWith header (ofString "Digest") then
    let realm := extractParam header (quoted "realm") quote
    let h1 := credentialHash md5 (cstr username) realm (cstr password)
    authenticateDigest md5 challenge method header (cstr username) h1
  else false

inductive HTTPAuthMethod where
  | basicAuth | digestAuth
  deriving DecidableEq, Repr

/-- The members after `requestAuthentication`; the two random strings are given. -/
def requestAuthentication (mode : HTTPAuthMethod) (realm : Option WString)
    (random : WString × WString) (challenge : Challenge) : Challenge :=
  let srealm := match realm with
    | none => ofString "Login Required"
    | some realm => cstr realm
  match mode with
  | .basicAuth => { challenge with srealm }
  | .digestAuth => ⟨srealm, random.1, random.2⟩

end Esp8266.Source.WebServer
