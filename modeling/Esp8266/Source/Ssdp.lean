import Esp8266.Source.WString

/-!
# SSDPClass

libraries/ESP8266SSDP/ESP8266SSDP.cpp:299-421, the parsing loop of `_update`, with the sizes of
ESP8266SSDP.h:38-42. The datagram that `_server->next()` finds is the list of its characters, which
are unsigned. A store outside of `buffer` ends the model. The clock stands still in the loop;
`random` is a parameter.
-/
set_option autoImplicit false

namespace Esp8266.Source.Ssdp
open Esp8266.Source.WString

inductive Fault where
  | outside
deriving DecidableEq

/-- `SSDP_BUFFER_SIZE`, `SSDP_METHOD_SIZE` and `SSDP_URI_SIZE` -/
def bufferSize : Nat := 64

def methodSize : Nat := 10

def uriSize : Nat := 2

/-- `_deviceType` and `_uuid`, strings in arrays of 64 and 42 characters. -/
structure SSDPClass where
  deviceType : WString
  uuid : WString
  typeFits : deviceType.length < 64
  uuidFits : uuid.length < 42
  typePlain : 0 ∉ deviceType
  uuidPlain : 0 ∉ uuid

inductive State where
  | method | uri | proto | key | value | abort
deriving DecidableEq

inductive Header where
  | start | man | st | mx
deriving DecidableEq

abbrev Buffer := {bytes : List UInt8 // bytes.length = bufferSize}

/-- The locals of the loop, and the members it changes. -/
structure Parser where
  search : Bool
  state : State
  header : Header
  cursor : Nat
  cr : UInt8
  buffer : Buffer
  pending : Bool
  stIsUuid : Bool
  delay : UInt16
  processTime : UInt32

/-- What stands in front of the loop; `_pending` is false there. -/
def Parser.begin (stIsUuid : Bool) (delay : UInt16) (processTime : UInt32) : Parser where
  search := false
  state := .method
  header := .start
  cursor := 0
  cr := 0
  buffer := ⟨List.replicate bufferSize 0, List.length_replicate⟩
  pending := false
  stIsUuid
  delay
  processTime

def IsEnd (c : UInt8) : Prop := c = 0x0d ∨ c = 0x0a

instance (c : UInt8) : Decidable (IsEnd c) := inferInstanceAs (Decidable (_ ∨ _))

namespace Parser

/-- `buffer[cursor++] = c; buffer[cursor] = '\0'` -/
def put (c : UInt8) (p : Parser) : Except Fault Parser :=
  if p.cursor + 1 < bufferSize then
    .ok { p with
      buffer := ⟨(p.buffer.1.set p.cursor c).set (p.cursor + 1) 0, by
        rw [List.length_set, List.length_set]
        exact p.buffer.2⟩
      cursor := p.cursor + 1 }
  else .error .outside

/-- `buffer` as a string. -/
def text (p : Parser) : WString := cstr p.buffer.1

/-- `strcasecmp(s, t) == 0` -/
def strcasecmp (s t : WString) : Bool := (cstr s).map toLower = (cstr t).map toLower

def stepMethod (c : UInt8) (p : Parser) : Except Fault Parser :=
  if c = 0x20 then
    let search := p.search || decide (p.text = ofString "M-SEARCH")
    .ok { p with search, state := if search then .uri else .abort, cursor := 0 }
  else if p.cursor < methodSize - 1 then p.put c
  else .ok p

def stepUri (c : UInt8) (p : Parser) : Except Fault Parser :=
  if c = 0x20 then
    .ok { p with state := if p.text = ofString "*" then .proto else .abort, cursor := 0 }
  else if p.cursor < uriSize - 1 then p.put c
  else .ok p

def stepProto (p : Parser) : Parser :=
  if p.cr = 2 then { p with state := .key, cursor := 0 } else p

def stepKey (millis : UInt32) (c : UInt8) (p : Parser) : Except Fault Parser :=
  if p.cr = 4 then .ok { p with pending := true, processTime := millis }
  else if c = 0x20 then .ok { p with cursor := 0, state := .value }
  else if c ≠ 0x0d ∧ c ≠ 0x0a ∧ c ≠ 0x3a ∧ p.cursor < bufferSize - 1 then p.put c
  else .ok p

/-- The value of an ST header is compared. -/
def compareSt (own : SSDPClass) (millis : UInt32) (p : Parser) : Parser :=
  let p := if p.text ≠ ofString "ssdp:all" then { p with state := .abort }
    else { p with stIsUuid := false }
  let p := if strcasecmp p.text own.deviceType then
      { p with pending := true, stIsUuid := false, processTime := millis, state := .key }
    else p
  if strcasecmp p.text own.uuid then
    { p with pending := true, stIsUuid := true, processTime := millis, state := .key }
  else p

/-- The end of a header line. -/
def endValue (own : SSDPClass) (millis : UInt32) (random : Int → Int → Int) (p : Parser) :
    Parser :=
  let p := match p.header with
    | .start => p
    | .man => p
    | .st => p.compareSt own millis
    | .mx => { p with delay := UInt16.ofInt (random 0 (toInt p.text) * 1000) }
  if p.state ≠ .abort then { p with state := .key, header := .start, cursor := 0 } else p

/-- The header that a key is of. -/
def headerOf (text : WString) : Header :=
  if text.take 2 = ofString "MA" then .man
  else if text = ofString "ST" then .st
  else if text = ofString "MX" then .mx
  else .start

def stepValue (own : SSDPClass) (millis : UInt32) (random : Int → Int → Int) (c : UInt8)
    (p : Parser) : Except Fault Parser :=
  if p.cr = 2 then .ok (p.endValue own millis random)
  else if c ≠ 0x0d ∧ c ≠ 0x0a then
    let p := if p.header = .start then { p with header := headerOf p.text } else p
    if p.cursor < bufferSize - 1 then p.put c else .ok p
  else .ok p

/-- The body of the loop for a character. -/
def step (own : SSDPClass) (millis : UInt32) (random : Int → Int → Int) (p : Parser) (c : UInt8) :
    Except Fault Parser :=
  let p := { p with cr := if IsEnd c then p.cr + 1 else 0 }
  match p.state with
  | .method => p.stepMethod c
  | .uri => p.stepUri c
  | .proto => .ok p.stepProto
  | .key => p.stepKey millis c
  | .value => p.stepValue own millis random c
  | .abort => .ok { p with pending := false, delay := 0 }

end Parser

/-- The parsing loop of `_update`. -/
def update (own : SSDPClass) (millis : UInt32) (random : Int → Int → Int) (p : Parser)
    (datagram : List UInt8) : Except Fault Parser :=
  datagram.foldlM (Parser.step own millis random) p

end Esp8266.Source.Ssdp
