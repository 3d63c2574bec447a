import Esp8266.Guarantees.ClientUrls
import Esp8266.Source.HttpRedirects
import Mathlib.Data.List.Chain

/-!
# Redirects

The size of a payload is used up while it is sent. Where no request with a payload is repeated,
each request of a chain is what the response before it asks for.
-/
set_option autoImplicit false

namespace Esp8266.Source.HttpClient
open Esp8266.Lib.Decimal Esp8266.Source.WString

/-! ## What the calls leave alone -/

/-- The fields that the response does not change. -/
structure Alike (h h' : HTTPClient) : Prop where
  host : h'.host = h.host
  port : h'.port = h.port
  uri : h'.uri = h.uri
  protocol : h'.protocol = h.protocol
  reuse : h'.reuse = h.reuse
  followRedirects : h'.followRedirects = h.followRedirects
  redirectLimit : h'.redirectLimit = h.redirectLimit

theorem Alike.refl {h : HTTPClient} : Alike h h := ⟨rfl, rfl, rfl, rfl, rfl, rfl, rfl⟩

theorem Alike.trans {h h' h'' : HTTPClient} (first : Alike h h') (second : Alike h' h'') :
    Alike h h'' :=
  ⟨second.host.trans first.host, second.port.trans first.port, second.uri.trans first.uri,
    second.protocol.trans first.protocol, second.reuse.trans first.reuse,
    second.followRedirects.trans first.followRedirects,
    second.redirectLimit.trans first.redirectLimit⟩

/-- The code of the response, and its location, as the lines give them. -/
def Exchange.code (x : Exchange) : Int := (HTTPClient.handleHeaderResponse {} x).2

def Exchange.location (x : Exchange) : WString := (HTTPClient.handleHeaderResponse {} x).1.location

/-- What `setURL` leaves of the settings, and the header list. -/
structure Cleared (h h' : HTTPClient) : Prop where
  headers : h'.headers = []
  reuse : h'.reuse = h.reuse
  followRedirects : h'.followRedirects = h.followRedirects
  redirectLimit : h'.redirectLimit = h.redirectLimit

theorem Cleared.trans {h h' h'' : HTTPClient} (first : Cleared h h') (second : Cleared h' h'') :
    Cleared h h'' :=
  ⟨second.headers, second.reuse.trans first.reuse,
    second.followRedirects.trans first.followRedirects,
    second.redirectLimit.trans first.redirectLimit⟩

/-- A hostname without a colon, or an address in brackets. -/
def IsHost (host : WString) : Prop :=
  0x3a ∉ host ∨ (host.head? = some 0x5b ∧ host.getLast? = some 0x5d)

/-- The target of a request line. -/
def slashed (uri : WString) : WString := if uri.length ≠ 0 then uri else [0x2f]

namespace Round

def Asks (r : Round) (target : WString) : Prop :=
  r.type ++ [0x20] ++ target ++ ofString " HTTP/1." <+: r.text

/-- The last line of the header is the length of the body. -/
def Announces (r : Round) : Prop :=
  ofString "\x0d\x0aContent-Length: " ++ decimal r.body.length ++
    [0x0d, 0x0a, 0x0d, 0x0a] <:+ r.text

/-- The request goes where the location of the response before says: a path, a URL, or a URL
without its scheme. -/
structure Goes (before r : Round) (location : WString) : Prop where
  path : ∀ path, location = 0x2f :: path → path.head? ≠ some 0x2f →
    r.peer = before.peer ∧ r.Asks location
  url : ∀ u : Url, IsHost u.host → location = u.text →
    r.peer = some (u.host, u.portNumber) ∧ r.Asks (slashed u.rest)
  network : ∀ u : Url, IsHost u.host → before.protocol = u.scheme →
    location = 0x2f :: 0x2f :: (u.authority ++ u.rest) →
      r.peer = some (u.host, u.portNumber) ∧ r.Asks (slashed u.rest)

/-- The request is the one that the response before asks for. -/
structure Follows (before r : Round) (code : Int) (location : WString) : Prop where
  response : before.response = some (code, location)
  redirects : (code = 301 ∨ code = 307) ∨ (code = 302 ∨ code = 303)
  same : code = 301 ∨ code = 307 → r.type = before.type ∧ r.body = before.body
  dropped : code = 302 ∨ code = 303 → r.type = ofString "GET" ∧ r.body = []
  goes : before.Goes r location
  announces : r.Announces

end Round

/-- The connection that a kept one is, is to the host and port of the URL. -/
def Settled (h : HTTPClient) (peer : Option (WString × UInt16)) : Prop :=
  h.reuse = true → h.canReuse = true → peer = some (cstr h.host, h.port)

namespace Session
variable {s : Session} {x : Exchange}

/-- The payload is as long as its size says. -/
def Whole (s : Session) : Prop := ∀ p ∈ s.payload, p.length = s.size

/-- The guards of the redirection. -/
def WouldFollow (s : Session) (code : Int) (location : WString) : Prop :=
  s.client.followRedirects ≠ .disable ∧ s.redirectCount < s.client.redirectLimit.toNat ∧
    0 < location.length ∧
    (((code = 301 ∨ code = 307) ∧ s.Repeats) ∨ (code = 302 ∨ code = 303))

instance (s : Session) (code : Int) (location : WString) :
    Decidable (s.WouldFollow code location) :=
  inferInstanceAs (Decidable (_ ∧ _ ∧ _ ∧ _))

/-- What is behind a redirection that is made. -/
structure Turned (s : Session) (code : Int) (s' : Session) : Prop where
  follows : s.WouldFollow code s.client.location
  set : (s.client.setURL s.client.location).2 = true
  client : s'.client = (s.client.setURL s.client.location).1
  peer : s'.peer = s.peer
  count : s'.redirectCount = s.redirectCount + 1
  same : code = 301 ∨ code = 307 →
    s'.type = s.type ∧ s'.payload = s.payload ∧ s'.size = s.size
  dropped : code = 302 ∨ code = 303 → s'.type = ofString "GET" ∧ s'.payload = none

/-- What the first half of a round does. -/
structure Sent (s s' : Session) (sent : Round) (code : Option Int) : Prop where
  client : Alike s.client s'.client
  type : s'.type = s.type
  payload : s'.payload = s.payload
  count : s'.redirectCount = s.redirectCount
  size : ¬ s.Carries → s'.size = s.size
  method : sent.type = s.type
  protocol : sent.protocol = s.client.protocol
  open_ : sent.response = none
  failed : ∀ c ∈ code, c < 0
  peer : code = none → sent.peer = some (cstr s.client.host, s.client.port) ∧ s'.peer = sent.peer
  body : code = none → sent.body = s.payload.getD []
  asks : code = none → sent.Asks (slashed s.client.uri)
  announces : code = none → s.client.headers = [] → sent.Announces

/-- What the second half does. -/
structure Received (s : Session) (x : Exchange) (sent : Round) (s' : Session) (done : Round)
    (code : Option Int) : Prop where
  answered : ∃ location, done = { sent with response := some (x.code, location) }
  returned : ∀ c ∈ code, c = x.code
  next : code = none → done.response = some (x.code, x.location) ∧
    ∃ client, Alike s.client client ∧ client.location = x.location ∧
      { s with client }.Turned x.code s'

end Session

/-! ## From one round to the next -/

/-- A location that the parser of URLs understands: not one without a scheme, and where it is a
URL, a slash ends its authority and its hostname has no colon. -/
def Understood (location : WString) : Prop :=
  ¬ [0x2f, 0x2f] <+: location ∧
    ∀ u : Url, IsHost u.host → location = u.text →
      (∀ c ∈ u.rest.head?, c = 0x2f) ∧ 0x3a ∉ u.host

namespace Session

/-- A redirection that is followed repeats no payload, and its location is understood. -/
def Clean (s : Session) (x : Exchange) : Prop :=
  s.WouldFollow x.code x.location →
    (x.code = 301 ∨ x.code = 307 → ¬ s.Carries) ∧ Understood x.location

def CleanRun : List Exchange → Session → Prop
  | [], _ => True
  | x :: exchanges, s =>
    s.Clean x ∧ ((s.round x).2.2 = none → CleanRun exchanges (s.round x).1)

end Session

/-- What holds at the start of every round. -/
structure Ready (s : Session) : Prop where
  settled : Settled s.client s.peer
  whole : s.Whole

/-- A request that was sent is what the response before it asks for. -/
def Linked (before r : Round) : Prop :=
  r.response ≠ none → ∃ code location, before.Follows r code location

/-- The code that is returned is that of the last response; it is negative where the last
request was not sent. -/
def Returns (log : List Round) (code : Int) : Prop :=
  ∃ last ∈ log.getLast?, (∀ answer, last.response = some answer → code = answer.1) ∧
    (last.response = none → code < 0)

end Esp8266.Source.HttpClient
