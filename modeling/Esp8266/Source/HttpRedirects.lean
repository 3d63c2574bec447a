import Esp8266.Source.HttpUpload

/-!
# Sending a payload and following redirects

`HTTPClient::sendRequest` with a payload, ESP8266HTTPClient.cpp:665, with the calls that a round
of its loop makes. Each round is told what the connection answers. `redirectCount` is smaller
than a limit of 16 bits whenever it is increased.
-/
set_option autoImplicit false

namespace Esp8266.Source.HttpClient
open Esp8266.Lib.Decimal Esp8266.Source.WString

/-- What ends the reading of header lines where no empty line does. -/
inductive Ending where
  | timeout
  | closed
  deriving DecidableEq

/-- What the connection answers in a round: `connected` where a kept connection is to be used
again, `connect` of the client, `connected` behind it and in `sendHeader`, how many bytes of the
header are taken, the results of `write` for the payload (0 from the end of the list on),
`connected` in `handleHeaderResponse`, and the lines that are read. -/
structure Exchange where
  kept : Bool
  connects : Bool
  up : Bool
  ready : Bool
  headerTaken : Nat
  writes : List Int
  answering : Bool
  lines : List WString
  ending : Ending
  deriving DecidableEq

namespace HTTPClient

/-- ESP8266HTTPClient.cpp:542; the disconnecting leaves no trace in the object but in
`_canReuse`. -/
def setURL (h : HTTPClient) (url : WString) : HTTPClient × Bool :=
  if url.charAt 0 = 0x2f then ({ h with uri := url }.clear, true)
  else if !url.startsWith (h.protocol ++ [0x3a]) then (h, false)
  else { h with canReuse := false }.beginInternal url none

/-- The values of the request before are forgotten. -/
def wipe (h : HTTPClient) : HTTPClient :=
  { h with currentHeaders := h.currentHeaders.map fun (key, _) => (key, []) }

/-! ## The response -/

/-- A header that is collected gets the value, behind a comma where it has one. -/
def collect (headerName headerValue : WString) :
    List (WString × WString) → List (WString × WString)
  | [] => []
  | (key, value) :: rest =>
    if key.equalsIgnoreCase headerName then
      (key, if value.length ≠ 0 then value ++ [0x2c] ++ headerValue else headerValue) :: rest
    else (key, value) :: collect headerName headerValue rest

/-- A line that begins with `HTTP/1.`. -/
def statusLine (h : HTTPClient) (headerLine : WString) : HTTPClient :=
  let canReuse := h.canReuse && decide (headerLine.charAt 7 ≠ 0x30)
  let returnCode :=
    WString.toInt (headerLine.substring 9 (headerLine.rightEnd (headerLine.indexOf 0x20 9)))
  { h with returnCode, canReuse := canReuse && decide (0 < returnCode ∧ returnCode < 500) }

/-- A line with a colon that does not begin it, and the transfer encoding that is known. -/
def headerField (h : HTTPClient) (headerLine : WString) (headerSeparator : Nat)
    (transferEncoding : WString) : HTTPClient × WString :=
  let headerName := headerLine.substring 0 headerSeparator
  let headerValue := (headerLine.substring (headerSeparator + 1) headerLine.length).trim
  let size :=
    if headerName.equalsIgnoreCase (ofString "Content-Length") then headerValue.toInt else h.size
  let canReuse :=
    if h.canReuse && headerName.equalsIgnoreCase (ofString "Connection") then
      !(decide (0 ≤ headerValue.indexOfString (ofString "close") 0) &&
        decide (headerValue.indexOfString (ofString "keep-alive") 0 < 0))
    else h.canReuse
  let transferEncoding :=
    if headerName.equalsIgnoreCase (ofString "Transfer-Encoding") then headerValue
    else transferEncoding
  let location :=
    if headerName.equalsIgnoreCase (ofString "Location") then headerValue else h.location
  ({ h with
      size, canReuse, location,
      currentHeaders := collect headerName headerValue h.currentHeaders },
    transferEncoding)

/-- The empty line. -/
def endOfHeader (h : HTTPClient) (transferEncoding : WString) : HTTPClient × Int :=
  if 0 < transferEncoding.length ∧
      ¬ transferEncoding.equalsIgnoreCase (ofString "chunked") then (h, httpcErrorEncoding)
  else
    let encoding :=
      if 0 < transferEncoding.length then TransferEncoding.chunked else .identity
    ({ h with transferEncoding := encoding },
      if h.returnCode ≠ 0 then h.returnCode else httpcErrorNoHttpServer)

/-- The loop over the lines. -/
def readHeader (ending : Ending) :
    List WString → HTTPClient → WString → HTTPClient × Int
  | [], h, _ =>
    (h, match ending with
      | .timeout => httpcErrorReadTimeout
      | .closed => httpcErrorConnectionLost)
  | headerLine :: lines, h, transferEncoding =>
    if headerLine.startsWith (ofString "HTTP/1.") then
      readHeader ending lines (h.statusLine headerLine) transferEncoding
    else
      let headerSeparator := headerLine.indexOf 0x3a 0
      if 0 < headerSeparator then
        let (h, transferEncoding) :=
          h.headerField headerLine headerSeparator.toNat transferEncoding
        readHeader ending lines h transferEncoding
      else if headerLine.trim.length = 0 then h.endOfHeader transferEncoding
      else readHeader ending lines h transferEncoding

/-- ESP8266HTTPClient.cpp:1322. -/
def handleHeaderResponse (h : HTTPClient) (x : Exchange) : HTTPClient × Int :=
  if !x.answering then (h, httpcErrorNotConnected)
  else
    let h := { h.clear with canReuse := h.reuse, transferEncoding := .identity }
    readHeader x.ending x.lines h []

end HTTPClient

/-! ## The rounds -/

/-- The variables of `sendRequest`, with the object and with the host and port that the
connection goes to. -/
structure Session where
  client : HTTPClient
  peer : Option (WString × UInt16)
  type : WString
  payload : Option (List UInt8)
  size : Nat
  redirectCount : Nat

/-- What a round did: where its connection went, what it sent of header and payload, and, where
it sent all of both, the result of `handleHeaderResponse` with the location. -/
structure Round where
  peer : Option (WString × UInt16)
  protocol : WString
  type : WString
  text : WString
  body : List UInt8
  response : Option (Int × WString)

/-- The loop that writes the payload: what is taken, what is left of `size`, and an error. -/
def writePayload (payload : List UInt8) (originalSize : Nat) :
    List Int → Nat → Nat → List UInt8 × Nat × Option Int
  | [], bytesWritten, size =>
    ([], size, if bytesWritten < originalSize then some httpcErrorConnectionLost else none)
  | written :: writes, bytesWritten, size =>
    if bytesWritten < originalSize then
      let towrite := min size httpTcpBufferSize
      if written < 0 then ([], size, some httpcErrorSendPayloadFailed)
      else if written = 0 then ([], size, some httpcErrorConnectionLost)
      else
        let taken := min written.toNat towrite
        let (sent, left, code) :=
          writePayload payload originalSize writes (bytesWritten + taken) (size - taken)
        ((payload.drop bytesWritten).take taken ++ sent, left, code)
    else ([], size, none)

namespace Session

/-- ESP8266HTTPClient.cpp:1207; a client that is missing does not connect. -/
def connect (s : Session) (x : Exchange) : Session × Bool :=
  if s.client.reuse ∧ s.client.canReuse ∧ x.kept then (s, true)
  else if !x.connects then (s, false)
  else ({ s with peer := some (cstr s.client.host, s.client.port) }, x.up)

/-- Whether the payload is sent. -/
def Carries (s : Session) : Prop := s.payload.isSome ∧ 0 < s.size

instance (s : Session) : Decidable s.Carries := inferInstanceAs (Decidable (_ ∧ _))

/-- The header, with the length of the payload. -/
def announce (s : Session) : Session :=
  let length := if s.Carries then s.size else 0
  { s with
    client := s.client.addHeader (ofString "Content-Length") (decimal length) false true }

/-- The payload, if there is one. -/
def sendPayload (s : Session) (x : Exchange) : Session × List UInt8 × Option Int :=
  if s.Carries then
    let (sent, size, code) := writePayload (s.payload.getD []) s.size x.writes 0 s.size
    ({ s with size }, sent, code)
  else (s, [], none)

/-- The methods that are redirected without force. -/
def Repeats (s : Session) : Prop :=
  s.client.followRedirects = .force ∨ s.type.equalsText (ofString "GET") ∨
    s.type.equalsText (ofString "HEAD")

instance (s : Session) : Decidable s.Repeats := inferInstanceAs (Decidable (_ ∨ _ ∨ _))

/-- The redirection that a response asks for; the Boolean is `redirect`. -/
def redirect (s : Session) (code : Int) : Session × Bool :=
  if s.client.followRedirects ≠ .disable ∧ s.redirectCount < s.client.redirectLimit.toNat ∧
      0 < s.client.location.length then
    if code = 301 ∨ code = 307 then
      if s.Repeats then
        let (client, set) := s.client.setURL s.client.location
        ({ s with client, redirectCount := s.redirectCount + 1 }, set)
      else (s, false)
    else if code = 302 ∨ code = 303 then
      let (client, set) := s.client.setURL s.client.location
      let s := { s with client, redirectCount := s.redirectCount + 1 }
      if set then ({ s with type := ofString "GET", payload := none, size := 0 }, true)
      else (s, false)
    else (s, false)
  else (s, false)

/-- The first half of a round: what it sent, and an error. -/
def send (s : Session) (x : Exchange) : Session × Round × Option Int :=
  let s := { s with client := s.client.wipe }
  let (s, connected) := s.connect x
  let idle : Round :=
    { peer := s.peer, protocol := s.client.protocol, type := s.type, text := [], body := [],
      response := none }
  if !connected then (s, idle, some httpcErrorConnectionFailed)
  else
    let s := s.announce
    let text := s.client.headerText s.type
    if !x.ready then (s, idle, some httpcErrorSendHeaderFailed)
    else if x.headerTaken < text.length then
      (s, { idle with text := text.take x.headerTaken }, some httpcErrorSendHeaderFailed)
    else
      let (s, body, code) := s.sendPayload x
      (s, { idle with text, body }, code)

/-- The second half: the response, and the code that the call returns unless it goes on. -/
def receive (s : Session) (x : Exchange) (sent : Round) : Session × Round × Option Int :=
  let (client, code) := s.client.handleHeaderResponse x
  let s := { s with client }
  let (s, redirect) := s.redirect code
  (s, { sent with response := some (code, client.location) },
    if redirect then none else some code)

/-- One round of the loop. -/
def round (s : Session) (x : Exchange) : Session × Round × Option Int :=
  match s.send x with
  | (s, sent, some code) => (s, sent, some code)
  | (s, sent, none) => s.receive x sent

/-- The loop, for as many rounds as are given; no code means that it goes on. -/
def rounds : List Exchange → Session → Session × List Round × Option Int
  | [], s => (s, [], none)
  | x :: exchanges, s =>
    match s.round x with
    | (s, done, some code) => (s, [done], some code)
    | (s, done, none) =>
      let (s, log, code) := rounds exchanges s
      (s, done :: log, code)

end Session

end Esp8266.Source.HttpClient
