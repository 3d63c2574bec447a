import Esp8266.Source.HttpClient

/-!
# Sending a stream

`HTTPClient::sendRequest` with a stream, ESP8266HTTPClient.cpp:787. Each pass of the loop is told
what the stream and the connection answer. `bytesWritten` has room for every count but those of
an upload with the size 2^32 - 1, which is an endless one; the model goes on counting there.
-/
set_option autoImplicit false

namespace Esp8266.Source.HttpClient
open Esp8266.Lib.Decimal Esp8266.Source.WString

/-- `HTTP_TCP_BUFFER_SIZE`. -/
def httpTcpBufferSize : Nat := 1460

def httpcErrorConnectionFailed : Int := -1
def httpcErrorSendHeaderFailed : Int := -2
def httpcErrorSendPayloadFailed : Int := -3
def httpcErrorNotConnected : Int := -4
def httpcErrorConnectionLost : Int := -5
def httpcErrorNoStream : Int := -6
def httpcErrorNoHttpServer : Int := -7
def httpcErrorTooLessRam : Int := -8
def httpcErrorEncoding : Int := -9
def httpcErrorReadTimeout : Int := -11

namespace HTTPClient

/-- The text that `sendHeader` makes: the request line, the headers of its own, and all. -/
def requestLine (h : HTTPClient) (type : WString) : WString :=
  type ++ [0x20] ++ (if h.uri.length ≠ 0 then h.uri else [0x2f]) ++ ofString " HTTP/1." ++
    (if h.useHTTP10 then [0x30] else [0x31])

def ownHeaders (h : HTTPClient) : WString :=
  ofString "\x0d\x0aHost: " ++ h.host ++
    (if h.port ≠ 80 ∧ h.port ≠ 443 then 0x3a :: decimal h.port.toNat else []) ++
    ofString "\x0d\x0aUser-Agent: " ++ h.userAgent ++
    (if !h.useHTTP10 then ofString "\x0d\x0aAccept-Encoding: identity;q=1,chunked;q=0.1,*;q=0"
      else []) ++
    (if h.base64Authorization.length ≠ 0 then
      ofString "\x0d\x0aAuthorization: Basic " ++ h.base64Authorization else []) ++
    ofString "\x0d\x0aConnection: " ++
    (if h.reuse then ofString "keep-alive" else ofString "close")

def headerText (h : HTTPClient) (type : WString) : WString :=
  h.requestLine type ++ (h.ownHeaders ++ [0x0d, 0x0a] ++ h.headers ++ [0x0d, 0x0a])

end HTTPClient

/-- What one pass of the loop is told: `connected`, `available` when the loop asks and again in
its body, how many of the bytes that are asked for `readBytes` gets, how many bytes the two
calls of `write` take, and `getWriteError` at the end. -/
structure Pass where
  connected : Bool
  available : Nat
  sizeAvailable : Nat
  got : Nat
  taken : Nat
  takenAgain : Nat
  writeError : Bool
  deriving DecidableEq

/-- The upload: what the stream still has and what it has delivered, what was sent after the
header, the memory of `buff`, and the counters. -/
structure Upload where
  source : List UInt8
  delivered : List UInt8
  sent : List UInt8
  buff : Nat → UInt8
  len : Int
  bytesWritten : Int

namespace Upload

/-- The bytes of `buff` from `start` on. -/
def bytes (u : Upload) (start count : Nat) : List UInt8 :=
  (List.range count).map fun i => u.buff (start + i)

/-- `readBytes` into `buff`. -/
def readBytes (u : Upload) (count : Nat) : Upload :=
  let block := u.source.take count
  { u with
    source := u.source.drop count
    delivered := u.delivered ++ block
    buff := fun i => if i < block.length then block.getD i 0 else u.buff i }

/-- `write` of bytes from `buff` of which the connection takes the first `count`. -/
def write (u : Upload) (start count : Nat) : Upload :=
  { u with sent := u.sent ++ u.bytes start count, bytesWritten := u.bytesWritten + count }

/-- How many bytes a pass asks for. -/
def asked (u : Upload) (buffSize : Nat) (pass : Pass) : Nat :=
  let readBytes := pass.sizeAvailable
  let readBytes := if 0 < u.len ∧ u.len < readBytes then u.len.toNat else readBytes
  if buffSize < readBytes then buffSize else readBytes

/-- How many bytes `readBytes` delivers, and how many of them the first `write` takes. -/
def bytesRead (u : Upload) (buffSize : Nat) (pass : Pass) : Nat :=
  min (min pass.got (u.asked buffSize pass)) u.source.length

def bytesWrite (u : Upload) (buffSize : Nat) (pass : Pass) : Nat :=
  min pass.taken (u.bytesRead buffSize pass)

/-- The body of the loop, where the stream has something; the result is an error code. -/
def transfer (u : Upload) (buffSize : Nat) (pass : Pass) : Upload × Option Int :=
  let readBytes := u.asked buffSize pass
  let bytesRead := u.bytesRead buffSize pass
  let bytesWrite := u.bytesWrite buffSize pass
  let finish := fun u : Upload =>
    if pass.writeError then (u, some httpcErrorSendPayloadFailed)
    else ({ u with len := if 0 < u.len then u.len - readBytes else u.len }, none)
  let u := (u.readBytes bytesRead).write 0 bytesWrite
  if bytesWrite ≠ bytesRead then
    let leftBytes := readBytes - bytesWrite
    let again := min pass.takenAgain leftBytes
    let u := u.write bytesWrite again
    if again ≠ leftBytes then (u, some httpcErrorSendPayloadFailed) else finish u
  else finish u

end Upload

/-- Where an upload is: in its loop, behind it, or left with a code. -/
inductive Progress where
  | running
  | left
  | failed (code : Int)
  deriving DecidableEq

/-- The condition of the loop. -/
def Upload.Continues (u : Upload) (pass : Pass) : Prop :=
  pass.connected ∧ 0 < pass.available ∧ (0 < u.len ∨ u.len = -1)

instance (u : Upload) (pass : Pass) : Decidable (u.Continues pass) :=
  inferInstanceAs (Decidable (_ ∧ _))

/-- The loop, for as many passes as are given. -/
def uploadLoop (buffSize : Nat) : List Pass → Upload → Upload × Progress
  | [], u => (u, .running)
  | pass :: passes, u =>
    if u.Continues pass then
      if pass.sizeAvailable ≠ 0 then
        match u.transfer buffSize pass with
        | (u, some code) => (u, .failed code)
        | (u, none) => uploadLoop buffSize passes u
      else uploadLoop buffSize passes u
    else (u, .left)

/-- What the call is told in front of its loop: whether there is a connection, whether the header
is sent, and whether there is memory; and what that memory has in it. -/
structure Opening where
  connects : Bool
  headerSent : Bool
  allocates : Bool
  memory : Nat → UInt8

/-- The call goes as far as its loop. -/
def Opening.Enters (opening : Opening) (stream : Option (List UInt8)) : Prop :=
  stream.isSome ∧ opening.connects ∧ opening.headerSent ∧ opening.allocates

/-- A call in its loop, left with a code, or about to read the response. -/
inductive Outcome where
  | running
  | returned (code : Int)
  | response
  deriving DecidableEq

/-- A size as an `int`. -/
def toInt (size : UInt32) : Int :=
  if size.toNat < 2 ^ 31 then size.toNat else size.toNat - 2 ^ 32

/-- `len` at the start: no size means no end. -/
def uploadLen (size : UInt32) : Int := if toInt size = 0 then -1 else toInt size

/-- The size of `buff`. -/
def uploadBuffSize (size : UInt32) : Nat :=
  if 0 < uploadLen size ∧ uploadLen size < httpTcpBufferSize then (uploadLen size).toNat
  else httpTcpBufferSize

/-- The upload in front of the loop. -/
def Upload.start (source : List UInt8) (size : UInt32) (memory : Nat → UInt8) : Upload :=
  { source, delivered := [], sent := [], buff := memory, len := uploadLen size, bytesWritten := 0 }

/-- What follows the loop, ESP8266HTTPClient.cpp:902. -/
def Upload.finish (u : Upload) (size : UInt32) : Progress → Outcome
  | .running => .running
  | .failed code => .returned code
  | .left =>
    if size ≠ 0 ∧ toInt size ≠ u.bytesWritten then .returned httpcErrorSendPayloadFailed
    else .response

/-- ESP8266HTTPClient.cpp:787, up to where the response is read: the header, the upload, and how
far the call has come. A null stream is `none`. -/
def HTTPClient.sendStream (h : HTTPClient) (type : WString) (stream : Option (List UInt8))
    (size : UInt32) (opening : Opening) (passes : List Pass) : WString × Upload × Outcome :=
  let idle := Upload.start (stream.getD []) size opening.memory
  if stream.isNone then ([], idle, .returned httpcErrorNoStream)
  else if !opening.connects then ([], idle, .returned httpcErrorConnectionFailed)
  else
    let h :=
      if 0 < size then h.addHeader (ofString "Content-Length") (decimal size.toNat) false true
      else h
    if !opening.headerSent then ([], idle, .returned httpcErrorSendHeaderFailed)
    else if opening.allocates then
      let (u, progress) := uploadLoop (uploadBuffSize size) passes idle
      (h.headerText type, u, u.finish size progress)
    else (h.headerText type, idle, .returned httpcErrorTooLessRam)

end Esp8266.Source.HttpClient
