import Esp8266.Lib.Chunked
import Esp8266.Source.WebServer

/-!
# Responses

libraries/ESP8266WebServer/src/ESP8266WebServer-impl.h:307-530 and 660-709: the members of a
server, the calls that a handler makes, and what the client of a request is sent. Writes to the
client are complete.
-/
set_option autoImplicit false

namespace Esp8266.Source.WebServer
open Esp8266.Lib.Chunked Esp8266.Lib.Decimal Esp8266.Source.QueryString Esp8266.Source.WString

/-- The members of `ESP8266WebServerTemplate` that a request or a response uses. -/
structure Server where
  currentMethod : HTTPMethod
  currentUri : WString
  currentVersion : Nat
  /-- The first `_currentArgCount` of `_currentArgs`. -/
  currentArgs : List RequestArgument
  /-- The first `_postArgsLen` of `_postArgs`. -/
  postArgs : List RequestArgument
  currentHeaders : List RequestArgument
  hostHeader : WString
  contentLength : Nat
  responseHeaders : WString
  chunked : Bool
  corsEnabled : Bool
  /-- What `_currentClient` was sent. -/
  written : List UInt8
  deriving DecidableEq

/-- `CONTENT_LENGTH_UNKNOWN` and `CONTENT_LENGTH_NOT_SET`. -/
def contentLengthUnknown : Nat := 2 ^ 32 - 1
def contentLengthNotSet : Nat := 2 ^ 32 - 2

/-- `String(int)`. -/
def stringOfInt (value : Int) : WString :=
  if value < 0 then 0x2d :: decimal value.natAbs else decimal value.natAbs

def responseCodeToString (code : Int) : WString :=
  ofString <| match code with
    | 100 => "Continue"
    | 101 => "Switching Protocols"
    | 200 => "OK"
    | 201 => "Created"
    | 202 => "Accepted"
    | 203 => "Non-Authoritative Information"
    | 204 => "No Content"
    | 205 => "Reset Content"
    | 206 => "Partial Content"
    | 300 => "Multiple Choices"
    | 301 => "Moved Permanently"
    | 302 => "Found"
    | 303 => "See Other"
    | 304 => "Not Modified"
    | 305 => "Use Proxy"
    | 307 => "Temporary Redirect"
    | 400 => "Bad Request"
    | 401 => "Unauthorized"
    | 402 => "Payment Required"
    | 403 => "Forbidden"
    | 404 => "Not Found"
    | 405 => "Method Not Allowed"
    | 406 => "Not Acceptable"
    | 407 => "Proxy Authentication Required"
    | 408 => "Request Timeout"
    | 409 => "Conflict"
    | 410 => "Gone"
    | 411 => "Length Required"
    | 412 => "Precondition Failed"
    | 413 => "Request Entity Too Large"
    | 414 => "URI Too Long"
    | 415 => "Unsupported Media Type"
    | 416 => "Range not satisfiable"
    | 417 => "Expectation Failed"
    | 500 => "Internal Server Error"
    | 501 => "Not Implemented"
    | 502 => "Bad Gateway"
    | 503 => "Service Unavailable"
    | 504 => "Gateway Timeout"
    | 505 => "HTTP Version not supported"
    | _ => ""

namespace Server

/-- `_currentClient.write`. -/
def write (bytes : List UInt8) (server : Server) : Server :=
  { server with written := server.written ++ bytes }

def sendHeader (name value : WString) (first : Bool) (server : Server) : Server :=
  let headerLine := name ++ ofString ": " ++ value ++ ofString "\r\n"
  if first then { server with responseHeaders := headerLine ++ server.responseHeaders }
  else { server with responseHeaders := server.responseHeaders ++ headerLine }

def setContentLength (contentLength : Nat) (server : Server) : Server :=
  { server with contentLength }

/-- `_prepareHeader`, the header and the server. -/
def prepareHeader (code : Int) (contentType : Option WString) (contentLength : Nat)
    (server : Server) : WString × Server :=
  let response := ofString "HTTP/1." ++ decimal server.currentVersion ++ [0x20] ++
    stringOfInt code ++ [0x20] ++ responseCodeToString code ++ ofString "\r\n"
  let contentType := contentType.getD (ofString "text/html")
  let server := server.sendHeader (ofString "Content-Type") (cstr contentType) true
  let server :=
    if server.contentLength = contentLengthNotSet then
      server.sendHeader (ofString "Content-Length") (decimal contentLength) false
    else if server.contentLength ≠ contentLengthUnknown then
      server.sendHeader (ofString "Content-Length") (decimal server.contentLength) false
    else if server.currentVersion ≠ 0 then
      let server := { server with chunked := true }
      let server := server.sendHeader (ofString "Accept-Ranges") (ofString "none") false
      server.sendHeader (ofString "Transfer-Encoding") (ofString "chunked") false
    else server
  let server :=
    if server.corsEnabled then
      server.sendHeader (ofString "Access-Control-Allow-Origin") (ofString "*") false
    else server
  let server := server.sendHeader (ofString "Connection") (ofString "close") false
  (response ++ server.responseHeaders ++ ofString "\r\n", { server with responseHeaders := [] })

/-- What `sendContent` and `sendContent_P` have in common: the content, in a chunk if the response
has chunks. -/
def writeContent (content : List UInt8) (server : Server) : Server :=
  let server :=
    if server.chunked then server.write (hexadecimal content.length ++ ofString "\r\n") else server
  let server := server.write content
  if server.chunked then
    let server := server.write (ofString "\r\n")
    if content.length = 0 then { server with chunked := false } else server
  else server

def sendContent (content : WString) (server : Server) : Server :=
  if server.currentMethod = .head then server else server.writeContent content

/-- `sendContent_P` with a size. -/
def sendContentP (content : List UInt8) (server : Server) : Server := server.writeContent content

def send (code : Int) (contentType : Option WString) (content : WString) (server : Server) :
    Server :=
  let (header, server) := server.prepareHeader code contentType content.length
  let server := server.write header
  if content.length ≠ 0 then server.sendContent content else server

/-- `send_P` with a length; the type is read from an array of 64 bytes, and from what the stack
holds behind it if there is no NUL in it. -/
def sendP (code : Int) (contentType behind : WString) (content : List UInt8) (server : Server) :
    Server :=
  let type := (cstr contentType ++ [0]).take 64 ++ behind
  let (header, server) := server.prepareHeader code (some type) content.length
  let server := server.write header
  if content.length ≠ 0 then server.sendContentP content else server

/-- `_finalizeResponse`. -/
def finalizeResponse (server : Server) : Server :=
  if server.chunked then server.sendContent [] else server

end Server

/-! ## What a handler sees

An index of a header is not negative.
-/

namespace Server

/-- The argument with a name; those of a form in `_postArgs` come first. -/
def findArg (name : WString) (server : Server) : Option RequestArgument :=
  match server.postArgs.find? fun arg => equals arg.key name with
  | some arg => some arg
  | none => server.currentArgs.find? fun arg => equals arg.key name

/-- `arg` of a name and `hasArg`. -/
def arg (name : WString) (server : Server) : WString :=
  match server.findArg name with
  | some arg => arg.value
  | none => []

def argName (i : Int) (server : Server) : WString :=
  if 0 ≤ i ∧ i < server.currentArgs.length then
    ((server.currentArgs[i.toNat]?).map RequestArgument.key).getD []
  else []

def args (server : Server) : Nat := server.currentArgs.length

/-- `header` of a name. -/
def header (name : WString) (server : Server) : WString := headerValue server.currentHeaders name

def headerName (i : Nat) (server : Server) : WString :=
  ((server.currentHeaders[i]?).map RequestArgument.key).getD []

def headers (server : Server) : Nat := server.currentHeaders.length

end Server

/-! ## Handlers -/

/-- A call that begins a response. -/
inductive SendCall where
  | send (code : Int) (contentType : Option WString) (content : WString)
  | sendP (code : Int) (contentType behind : WString) (content : List UInt8)
  /-- `send_P` with a text of C. -/
  | sendText (code : Int) (contentType behind : WString) (content : WString)

/-- A call that adds to a response. -/
inductive ContentCall where
  | sendContent (content : WString)
  | sendContentP (content : List UInt8)
  /-- `sendContent_P` with a text of C. -/
  | sendText (content : WString)

/-- A call that a handler makes. -/
inductive Call where
  | sendHeader (name value : WString) (first : Bool)
  | setContentLength (contentLength : Nat)
  | send (call : SendCall)
  | content (call : ContentCall)

def SendCall.run : SendCall → Server → Server
  | send code contentType content => Server.send code contentType content
  | sendP code contentType behind content => Server.sendP code contentType behind content
  | sendText code contentType behind content =>
    Server.sendP code contentType behind (cstr content)

def ContentCall.run : ContentCall → Server → Server
  | sendContent content => Server.sendContent content
  | sendContentP content => Server.sendContentP content
  | sendText content => Server.sendContentP (cstr content)

def Call.run : Call → Server → Server
  | sendHeader name value first => Server.sendHeader name value first
  | setContentLength contentLength => Server.setContentLength contentLength
  | send call => call.run
  | content call => call.run

def runCalls (calls : List Call) (server : Server) : Server :=
  calls.foldl (fun server call => call.run server) server

/-! ## Requests -/

namespace Server

/-- The server that a constructor makes, with the headers it collects and `enableCORS`. -/
def initial (headerKeys : List WString) (corsEnabled : Bool) : Server where
  currentMethod := .any
  currentUri := []
  currentVersion := 0
  currentArgs := []
  postArgs := []
  currentHeaders := headerKeys.map fun key => ⟨key, []⟩
  hostHeader := []
  contentLength := 0
  responseHeaders := []
  chunked := false
  corsEnabled
  written := []

/-- What `_parseRequest` stores for a new client. -/
def store (request : Request) (server : Server) : Server :=
  let server := { server with
    currentHeaders := request.headers
    hostHeader := request.host.getD server.hostHeader
    currentArgs := request.args.getD server.currentArgs
    postArgs := request.postArgs.getD server.postArgs
    written := [] }
  match request.line with
  | none => server
  | some line => { server with
    currentMethod := line.method
    currentUri := line.uri
    currentVersion := line.version
    chunked := false }

/-- `_handleRequest`, with the calls of the handler that handles the request, if one does. -/
def handleRequest (handler : Option (List Call)) (server : Server) : Server :=
  let server := match handler with
    | some calls => runCalls calls server
    | none =>
      server.send 404 (some (ofString "text/html")) (ofString "Not found: " ++ server.currentUri)
  { server.finalizeResponse with currentUri := [] }

end Server

/-- A connection: what its client sends, and what the handlers of the request call. -/
structure Connection where
  client : Client
  /-- The calls of the handler of the uploads. -/
  uploadCalls : List Call
  handler : Option (List Call)

namespace Server

/-- The server behind `_parseRequest`. -/
def parse (headerKeys : List WString) (client : Client) (uploadCalls : List Call)
    (server : Server) : Server :=
  let request := parseRequest headerKeys client
  runCalls (if request.uploads = [] then [] else uploadCalls) (server.store request)

/-- `handleClient` up to the handler. -/
def accept (headerKeys : List WString) (client : Client) (uploadCalls : List Call)
    (server : Server) : Server :=
  (server.parse headerKeys client uploadCalls).setContentLength contentLengthNotSet

/-- A connection from its first byte on, if `_parseRequest` returns. -/
def serve (headerKeys : List WString) (connection : Connection) (server : Server) :
    Option Server :=
  match (parseRequest headerKeys connection.client).parsed with
  | .waiting => none
  | .refused => some (server.parse headerKeys connection.client connection.uploadCalls)
  | .accepted => some ((server.accept headerKeys connection.client
      connection.uploadCalls).handleRequest connection.handler)

/-- The server behind a history of connections. -/
def history (headerKeys : List WString) (corsEnabled : Bool) (connections : List Connection) :
    Option Server :=
  connections.foldlM (fun server connection => server.serve headerKeys connection)
    (initial headerKeys corsEnabled)

end Server
end Esp8266.Source.WebServer
