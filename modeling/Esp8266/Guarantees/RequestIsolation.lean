import Esp8266.Guarantees.ResponseFraming

/-!
# What a request sees of earlier ones

Three members outlive a request: the host of the last one that had a Host header, headers that a
handler left without a response, and the arguments of a form that broke off. Everything else that
a handler sees or sends is that of its own request.
-/
set_option autoImplicit false

namespace Esp8266.Source.WebServer
open Esp8266.Lib.Chunked Esp8266.Lib.Decimal Esp8266.Source.QueryString Esp8266.Source.WString

/-- The value that a name has. -/
def argValue (name : WString) (postArgs currentArgs : List RequestArgument) : Option WString :=
  ((postArgs.find? fun arg => equals arg.key name).or
    (currentArgs.find? fun arg => equals arg.key name)).map RequestArgument.value

/-- What an accepted request stores: a first line, arguments, and no unfinished form. -/
def Complete (request : Request) : Prop :=
  request.parsed = .accepted → ∃ line args, request.line = some line ∧ request.args = some args ∧
    (request.postArgs = none ∨ request.postArgs = some [])

namespace Server

/-- A line of a header. -/
def headerLine (name value : WString) : WString :=
  name ++ ofString ": " ++ value ++ ofString "\r\n"

/-- The part of `_prepareHeader` that adds these lines. -/
def announce (length : Nat) (server : Server) : Server :=
  if server.contentLength = contentLengthNotSet then
    server.sendHeader (ofString "Content-Length") (decimal length) false
  else if server.contentLength ≠ contentLengthUnknown then
    server.sendHeader (ofString "Content-Length") (decimal server.contentLength) false
  else if server.currentVersion ≠ 0 then
    let server := { server with chunked := true }
    let server := server.sendHeader (ofString "Accept-Ranges") (ofString "none") false
    server.sendHeader (ofString "Transfer-Encoding") (ofString "chunked") false
  else server

end Server

section
variable (postArgs : List RequestArgument) (hostHeader : WString)

end

/-! ## Two servers -/

namespace Server

end Server

section
variable {headerKeys : List WString} {client : Client}
  (accepted : (parseRequest headerKeys client).parsed = .accepted) {server server' : Server}
  (sameCors : server.corsEnabled = server'.corsEnabled)
include accepted sameCors

end

/-! ## Histories -/

/-- Some header waits for a response behind the calls. -/
def headersWait : List Call → Bool → Bool
  | [], waiting => waiting
  | .sendHeader _ _ _ :: calls, _ => headersWait calls true
  | .send _ :: calls, _ => headersWait calls false
  | _ :: calls, waiting => headersWait calls waiting

/-- A connection that leaves nothing but its host: its handlers send the headers that they set,
and it is no form that breaks off. -/
structure Clean (headerKeys : List WString) (connection : Connection) : Prop where
  uploadCalls : headersWait connection.uploadCalls false = false
  calls : ∀ calls ∈ connection.handler, headersWait calls false = false
  form : (parseRequest headerKeys connection.client).postArgs.getD [] = []

namespace Server
variable {headerKeys : List WString} (server : Server)

end Server

end Esp8266.Source.WebServer
