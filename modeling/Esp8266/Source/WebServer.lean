import Esp8266.Source.QueryString
import Mathlib.Data.List.Infix

/-!
# ESP8266WebServer

libraries/ESP8266WebServer/src/Parsing-impl.h. What a call of `_parseRequest` stores depends on
the client only, not on what the members held before; what is stored where is up to the server.
The file name and the type of an upload are left out, and an array of arguments that a form
overflows is taken to be long enough.
-/
set_option autoImplicit false

namespace Esp8266.Source.WebServer
open Esp8266.Source.QueryString Esp8266.Source.WString

/-! ## Clients -/

/-- A connection: the bytes that arrive, with `none` for a silence that is longer than the
timeouts. Behind them the client closes the connection or is silent for ever. -/
structure Client where
  input : List (Option UInt8)
  closed : Bool
  /-- How often `connected` still answers true behind the last byte of a closed connection. -/
  lag : Nat
  /-- What the stack holds where `endBuf` is placed, each time; a NUL is behind it. -/
  stack : List (List UInt8)
  /-- There is memory for the body. -/
  reserves : Bool

namespace Client

/-- The loop of `readStringUntil`, and what it leaves. -/
def readUntil (terminator : UInt8) : List (Option UInt8) → WString × List (Option UInt8)
  | [] => ([], [])
  | none :: rest => ([], rest)
  | some c :: rest =>
    if c = terminator then ([], rest)
    else
      let (ret, rest) := readUntil terminator rest
      (c :: ret, rest)

def readStringUntil (terminator : UInt8) (client : Client) : WString × Client :=
  let (ret, input) := readUntil terminator client.input
  (ret, { client with input })

/-- `readStringUntil('\r')` and `readStringUntil('\n')`, the line and what is left. -/
def readLine (client : Client) : WString × Client :=
  let (line, client) := client.readStringUntil 0x0d
  (line, (client.readStringUntil 0x0a).2)

/-- The bytes before the next silence, `n` at most. -/
def takeBytes : Nat → List (Option UInt8) → List UInt8 × List (Option UInt8)
  | n + 1, some c :: rest =>
    let (bytes, rest) := takeBytes n rest
    (c :: bytes, rest)
  | _ + 1, none :: rest => ([], rest)
  | _, rest => ([], rest)

/-- `readBytes` into a buffer that held `memory` there and behind it. -/
def readBytes (n : Nat) (memory : List UInt8) (client : Client) : List UInt8 × Client :=
  let (bytes, input) := takeBytes n client.input
  (bytes ++ memory.drop bytes.length, { client with input })

/-- `connected`. -/
def isConnected (client : Client) : Bool × Client :=
  if client.input ≠ [] ∨ !client.closed then (true, client)
  else if 0 < client.lag then (true, { client with lag := client.lag - 1 })
  else (false, client)

/-- The next byte behind all silences. -/
def nextByte : List (Option UInt8) → Option (UInt8 × List (Option UInt8))
  | [] => none
  | none :: rest => nextByte rest
  | some c :: rest => some (c, rest)

/-- `_uploadReadByte`; it does not return if the client is silent for ever, and `read` answers
-1 behind the end of the connection. -/
def uploadReadByte (client : Client) : Option (UInt8 × Client) :=
  match nextByte client.input with
  | some (c, input) => some (c, { client with input })
  | none => if client.closed then some (0xff, { client with input := [], lag := 0 }) else none

/-- `readBytesWithTimeout`. -/
def readBytesWithTimeout (maxLength : Nat) (client : Client) : Bool × WString × Client :=
  if !client.reserves then (false, [], client)
  else
    let (data, input) := takeBytes maxLength client.input
    (decide (data.length = maxLength), data, { client with input })

end Client

inductive HTTPMethod where
  | any | get | head | post | put | patch | delete | options
  deriving DecidableEq, Repr

inductive HTTPUploadStatus where
  | fileStart | fileWrite | fileEnd | fileAborted
  deriving DecidableEq, Repr

/-- `HTTPUpload`; `buf` is its first `currentSize` bytes. -/
structure HTTPUpload where
  status : HTTPUploadStatus
  name : WString
  totalSize : Nat
  buf : List UInt8
  deriving DecidableEq, Repr

/-- `HTTP_UPLOAD_BUFLEN` and `WEBSERVER_MAX_POST_ARGS`. -/
def httpUploadBuflen : Nat := 2048
def webserverMaxPostArgs : Nat := 32

/-- What `_parseRequest` returns, if it does. -/
inductive Parsed where
  | accepted | refused | waiting
  deriving DecidableEq, Repr

/-! ## Files

The handler of the uploads only looks at them, so that the calls that are made to it can be
listed apart from what it does.
-/

/-- `_uploadWriteByte`: the uploads that are handed on, and the upload. -/
def uploadWriteByte (b : UInt8) (upload : HTTPUpload) : List HTTPUpload × HTTPUpload :=
  if upload.buf.length = httpUploadBuflen then
    ([upload], { upload with totalSize := upload.totalSize + upload.buf.length, buf := [b] })
  else ([], { upload with buf := upload.buf ++ [b] })

def uploadWriteBytes : List UInt8 → HTTPUpload → List HTTPUpload × HTTPUpload
  | [], upload => ([], upload)
  | b :: bs, upload =>
    let (uploads, upload) := uploadWriteByte b upload
    let (more, upload) := uploadWriteBytes bs upload
    (uploads ++ more, upload)

inductive FileEnd where
  | ended (client : Client)
  | aborted
  | waiting

/-- The uploads, and how the file ends. -/
abbrev FileRead := List HTTPUpload × FileEnd

/-- `_parseFormUploadAborted`. -/
def uploadAborted (upload : HTTPUpload) : FileRead :=
  ([{ upload with status := .fileAborted }], .aborted)

/-- The last write and the end of a file. -/
def uploadEnd (upload : HTTPUpload) (client : Client) : FileRead :=
  ([upload, { upload with
    status := .fileEnd
    totalSize := upload.totalSize + upload.buf.length }], .ended client)

/-- Some bytes are written before the file goes on. -/
def writing (bytes : List UInt8) (upload : HTTPUpload) (rest : HTTPUpload → FileRead) : FileRead :=
  let (uploads, upload) := uploadWriteBytes bytes upload
  let (more, fileEnd) := rest upload
  (uploads ++ more, fileEnd)

/-- The next byte, and the question behind it whether the client is still there. -/
def checkedByte (client : Client) (upload : HTTPUpload) (rest : UInt8 → Client → FileRead) :
    FileRead :=
  match client.uploadReadByte with
  | none => ([], .waiting)
  | some (argByte, client) =>
    let (connected, client) := client.isConnected
    if !connected then uploadAborted upload else rest argByte client

/-- From `readfile:` on with the byte in `argByte`, with fuel for the bytes that are there. -/
def readFile (boundary : WString) : Nat → UInt8 → Client → HTTPUpload → FileRead
  | 0, _, _, _ => ([], .waiting)
  | fuel + 1, argByte, client, upload =>
    let unchecked := fun (client : Client) (upload : HTTPUpload) =>
      match client.uploadReadByte with
      | none => ([], .waiting)
      | some (argByte, client) => readFile boundary fuel argByte client upload
    if argByte ≠ 0x0d then
      let (connected, client) := client.isConnected
      if !connected then uploadAborted upload
      else writing [argByte] upload (unchecked client)
    else
      checkedByte client upload fun argByte client =>
        if argByte = 0x0a then
          checkedByte client upload fun argByte client =>
            if argByte ≠ 0x2d then
              writing [0x0d, 0x0a] upload (readFile boundary fuel argByte client)
            else
              checkedByte client upload fun argByte client =>
                if argByte ≠ 0x2d then
                  writing [0x0d, 0x0a, 0x2d] upload (readFile boundary fuel argByte client)
                else
                  let (endBuf, client) :=
                    client.readBytes boundary.length (client.stack.headD [])
                  let client := { client with stack := client.stack.tail }
                  -- `strstr`, on a buffer without a NUL at its end
                  if cstr boundary <:+: cstr endBuf then uploadEnd upload client
                  else
                    writing ([0x0d, 0x0a, 0x2d, 0x2d] ++
                        (List.range boundary.length).map fun i => endBuf.getD i 0) upload
                      (unchecked client)
        else writing [0x0d] upload (readFile boundary fuel argByte client)

/-- The part of a form that is a file. -/
def filePart (argName boundary : WString) (client : Client) : FileRead :=
  let start : HTTPUpload := ⟨.fileStart, argName, 0, []⟩
  match client.uploadReadByte with
  | none => ([start], .waiting)
  | some (argByte, client) =>
    let (uploads, fileEnd) := readFile boundary (client.input.length + 2) argByte client
      { start with status := .fileWrite }
    (start :: uploads, fileEnd)

/-! ## Forms -/

/-- The name of an argument, and whether it is a file. -/
def argOf (line : WString) : Option (WString × Bool) :=
  let nameStart := indexOf line 0x3d 0
  if nameStart = -1 then none
  else
    let argName := substring line (nameStart.toNat + 2) line.length
    if indexOf argName 0x3d 0 = -1 then some (substring argName 0 (argName.length - 1), false)
    else some (substring argName 0 (rightEnd argName (indexOf argName 0x22 0)), true)

/-- Behind the disposition of a part: its type, if it has one, and the empty line. -/
def skipType (client : Client) : Client :=
  let (line, client) := client.readLine
  if line.length > 12 ∧ equalsIgnoreCase (substring line 0 12) (ofString "Content-Type") then
    client.readLine.2
  else client

/-- The loop over the lines of an argument: its value, the line that ends it, and what is left.
Behind the end of the input it does not end. -/
def valueLoop (boundary : WString) : Nat → WString → Client → Option (WString × WString × Client)
  | 0, _, _ => none
  | fuel + 1, argValue, client =>
    let (line, client) := client.readLine
    if startsWith line (ofString "--" ++ boundary) then some (argValue, line, client)
    else
      valueLoop boundary fuel
        ((if 0 < argValue.length then argValue ++ [0x0a] else argValue) ++ line) client

/-- What is left of a form: the uploads, the arguments in `_postArgs`, and how it ends. -/
structure Form where
  uploads : List HTTPUpload
  postArgs : List RequestArgument
  parsed : Parsed

/-- The loop over the parts of a form, with fuel for the lines that are there. -/
def formLoop (boundary : WString) : Nat → List RequestArgument → Client → Form
  | 0, postArgs, _ => ⟨[], postArgs, .waiting⟩
  | fuel + 1, postArgs, client =>
    let (line, client) := client.readLine
    if line.length > 19 ∧
        equalsIgnoreCase (substring line 0 19) (ofString "Content-Disposition") then
      match argOf line with
      | none => formLoop boundary fuel postArgs client
      | some (argName, argIsFile) =>
        let client := skipType client
        if !argIsFile then
          match valueLoop boundary (client.input.length + 1) [] client with
          | none => ⟨[], postArgs, .waiting⟩
          | some (argValue, line, client) =>
            let postArgs := postArgs ++ [⟨argName, argValue⟩]
            if equals line (ofString "--" ++ boundary ++ ofString "--") then
              ⟨[], postArgs, .accepted⟩
            else formLoop boundary fuel postArgs client
        else
          match filePart argName boundary client with
          | (uploads, .aborted) => ⟨uploads, postArgs, .refused⟩
          | (uploads, .waiting) => ⟨uploads, postArgs, .waiting⟩
          | (uploads, .ended client) =>
            let (line, client) := client.readLine
            if equalsText line (ofString "--") then ⟨uploads, postArgs, .accepted⟩
            else
              let form := formLoop boundary fuel postArgs client
              { form with uploads := uploads ++ form.uploads }
    else formLoop boundary fuel postArgs client

/-- The line before the first part; an empty one is read again, twice at most. -/
def firstLine : Nat → Client → WString × Client
  | 0, client => client.readStringUntil 0x0d
  | retries + 1, client =>
    let (line, client) := client.readStringUntil 0x0d
    if line.length = 0 then firstLine retries client else (line, client)

/-- Parsing-impl.h:383; nothing if the form does not begin with its boundary. -/
def parseForm (client : Client) (boundary : WString) : Option Form :=
  let (line, client) := firstLine 2 client
  let client := (client.readStringUntil 0x0a).2
  if equals line (ofString "--" ++ boundary) then
    some (formLoop boundary (client.input.length + 1) [] client)
  else none

/-- `_currentArgs` behind a form that is read to its end. -/
def joinArgs (postArgs currentArgs : List RequestArgument) : List RequestArgument :=
  postArgs ++ currentArgs.take (webserverMaxPostArgs - postArgs.length)

/-! ## Requests -/

/-- What the loop over the headers keeps. -/
structure Headers where
  /-- `_currentHeaders`. -/
  current : List RequestArgument
  /-- `_hostHeader`, if it is set. -/
  host : Option WString
  isForm : Bool
  isEncoded : Bool
  boundary : WString
  contentLength : Nat

/-- The first header with the name gets the value. -/
def setHeader (headerName headerValue : WString) : List RequestArgument → List RequestArgument
  | [] => []
  | header :: rest =>
    if equalsIgnoreCase header.key headerName then { header with value := headerValue } :: rest
    else header :: setHeader headerName headerValue rest

def collectHeader (headerName headerValue : WString) (headers : Headers) : Headers :=
  { headers with current := setHeader (cstr headerName) (cstr headerValue) headers.current }

def hostHeader (headerName headerValue : WString) (headers : Headers) : Headers :=
  if equalsIgnoreCase headerName (ofString "Host") then { headers with host := some headerValue }
  else headers

/-- A header of a request that may have a body, with its colon at `headerDiv`. -/
def bodyHeader (req : WString) (headerDiv : Nat) (headers : Headers) : Headers :=
  let headerName := substring req 0 headerDiv
  let headerValue := (substring req (headerDiv + 1) req.length).trim
  let headers := collectHeader headerName headerValue headers
  if equalsIgnoreCase headerName (ofString "Content-Type") then
    if startsWith headerValue (ofString "text/plain") then { headers with isForm := false }
    else if startsWith headerValue (ofString "application/x-www-form-urlencoded") then
      { headers with isForm := false, isEncoded := true }
    else if startsWith headerValue (ofString "multipart/") then
      let value := substring headerValue (indexOf headerValue 0x3d 0 + 1).toNat headerValue.length
      { headers with isForm := true, boundary := value.filter (· ≠ 0x22) }
    else headers
  else if equalsIgnoreCase headerName (ofString "Content-Length") then
    { headers with contentLength := (headerValue.toInt % 2 ^ 32).toNat }
  else hostHeader headerName headerValue headers

def otherHeader (req : WString) (headerDiv : Nat) (headers : Headers) : Headers :=
  let headerName := substring req 0 headerDiv
  let headerValue := substring req (headerDiv + 2) req.length
  hostHeader headerName headerValue (collectHeader headerName headerValue headers)

/-- The loop over the headers; an empty line ends it, and so does the end of the input. -/
def headerLoop (header : WString → Nat → Headers → Headers) :
    Nat → Client → Headers → Headers × Client
  | 0, client, headers => (headers, client)
  | fuel + 1, client, headers =>
    let (req, client) := client.readLine
    let headerDiv := indexOf req 0x3a 0
    if req.length = 0 ∨ headerDiv = -1 then (headers, client)
    else headerLoop header fuel client (header req headerDiv.toNat headers)

def methodOf (methodStr : WString) : HTTPMethod :=
  if equals methodStr (ofString "HEAD") then .head
  else if equals methodStr (ofString "POST") then .post
  else if equals methodStr (ofString "DELETE") then .delete
  else if equals methodStr (ofString "OPTIONS") then .options
  else if equals methodStr (ofString "PUT") then .put
  else if equals methodStr (ofString "PATCH") then .patch
  else .get

structure RequestLine where
  method : HTTPMethod
  uri : WString
  version : Nat
  searchStr : WString

/-- The first line of a request. -/
def requestLine (req : WString) : Option RequestLine :=
  let addrStart := indexOf req 0x20 0
  let addrEnd := indexOf req 0x20 (addrStart + 1).toNat
  if addrStart = -1 ∨ addrEnd = -1 then none
  else
    let url := substring req (addrStart.toNat + 1) addrEnd.toNat
    let versionEnd := substring req (addrEnd.toNat + 8) req.length
    let hasSearch := indexOf url 0x3f 0
    some {
      method := methodOf (substring req 0 addrStart.toNat)
      uri := if hasSearch ≠ -1 then substring url 0 hasSearch.toNat else url
      version := (versionEnd.toInt % 2 ^ 8).toNat
      searchStr :=
        if hasSearch ≠ -1 then substring url (hasSearch.toNat + 1) url.length else [] }

/-- What a call of `_parseRequest` stores and hands on. -/
structure Request where
  /-- Nothing if the first line is none. -/
  line : Option RequestLine
  /-- `_currentHeaders`. -/
  headers : List RequestArgument
  /-- `_hostHeader`, if it is set. -/
  host : Option WString
  /-- `_currentArgs`, if they are set. -/
  args : Option (List RequestArgument)
  /-- `_postArgs`, if they are set. -/
  postArgs : Option (List RequestArgument)
  /-- The uploads that a handler for files is given, in their order. -/
  uploads : List HTTPUpload
  parsed : Parsed

/-- `_parseArguments`; the loop ends within its fuel or never. -/
def queryArgs (data : WString) : Option (List RequestArgument) :=
  (parseQuery (data.length + 2) data).map fun result => result.2.take result.1

/-- Behind the headers of a request that may have a body. -/
def parseBody (line : RequestLine) (headers : Headers) (client : Client) : Request :=
  let request : Request := ⟨some line, headers.current, headers.host, none, none, [], .waiting⟩
  let (whole, plainBuf, client) :=
    if headers.isForm then (true, [], client)
    else client.readBytesWithTimeout headers.contentLength
  if !headers.isForm && (!whole || plainBuf.length < headers.contentLength) then
    { request with parsed := .refused }
  else
    let searchStr :=
      if headers.isEncoded then
        (if 0 < line.searchStr.length then line.searchStr ++ [0x26] else []) ++ plainBuf
      else line.searchStr
    match queryArgs searchStr with
    | none => request
    | some args =>
      if !headers.isForm then
        let args := if headers.contentLength ≠ 0 then args ++ [⟨ofString "plain", plainBuf⟩] else args
        { request with args := some args, parsed := .accepted }
      else
        match parseForm client headers.boundary with
        | none => { request with args := some args, parsed := .refused }
        | some form =>
          let request := { request with uploads := form.uploads, parsed := form.parsed }
          if form.parsed = .accepted then
            { request with args := some (joinArgs form.postArgs args), postArgs := some [] }
          else { request with args := some args, postArgs := some form.postArgs }

/-- Parsing-impl.h:64, with the names of the headers that are collected. -/
def parseRequest (headerKeys : List WString) (client : Client) : Request :=
  let (req, client) := client.readLine
  let headers := headerKeys.map fun key => (⟨key, []⟩ : RequestArgument)
  match requestLine req with
  | none => ⟨none, headers, none, none, none, [], .refused⟩
  | some line =>
    let headers : Headers := ⟨headers, none, false, false, [], 0⟩
    let method := line.method
    if method = .post ∨ method = .put ∨ method = .patch ∨ method = .delete then
      let (headers, client) := headerLoop bodyHeader (client.input.length + 1) client headers
      parseBody line headers client
    else
      let (headers, _) := headerLoop otherHeader (client.input.length + 1) client headers
      match queryArgs line.searchStr with
      | none => ⟨some line, headers.current, headers.host, none, none, [], .waiting⟩
      | some args => ⟨some line, headers.current, headers.host, some args, none, [], .accepted⟩

/-- `header`: the value of the first header with the name. -/
def headerValue (headers : List RequestArgument) (name : WString) : WString :=
  match headers.find? fun header => equalsIgnoreCase header.key name with
  | some header => header.value
  | none => []

end Esp8266.Source.WebServer
