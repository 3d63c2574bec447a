import Esp8266.Source.Updater
import Esp8266.Source.WebServer

/-!
# ESP8266HTTPUpdateServer

libraries/ESP8266HTTPUpdateServer/src/ESP8266HTTPUpdateServer-impl.h on the web server and the
updater, without the debug output. What the handlers ask of the updater and what they send is
listed. A handler that restarts the device does not return.
-/
set_option autoImplicit false

namespace Esp8266.Source.HttpUpdate
open Esp8266.Lib.Word32 Esp8266.Source.Esp Esp8266.Source.Updater Esp8266.Source.WebServer
  Esp8266.Source.WString

/-- What `setup` is told, and the headers that the sketch collects for itself. -/
structure Setup where
  path : WString
  username : WString
  password : WString
  headerKeys : List WString

/-- The members that survive a request, and the global `Update`. -/
structure UpdateServer where
  authenticated : Bool
  updaterError : WString
  machine : Machine

inductive Action where
  | begin (size command : Nat) (result : Bool)
  | write (data : List UInt8) (result : Nat)
  | ended (evenIfRemaining result : Bool)
  | requestAuthentication
  | serverIndex
  | updateError (error : WString)
  | successResponse
  | restart
  deriving DecidableEq, Repr

/-- What a request finds: how `authenticate` judges an Authorization header that is there, and
the surroundings of each call of the upload handler. -/
structure Scene where
  authenticate : WString → Bool
  around : Nat → Surroundings

/-- `_parseRequest` of the server. -/
def Setup.request (setup : Setup) (client : WebServer.Client) : Request :=
  parseRequest (ofString "Authorization" :: setup.headerKeys) client

/-- No credentials are configured, or those of the request are accepted. -/
def Setup.accepts (setup : Setup) (scene : Scene) (request : Request) : Bool :=
  let authorization := headerValue request.headers (ofString "Authorization")
  setup.username.length = 0 || setup.password.length = 0 ||
    (decide (0 < authorization.length) && scene.authenticate authorization)

/-- ESP8266HTTPUpdateServer-impl.h:125. -/
def setUpdaterError (env : Env) (s : UpdateServer) : UpdateServer :=
  let (text, machine) := printError env s.machine
  { s with updaterError := cstr text, machine }

/-- `Update.begin` for the part of the form with the given name. -/
def beginUpdate (env : Env) (around : Surroundings) (name : WString) (s : UpdateServer) :
    List Action × UpdateServer :=
  if equalsText name (ofString "filesystem") then
    let fsSize := sub32 env.layout.fsEnd env.layout.fsStart
    let (ok, machine) := begin env fsSize uFs around s.machine
    -- the error stays in the updater only
    ([.begin fsSize uFs ok], { s with machine })
  else
    let (space, board) := getFreeSketchSpace env s.machine.board
    let maxSketchSpace := sub32 space 0x1000 &&& 0xfffff000
    let (ok, machine) := begin env maxSketchSpace uFlash around { s.machine with board }
    let s := { s with machine }
    ([.begin maxSketchSpace uFlash ok], if ok then s else setUpdaterError env s)

/-- The handler for the file upload. -/
def onUpload (env : Env) (accepted : Bool) (around : Surroundings) (upload : HTTPUpload)
    (s : UpdateServer) : List Action × UpdateServer :=
  match upload.status with
  | .fileStart =>
    let s := { s with updaterError := [], authenticated := accepted }
    if !s.authenticated then ([], s) else beginUpdate env around upload.name s
  | .fileWrite =>
    if s.authenticated && s.updaterError.length = 0 then
      let (written, machine) := write env upload.buf s.machine
      let s := { s with machine }
      ([.write upload.buf written],
        if written ≠ upload.buf.length then setUpdaterError env s else s)
    else ([], s)
  | .fileEnd =>
    if s.authenticated && s.updaterError.length = 0 then
      let (ok, machine) := endUpdate env true s.machine
      let s := { s with machine }
      ([.ended true ok], if ok then s else setUpdaterError env s)
    else ([], s)
  | .fileAborted =>
    if s.authenticated then
      let (ok, machine) := endUpdate env false s.machine
      ([.ended false ok], { s with machine })
    else ([], s)

/-- The calls of the upload handler in a request; `around` are the surroundings from here on. -/
def onUploads (env : Env) (accepted : Bool) : (Nat → Surroundings) → List HTTPUpload →
    UpdateServer → List Action × UpdateServer
  | _, [], s => ([], s)
  | around, upload :: uploads, s =>
    let (actions, s) := onUpload env accepted (around 0) upload s
    let (more, s) := onUploads env accepted (fun k => around (k + 1)) uploads s
    (actions ++ more, s)

/-- The handler for the form page. -/
def onGet (accepted : Bool) : List Action :=
  if !accepted then [.requestAuthentication] else [.serverIndex]

/-- The handler for the form, once it is read. -/
def onPost (s : UpdateServer) : List Action :=
  if !s.authenticated then [.requestAuthentication]
  else if s.machine.updater.hasError then [.updateError s.updaterError]
  else [.successResponse, .restart]

/-- The handler for the path and method of a request, if it is one of these two. -/
inductive Handler where
  | form | update | other
  deriving DecidableEq

def Setup.handler (setup : Setup) (request : Request) : Handler :=
  match request.line with
  | none => .other
  | some line =>
    if equals (cstr setup.path) line.uri then
      match line.method with
      | .get => .form
      | .post => .update
      | _ => .other
    else .other

/-- `_parseRequest` with the uploads it hands on, and `_handleRequest`. -/
def serveRequest (env : Env) (setup : Setup) (scene : Scene) (request : Request)
    (s : UpdateServer) : List Action × UpdateServer :=
  let accepted := setup.accepts scene request
  match setup.handler request with
  | .update =>
    let (actions, s) := onUploads env accepted scene.around request.uploads s
    (actions ++ if request.parsed = .accepted then onPost s else [], s)
  | .form => (if request.parsed = .accepted then onGet accepted else [], s)
  | .other => ([], s)

/-! ## handleClient -/

inductive HTTPClientStatus where
  | none | waitRead | waitClose
  deriving DecidableEq, Repr

structure Device where
  status : HTTPClientStatus
  statusChange : Nat
  server : UpdateServer
  /-- It was not restarted, and no client keeps it waiting for ever. -/
  running : Bool

/-- What a call of `handleClient` finds. -/
structure Visit where
  /-- `_server.available()` has a client. -/
  arriving : Bool
  /-- `_currentClient.connected() || _currentClient.available()`. -/
  reachable : Bool
  /-- `_currentClient.available()`. -/
  available : Bool
  client : WebServer.Client
  scene : Scene
  /-- `_currentClient.connected()` behind the request. -/
  connected : Bool
  /-- `millis()`, and behind the request. -/
  now : Nat
  later : Nat

/-- `HTTP_MAX_DATA_WAIT` and `HTTP_MAX_CLOSE_WAIT`. -/
def httpMaxDataWait : Nat := 5000
def httpMaxCloseWait : Nat := 2000

def Device.drop (d : Device) : Device := { d with status := .none }

/-- A client that is there to be served is taken. -/
def Device.take (visit : Visit) (d : Device) : Device :=
  if d.status = .none ∧ visit.arriving then
    { d with status := .waitRead, statusChange := visit.now }
  else d

/-- A request is read and answered in this call. -/
def Device.serves (visit : Visit) (d : Device) : Bool :=
  d.running && decide ((d.take visit).status = .waitRead) && visit.reachable && visit.available

/-- ESP8266WebServer-impl.h:308. -/
def handleClient (env : Env) (setup : Setup) (visit : Visit) (d : Device) :
    List Action × Device :=
  if !d.running then ([], d)
  else
    let d := d.take visit
    if visit.reachable then
      match d.status with
      | .none => ([], d)
      | .waitRead =>
        if visit.available then
          let request := setup.request visit.client
          let (actions, server) := serveRequest env setup visit.scene request d.server
          let d := { d with
            server
            running := decide (request.parsed ≠ Parsed.waiting ∧ Action.restart ∉ actions) }
          if request.parsed = .accepted ∧ visit.connected then
            (actions, { d with status := .waitClose, statusChange := visit.later })
          else (actions, d.drop)
        else if sub32 visit.now d.statusChange ≤ httpMaxDataWait then ([], d)
        else ([], d.drop)
      | .waitClose =>
        if sub32 visit.now d.statusChange ≤ httpMaxCloseWait then ([], d) else ([], d.drop)
    else ([], d.drop)

end Esp8266.Source.HttpUpdate
