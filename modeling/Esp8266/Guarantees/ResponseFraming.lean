import Esp8266.Source.WebResponse

/-!
# The framing of responses

A response is its header and a body that the client can tell the end of. `sendContent` writes
nothing to a HEAD request; `sendContent_P` has no such test, and so writes a body to it.
-/
set_option autoImplicit false

namespace Esp8266.Source.WebServer
open Esp8266.Lib.Chunked Esp8266.Lib.Decimal Esp8266.Source.QueryString Esp8266.Source.WString

/-! ## Requests of HTTP/1.1 -/

/-- The first line is that of a request of HTTP/1.1. -/
def IsHttp11 (client : Client) : Prop :=
  ∃ methodStr url, client.readLine.1 = methodStr ++ 0x20 :: (url ++ ofString " HTTP/1.1") ∧
    (0 ∉ methodStr ∧ 0x20 ∉ methodStr) ∧ 0 ∉ url ∧ 0x20 ∉ url

theorem requestLine_http11 {methodStr url : WString}
    (method : 0 ∉ methodStr ∧ 0x20 ∉ methodStr) (target : 0 ∉ url ∧ 0x20 ∉ url) :
    ∃ line, requestLine (methodStr ++ 0x20 :: (url ++ ofString " HTTP/1.1")) = some line ∧
      line.version = 1 := by
  have text : methodStr ++ 0x20 :: (url ++ ofString " HTTP/1.1") =
      (methodStr ++ [0x20]) ++ (url ++ 0x20 :: ofString "HTTP/1.1") := by
    rw [List.append_assoc]
    rfl
  have first := indexOf_found [] methodStr (url ++ ofString " HTTP/1.1") method.1 method.2
    (by decide)
  rw [List.nil_append, List.length_nil, Nat.zero_add] at first
  have second := indexOf_found (methodStr ++ [0x20]) url (ofString "HTTP/1.1") target.1 target.2
    (by decide)
  rw [List.length_append, List.length_singleton, ← text] at second
  have version := substring_end (methodStr ++ [0x20] ++ url ++ ofString " HTTP/1.") (ofString "1")
  have whole : methodStr ++ [0x20] ++ url ++ ofString " HTTP/1." ++ ofString "1" =
      methodStr ++ 0x20 :: (url ++ ofString " HTTP/1.1") := by
    simp only [List.append_assoc]
    rfl
  have start : (methodStr ++ [0x20] ++ url ++ ofString " HTTP/1.").length =
      methodStr.length + 1 + url.length + 8 := by
    simp only [List.length_append, List.length_singleton]
    rfl
  rw [whole, start] at version
  have next : ((methodStr.length : Int) + 1).toNat = methodStr.length + 1 := by omega
  have present : ¬ (((methodStr.length : Int) = -1) ∨
      ((methodStr.length + 1 + url.length : Nat) : Int) = -1) := by omega
  unfold requestLine
  rw [first]
  dsimp only
  rw [next, second, if_neg present]
  refine ⟨_, rfl, ?_⟩
  dsimp only
  rw [Int.toNat_natCast, version]
  rfl

theorem parseRequest_line (headerKeys : List WString) (client : Client) :
    (parseRequest headerKeys client).line = requestLine client.readLine.1 := by
  have body : ∀ (line : RequestLine) (headers : Headers) (client : Client),
      (parseBody line headers client).line = some line := by
    intro line headers client
    unfold parseBody
    generalize (if headers.isForm then (true, ([] : WString), client)
      else client.readBytesWithTimeout headers.contentLength) = read
    dsimp only
    split
    · rfl
    · split
      · rfl
      · split
        · rfl
        · split
          · rfl
          · split <;> rfl
  unfold parseRequest
  dsimp only
  split
  · rename_i none
    exact none.symm
  · rename_i line some
    rw [some]
    split
    · exact body _ _ _
    · split <;> rfl

/-! ## What the calls write -/

def SendCall.content : SendCall → List UInt8
  | send _ _ content => content
  | sendP _ _ _ content => content
  | sendText _ _ _ content => cstr content

def ContentCall.content : ContentCall → List UInt8
  | sendContent content => content
  | sendContentP content => content
  | sendText content => cstr content

/-- The content goes through `sendContent_P`. -/
def SendCall.usesP : SendCall → Bool
  | send _ _ _ => false
  | sendP _ _ _ _ => true
  | sendText _ _ _ _ => true

def ContentCall.usesP : ContentCall → Bool
  | sendContent _ => false
  | sendContentP _ => true
  | sendText _ => true

/-- The header of a response, and the server behind it. -/
def SendCall.prepare (server : Server) : SendCall → WString × Server
  | send code contentType content => server.prepareHeader code contentType content.length
  | sendP code contentType behind content =>
    server.prepareHeader code (some ((cstr contentType ++ [0]).take 64 ++ behind)) content.length
  | sendText code contentType behind content =>
    server.prepareHeader code (some ((cstr contentType ++ [0]).take 64 ++ behind))
      (cstr content).length

namespace Server

/-- What a content that is not empty becomes on its way to the client. -/
def part (server : Server) (usesP : Bool) (content : List UInt8) : List UInt8 :=
  if server.currentMethod = .head ∧ usesP = false then []
  else if server.chunked then chunk content
  else content

@[simp] theorem write_nil (server : Server) : server.write [] = server := by
  rw [write, List.append_nil]

theorem write_write (server : Server) (xs ys : List UInt8) :
    (server.write xs).write ys = server.write (xs ++ ys) := by
  simp only [write, List.append_assoc]

@[simp] theorem part_write (server : Server) (bytes : List UInt8) :
    (server.write bytes).part = server.part := rfl

theorem writeContent_eq (server : Server) {content : List UInt8} (full : content ≠ []) :
    server.writeContent content =
      server.write (if server.chunked then chunk content else content) := by
  have positive : content.length ≠ 0 := List.length_eq_zero_iff.not.mpr full
  unfold writeContent
  cases chunks : server.chunked with
  | false => simp only [Bool.false_eq_true, if_false, write, chunks]
  | true =>
    simp only [if_true, write, chunks, if_neg positive, chunk, List.append_assoc]
    rfl

theorem sendContent_eq (server : Server) {content : List UInt8} (full : content ≠ []) :
    server.sendContent content = server.write (server.part false content) := by
  rw [sendContent, part]
  by_cases head : server.currentMethod = .head
  · rw [if_pos head, if_pos ⟨head, rfl⟩, write_nil]
  · rw [if_neg head, if_neg fun both => head both.1, writeContent_eq server full]

theorem sendContentP_eq (server : Server) {content : List UInt8} (full : content ≠ []) :
    server.sendContentP content = server.write (server.part true content) := by
  rw [sendContentP, part, if_neg (fun both => Bool.noConfusion both.2),
    writeContent_eq server full]

theorem finalizeResponse_written (server : Server) :
    server.finalizeResponse.written =
      server.written ++
        if server.chunked ∧ server.currentMethod ≠ .head then chunk [] else [] := by
  rw [finalizeResponse, sendContent]
  cases chunks : server.chunked with
  | false => simp only [Bool.false_eq_true, if_false, false_and, List.append_nil]
  | true =>
    by_cases head : server.currentMethod = .head
    · simp only [if_true, head, ne_eq, not_true, and_false, if_false, List.append_nil]
    · simp only [if_true, head, ne_eq, not_false_eq_true, and_self, writeContent, write, chunks,
        List.append_assoc]
      rfl

end Server

theorem ContentCall.run_eq (call : ContentCall) (server : Server) (full : call.content ≠ []) :
    call.run server = server.write (server.part call.usesP call.content) := by
  cases call with
  | sendContent content => exact server.sendContent_eq full
  | sendContentP content => exact server.sendContentP_eq full
  | sendText content => exact server.sendContentP_eq full

/-- What the calls behind a response add to it. -/
theorem runCalls_content (calls : List ContentCall) :
    ∀ server : Server, (∀ call ∈ calls, call.content ≠ []) →
      runCalls (calls.map Call.content) server =
        server.write (calls.flatMap fun call => server.part call.usesP call.content) := by
  induction calls with
  | nil => intro server _; exact server.write_nil.symm
  | cons call calls ih =>
    intro server full
    have rest := ih (call.run server) fun call mem => full call (List.mem_cons_of_mem _ mem)
    rw [call.run_eq server (full call List.mem_cons_self), Server.part_write,
      Server.write_write] at rest
    rw [List.flatMap_cons, ← rest, ← call.run_eq server (full call List.mem_cons_self)]
    rfl

/-- A response begins with its header. -/
theorem SendCall.run_eq (call : SendCall) (server : Server) :
    call.run server = ((call.prepare server).2.write (call.prepare server).1).write
      (if call.content = [] then [] else (call.prepare server).2.part call.usesP call.content) := by
  have begins : ∀ (prepared : WString × Server) (content : List UInt8) (usesP : Bool)
      (rest : Server → Server),
      (content ≠ [] → ∀ server : Server, rest server = server.write (server.part usesP content)) →
      (if content.length ≠ 0 then rest (prepared.2.write prepared.1)
        else prepared.2.write prepared.1) =
      (prepared.2.write prepared.1).write
        (if content = [] then [] else prepared.2.part usesP content) := by
    intro prepared content usesP rest sends
    by_cases empty : content = []
    · rw [if_neg (not_not_intro (List.length_eq_zero_iff.mpr empty)), if_pos empty,
        Server.write_nil]
    · rw [if_pos (List.length_eq_zero_iff.not.mpr empty), if_neg empty, sends empty,
        Server.part_write]
  cases call with
  | send code contentType content =>
    exact begins (server.prepareHeader code contentType content.length) content false
      (Server.sendContent content) fun full server => server.sendContent_eq full
  | sendP code contentType behind content =>
    exact begins ((sendP code contentType behind content).prepare server) content true
      (Server.sendContentP content) fun full server => server.sendContentP_eq full
  | sendText code contentType behind content =>
    exact begins ((sendText code contentType behind content).prepare server) (cstr content) true
      (Server.sendContentP (cstr content)) fun full server => server.sendContentP_eq full

/-! ## Headers -/

/-- Lines of a header, each with its end. -/
def EndsLine (lines : WString) : Prop := lines = [] ∨ ofString "\r\n" <:+ lines

/-- The header has a line that gives the length of the body. -/
def Announces (header : WString) (length : Nat) : Prop :=
  ∃ before behind, header = before ++ (ofString "Content-Length: " ++ decimal length ++
    ofString "\r\n") ++ behind ∧ ofString "\r\n" <:+ before

theorem EndsLine.append {xs ys : WString} (first : EndsLine xs) (second : EndsLine ys) :
    EndsLine (xs ++ ys) := by
  rcases second with rfl | ends
  · rwa [List.append_nil]
  · exact .inr (ends.trans (List.suffix_append xs ys))

namespace Server

theorem sendHeader_endsLine (name value : WString) (first : Bool) {server : Server}
    (lines : EndsLine server.responseHeaders) :
    EndsLine (server.sendHeader name value first).responseHeaders := by
  have line : EndsLine (name ++ ofString ": " ++ value ++ ofString "\r\n") :=
    .inr (List.suffix_append _ _)
  unfold sendHeader
  cases first with
  | true => exact line.append lines
  | false => exact lines.append line

@[simp] theorem sendHeader_contentLength (name value : WString) (first : Bool) (server : Server) :
    (server.sendHeader name value first).contentLength = server.contentLength := by
  cases first <;> rfl

@[simp] theorem sendHeader_currentVersion (name value : WString) (first : Bool)
    (server : Server) :
    (server.sendHeader name value first).currentVersion = server.currentVersion := by
  cases first <;> rfl

/-- The server without headers that wait for a response. -/
def clear (server : Server) : Server := { server with responseHeaders := [] }

@[simp] theorem clear_sendHeader (name value : WString) (first : Bool) (server : Server) :
    (server.sendHeader name value first).clear = server.clear := by
  cases first <;> rfl

/-- Preparing a header only turns the chunks on. -/
theorem prepareHeader_fields (code : Int) (contentType : Option WString) (length : Nat)
    (server : Server) :
    (server.prepareHeader code contentType length).2 =
      { server.clear with
        chunked := server.chunked ||
          decide (server.contentLength = contentLengthUnknown ∧ server.currentVersion ≠ 0) } := by
  have different : contentLengthNotSet ≠ contentLengthUnknown := by decide
  unfold prepareHeader
  dsimp only
  simp only [sendHeader_contentLength, sendHeader_currentVersion]
  change clear _ = _
  rw [clear_sendHeader, apply_ite clear, clear_sendHeader, ite_self]
  split
  · rename_i notSet
    rw [clear_sendHeader, clear_sendHeader, notSet]
    simp only [different, false_and, decide_false, Bool.or_false]
    rfl
  · split
    · rename_i known
      rw [clear_sendHeader, clear_sendHeader]
      simp only [known, false_and, decide_false, Bool.or_false]
      rfl
    · rename_i unknown
      split
      · rename_i chunks
        have flag : (server.chunked || decide (server.contentLength = contentLengthUnknown ∧
            server.currentVersion ≠ 0)) = true := by
          rw [decide_eq_true ⟨not_not.mp unknown, chunks⟩, Bool.or_true]
        rw [flag, clear_sendHeader, clear_sendHeader]
        rfl
      · rename_i old
        rw [clear_sendHeader]
        simp only [not_not.mp unknown, old, and_false, decide_false, Bool.or_false]
        rfl

theorem prepareHeader_announces (code : Int) (contentType : Option WString) (length : Nat)
    {server : Server} (lines : EndsLine server.responseHeaders)
    (notSet : server.contentLength = contentLengthNotSet) :
    Announces (server.prepareHeader code contentType length).1 length := by
  have first : EndsLine ((server.sendHeader (ofString "Content-Type")
      (cstr (contentType.getD (ofString "text/html"))) true).responseHeaders) :=
    sendHeader_endsLine _ _ _ lines
  have ends : ofString "\r\n" <:+ (server.sendHeader (ofString "Content-Type")
      (cstr (contentType.getD (ofString "text/html"))) true).responseHeaders := by
    rcases first with empty | ends
    · simp [sendHeader, ofString] at empty
    · exact ends
  unfold prepareHeader
  dsimp only
  rw [if_pos (show (server.sendHeader (ofString "Content-Type")
    (cstr (contentType.getD (ofString "text/html"))) true).contentLength = contentLengthNotSet from
      notSet)]
  generalize server.sendHeader (ofString "Content-Type")
    (cstr (contentType.getD (ofString "text/html"))) true = started at ends ⊢
  generalize ofString "HTTP/1." ++ decimal server.currentVersion ++ [0x20] ++
    stringOfInt code ++ [0x20] ++ responseCodeToString code ++ ofString "\r\n" = status
  split
  all_goals
    refine ⟨status ++ started.responseHeaders, ?_, ?_, ends.trans (List.suffix_append _ _)⟩
    rotate_left
    · simp only [sendHeader, Bool.false_eq_true, if_false, List.append_assoc]
      rfl

end Server

/-! ## Reached servers -/

theorem SendCall.prepare_snd (call : SendCall) (server : Server) :
    (call.prepare server).2 = { server.clear with
      chunked := server.chunked ||
        decide (server.contentLength = contentLengthUnknown ∧ server.currentVersion ≠ 0) } := by
  cases call with
  | send code contentType content => exact server.prepareHeader_fields _ _ _
  | sendP code contentType behind content => exact server.prepareHeader_fields _ _ _
  | sendText code contentType behind content => exact server.prepareHeader_fields _ _ _

theorem SendCall.prepare_announces (call : SendCall) (server : Server)
    (lines : EndsLine server.responseHeaders)
    (notSet : server.contentLength = contentLengthNotSet) :
    Announces (call.prepare server).1 call.content.length := by
  cases call with
  | send code contentType content => exact Server.prepareHeader_announces _ _ _ lines notSet
  | sendP code contentType behind content =>
    exact Server.prepareHeader_announces _ _ _ lines notSet
  | sendText code contentType behind content =>
    exact Server.prepareHeader_announces _ _ _ lines notSet

theorem SendCall.run_responseHeaders (call : SendCall) (server : Server) :
    (call.run server).responseHeaders = [] := by
  rw [call.run_eq]
  exact congrArg Server.responseHeaders (call.prepare_snd server)

/-- Content only adds to what is written, and may end the chunks. -/
theorem ContentCall.run_frame (call : ContentCall) (server : Server) :
    call.run server = { server with
      written := (call.run server).written
      chunked := (call.run server).chunked } := by
  have written : ∀ content, server.writeContent content = { server with
      written := (server.writeContent content).written
      chunked := (server.writeContent content).chunked } := by
    intro content
    unfold Server.writeContent
    dsimp only
    split <;> split <;> (try split) <;> rfl
  cases call with
  | sendContent content =>
    change server.sendContent content = { server with
      written := (server.sendContent content).written
      chunked := (server.sendContent content).chunked }
    rw [Server.sendContent]
    split
    · rfl
    · exact written content
  | sendContentP content => exact written content
  | sendText content => exact written (cstr content)

theorem ContentCall.run_responseHeaders (call : ContentCall) (server : Server) :
    (call.run server).responseHeaders = server.responseHeaders := by
  rw [call.run_frame]

theorem Call.run_endsLine (call : Call) {server : Server}
    (lines : EndsLine server.responseHeaders) : EndsLine (call.run server).responseHeaders := by
  cases call with
  | sendHeader name value first => exact Server.sendHeader_endsLine name value first lines
  | setContentLength contentLength => exact lines
  | send call =>
    rw [Call.run, call.run_responseHeaders]
    exact .inl rfl
  | content call =>
    rw [Call.run, call.run_responseHeaders]
    exact lines

theorem runCalls_endsLine (calls : List Call) :
    ∀ server : Server, EndsLine server.responseHeaders →
      EndsLine (runCalls calls server).responseHeaders := by
  induction calls with
  | nil => intro server lines; exact lines
  | cons call calls ih => intro server lines; exact ih _ (call.run_endsLine lines)

namespace Server

theorem store_responseHeaders (request : Request) (server : Server) :
    (server.store request).responseHeaders = server.responseHeaders := by
  unfold store
  dsimp only
  split <;> rfl

/-- So does the end of a response. -/
theorem finalizeResponse_frame (server : Server) :
    server.finalizeResponse = { server with
      written := server.finalizeResponse.written
      chunked := server.finalizeResponse.chunked } := by
  rw [finalizeResponse]
  split
  · exact (ContentCall.sendContent []).run_frame server
  · rfl

theorem handleRequest_endsLine (handler : Option (List Call)) {server : Server}
    (lines : EndsLine server.responseHeaders) :
    EndsLine (server.handleRequest handler).responseHeaders := by
  unfold handleRequest
  dsimp only
  rw [finalizeResponse_frame]
  cases handler with
  | some calls => exact runCalls_endsLine calls server lines
  | none => exact .inl ((SendCall.send 404 _ _).run_responseHeaders server)

theorem serve_endsLine (headerKeys : List WString) (connection : Connection)
    {server served : Server} (serves : server.serve headerKeys connection = some served)
    (lines : EndsLine server.responseHeaders) : EndsLine served.responseHeaders := by
  have parsed : EndsLine (server.parse headerKeys connection.client
      connection.uploadCalls).responseHeaders := by
    refine runCalls_endsLine _ _ ?_
    rwa [store_responseHeaders]
  unfold serve at serves
  split at serves
  · cases serves
  · cases serves
    exact parsed
  · cases serves
    exact handleRequest_endsLine _ parsed

/-- The invariant rule: what the constructor and each connection of a history keep. -/
theorem history_preserves {headerKeys : List WString} {corsEnabled : Bool}
    {connections : List Connection} (invariant : Server → Prop)
    (starts : invariant (initial headerKeys corsEnabled))
    (preserves : ∀ connection ∈ connections, ∀ server served : Server,
      server.serve headerKeys connection = some served → invariant server → invariant served) :
    ∀ server, history headerKeys corsEnabled connections = some server → invariant server := by
  have run : ∀ start server : Server, invariant start →
      connections.foldlM (fun server connection => server.serve headerKeys connection) start =
        some server → invariant server := by
    induction connections with
    | nil =>
      intro start server holds reached
      cases reached
      exact holds
    | cons connection connections ih =>
      intro start server holds reached
      rw [List.foldlM_cons] at reached
      obtain ⟨next, serves, reached⟩ := Option.bind_eq_some_iff.mp reached
      exact ih (fun connection mem => preserves connection (List.mem_cons_of_mem _ mem)) next
        server (preserves connection List.mem_cons_self start next serves holds) reached
  intro server reached
  exact run _ _ starts reached

/-- What is kept for the next response are whole lines. -/
theorem history_endsLine {headerKeys : List WString} {corsEnabled : Bool}
    (connections : List Connection) :
    ∀ server, history headerKeys corsEnabled connections = some server →
      EndsLine server.responseHeaders :=
  history_preserves (fun server => EndsLine server.responseHeaders) (.inl rfl) fun connection _ _ _ serves lines =>
    serve_endsLine headerKeys connection serves lines

end Server

/-! ## Bodies -/

/-- A call that comes before a response. -/
def Call.Prepares : Call → Prop
  | sendHeader _ _ _ => True
  | setContentLength _ => True
  | send _ => False
  | content _ => False

/-- The content length that was set last. -/
def lengthSet : List Call → Option Nat
  | [] => none
  | .setContentLength contentLength :: calls => (lengthSet calls).or (some contentLength)
  | _ :: calls => lengthSet calls

theorem runCalls_prepares (before : List Call) :
    ∀ server : Server, EndsLine server.responseHeaders → (∀ call ∈ before, call.Prepares) →
      ∃ lines, EndsLine lines ∧ runCalls before server = { server with
        responseHeaders := lines
        contentLength := (lengthSet before).getD server.contentLength } := by
  induction before with
  | nil => intro server lines _; exact ⟨_, lines, rfl⟩
  | cons call before ih =>
    intro server lines prepares
    obtain ⟨headers, ends, rest⟩ := ih (call.run server) (call.run_endsLine lines)
      fun call mem => prepares call (List.mem_cons_of_mem _ mem)
    refine ⟨headers, ends, ?_⟩
    change runCalls before (call.run server) = _
    rw [rest]
    cases call with
    | sendHeader name value first => cases first <;> rfl
    | setContentLength contentLength =>
      cases set : lengthSet before <;> simp [lengthSet, set, Call.run, Server.setContentLength]
    | send call => exact (prepares _ List.mem_cons_self).elim
    | content call => exact (prepares _ List.mem_cons_self).elim

/-- The contents of a response that are not empty, each with its way to the client. -/
def contents (sending : SendCall) (after : List ContentCall) : List (Bool × List UInt8) :=
  (if sending.content = [] then [] else [(sending.usesP, sending.content)]) ++
    after.map fun call => (call.usesP, call.content)

def Server.body (server : Server) (sending : SendCall) (after : List ContentCall) : List UInt8 :=
  (contents sending after).flatMap (fun content => server.part content.1 content.2) ++
    if server.chunked ∧ server.currentMethod ≠ .head then chunk [] else []

theorem handleRequest_written (server : Server) (before : List Call) (sending : SendCall)
    (after : List ContentCall) (full : ∀ call ∈ after, call.content ≠ []) :
    (server.handleRequest (some (before ++ .send sending :: after.map .content))).written =
      (sending.prepare (runCalls before server)).2.written ++
        (sending.prepare (runCalls before server)).1 ++
          (sending.prepare (runCalls before server)).2.body sending after := by
  have calls : runCalls (before ++ .send sending :: after.map .content) server =
      runCalls (after.map .content) (sending.run (runCalls before server)) := by
    rw [runCalls, List.foldl_append, List.foldl_cons]
    rfl
  unfold Server.handleRequest
  dsimp only
  rw [calls, sending.run_eq]
  generalize sending.prepare (runCalls before server) = prepared
  rw [runCalls_content after _ full, Server.finalizeResponse_written]
  simp only [Server.write, Server.body, contents, List.flatMap_append, List.flatMap_map,
    List.append_assoc]
  split
  · simp only [List.flatMap_nil, List.nil_append]
    rfl
  · simp only [List.flatMap_cons, List.flatMap_nil, List.append_nil]
    rfl

theorem contents_full (sending : SendCall) {after : List ContentCall}
    (full : ∀ call ∈ after, call.content ≠ []) :
    ∀ content ∈ contents sending after, content.2 ≠ [] := by
  intro content mem
  rcases List.mem_append.mp mem with first | later
  · split at first
    · cases first
    · rename_i notEmpty
      rw [List.mem_singleton.mp first]
      exact notEmpty
  · obtain ⟨call, called, rfl⟩ := List.mem_map.mp later
    exact full call called

theorem contents_flatten (sending : SendCall) (after : List ContentCall) :
    ((contents sending after).map Prod.snd).flatten =
      sending.content ++ after.flatMap ContentCall.content := by
  rw [contents, List.map_append, List.flatten_append, List.map_map]
  congr 1
  split
  · rename_i empty
    exact empty.symm
  · exact List.append_nil _

/-- Some content goes through `sendContent_P`. -/
def UsesP (sending : SendCall) (after : List ContentCall) : Prop :=
  (sending.usesP = true ∧ sending.content ≠ []) ∨ ∃ call ∈ after, call.usesP = true

theorem usesP_iff (sending : SendCall) (after : List ContentCall) :
    UsesP sending after ↔ ∃ content ∈ contents sending after, content.1 = true := by
  constructor
  · rintro (⟨uses, full⟩ | ⟨call, mem, uses⟩)
    · refine ⟨(sending.usesP, sending.content), List.mem_append_left _ ?_, uses⟩
      rw [if_neg full]
      exact List.mem_singleton_self _
    · exact ⟨_, List.mem_append_right _ (List.mem_map_of_mem mem), uses⟩
  · rintro ⟨content, mem, uses⟩
    rcases List.mem_append.mp mem with first | later
    · split at first
      · cases first
      · rename_i full
        rw [List.mem_singleton.mp first] at uses
        exact .inl ⟨uses, full⟩
    · obtain ⟨call, called, rfl⟩ := List.mem_map.mp later
      exact .inr ⟨call, called, uses⟩

namespace Server
variable (server : Server) (sending : SendCall) {after : List ContentCall}

/-- To a HEAD request only `sendContent_P` writes. -/
theorem body_head (isHead : server.currentMethod = .head)
    (full : ∀ call ∈ after, call.content ≠ []) :
    server.body sending after = [] ↔ ¬ UsesP sending after := by
  rw [body, if_neg fun both => both.2 isHead, List.append_nil, List.flatMap_eq_nil_iff, usesP_iff,
    not_exists]
  refine forall_congr' fun content => ?_
  rw [not_and]
  refine imp_congr_right fun mem => ?_
  rw [part]
  cases content.1 with
  | false => exact iff_of_true (if_pos ⟨isHead, rfl⟩) Bool.false_ne_true
  | true =>
    refine iff_of_false ?_ (not_not_intro rfl)
    rw [if_neg fun both => Bool.noConfusion both.2]
    split
    · exact List.append_ne_nil_of_right_ne_nil _ (List.cons_ne_nil _ _)
    · exact contents_full sending full content mem

theorem body_other (other : server.currentMethod ≠ .head) (after : List ContentCall) :
    server.body sending after =
      if server.chunked then
        ((contents sending after).map Prod.snd).flatMap chunk ++ (chunk [] ++ [])
      else ((contents sending after).map Prod.snd).flatten := by
  have parts : (fun content : Bool × List UInt8 => server.part content.1 content.2) =
      fun content => if server.chunked then chunk content.2 else content.2 := by
    funext content
    rw [part, if_neg fun both => other both.1]
  rw [body, parts]
  cases server.chunked with
  | false => simp [List.flatMap]
  | true => simp [List.flatMap_map, other]

end Server

/-- The client can tell where the body ends, and a HEAD request has none. -/
structure Framed (method : HTTPMethod) (before : List Call) (sending : SendCall)
    (after : List ContentCall) (header body : List UInt8) : Prop where
  /-- A response of unknown length is chunks with a last one, and nothing behind it. -/
  chunks : method ≠ .head → lengthSet before = some contentLengthUnknown →
    ∃ chunks, decode (body.length + 1) body = some (chunks, []) ∧
      chunks.flatten = sending.content ++ after.flatMap ContentCall.content
  /-- A response of one call has the length that its header gives. -/
  length : method ≠ .head → lengthSet before = none → after = [] → Announces header body.length
  head : method = .head → body = []

theorem flatMap_chunk_length (chunks : List (List UInt8)) :
    chunks.length ≤ (chunks.flatMap chunk).length := by
  induction chunks with
  | nil => exact Nat.zero_le _
  | cons data chunks ih =>
    rw [List.flatMap_cons, List.length_append, List.length_cons, chunk, List.length_append,
      List.length_cons]
    omega

theorem accept_http11 (headerKeys : List WString) {client : Client} (http11 : IsHttp11 client)
    {server : Server} (lines : EndsLine server.responseHeaders) :
    let start := server.accept headerKeys client []
    start.currentVersion = 1 ∧ start.chunked = false ∧
      start.contentLength = contentLengthNotSet ∧ start.written = [] ∧
      EndsLine start.responseHeaders := by
  obtain ⟨methodStr, url, first, method, target⟩ := http11
  obtain ⟨line, parsed, version⟩ := requestLine_http11 method target
  have stored : (parseRequest headerKeys client).line = some line := by
    rw [parseRequest_line, first, parsed]
  have accepted : server.accept headerKeys client [] =
      (server.store (parseRequest headerKeys client)).setContentLength contentLengthNotSet := by
    rw [Server.accept, Server.parse, ite_self]
    rfl
  dsimp only
  rw [accepted]
  refine ⟨?_, ?_, rfl, ?_, ?_⟩
  · simp only [Server.setContentLength, Server.store, stored, version]
  · simp only [Server.setContentLength, Server.store, stored]
  · simp only [Server.setContentLength, Server.store, stored]
  · exact (server.store_responseHeaders _).symm ▸ lines

/-- **The framing of responses.** Behind every history of connections, the response to a request
of HTTP/1.1 is framed exactly if the request is not HEAD or no content that is not empty goes
through `sendContent_P`. -/
theorem responses_framed {headerKeys : List WString} {corsEnabled : Bool}
    {connections : List Connection} {server : Server}
    (reached : Server.history headerKeys corsEnabled connections = some server)
    {client : Client} (http11 : IsHttp11 client) {before : List Call}
    (prepares : ∀ call ∈ before, call.Prepares) (sending : SendCall) {after : List ContentCall}
    (full : ∀ call ∈ after, call.content ≠ []) :
    let start := server.accept headerKeys client []
    let header := (sending.prepare (runCalls before start)).1
    ∃ body, (start.handleRequest
        (some (before ++ .send sending :: after.map .content))).written = header ++ body ∧
      (Framed start.currentMethod before sending after header body ↔
        ¬ (start.currentMethod = .head ∧ UsesP sending after)) := by
  dsimp only
  obtain ⟨version, notChunked, notSet, fresh, lines⟩ := accept_http11 headerKeys http11
    (Server.history_endsLine connections server reached)
  generalize server.accept headerKeys client [] = start at *
  obtain ⟨headers, ends, ready⟩ := runCalls_prepares before start lines prepares
  have shape := handleRequest_written start before sending after full
  have behind := sending.prepare_snd (runCalls before start)
  have announces := sending.prepare_announces (runCalls before start)
  have method : (sending.prepare (runCalls before start)).2.currentMethod =
      start.currentMethod := by
    rw [behind, ready]
    rfl
  have chunked : (sending.prepare (runCalls before start)).2.chunked =
      decide ((lengthSet before).getD contentLengthNotSet = contentLengthUnknown) := by
    rw [behind, ready]
    simp [notChunked, notSet, version]
  have written : (sending.prepare (runCalls before start)).2.written = [] := by
    rw [behind, ready]
    exact fresh
  rw [ready] at announces
  dsimp only at announces
  rw [← ready] at announces
  generalize sending.prepare (runCalls before start) = prepared at *
  obtain ⟨header, response⟩ := prepared
  dsimp only at *
  rw [written, List.nil_append] at shape
  refine ⟨response.body sending after, shape, ?_⟩
  rw [← method]
  constructor
  · rintro framed ⟨isHead, uses⟩
    exact (response.body_head sending isHead full).mp (framed.head isHead) uses
  · intro meets
    refine ⟨?_, ?_, ?_⟩
    · intro other unknown
      have chunks : response.chunked = true := by
        rw [chunked, unknown]
        rfl
      have body := response.body_other sending other after
      rw [if_pos chunks] at body
      refine ⟨(contents sending after).map Prod.snd, ?_, contents_flatten sending after⟩
      rw [body]
      refine decode_chunks _ [] _ ?_ ?_
      · rw [List.length_append]
        have length := flatMap_chunk_length ((contents sending after).map Prod.snd)
        omega
      · intro data mem
        obtain ⟨content, called, rfl⟩ := List.mem_map.mp mem
        exact contents_full sending full content called
    · intro other set only
      have plain : response.chunked = false := by
        rw [chunked, set]
        decide
      have body := response.body_other sending other after
      subst only
      rw [plain, if_neg Bool.false_ne_true, contents_flatten, List.flatMap_nil,
        List.append_nil] at body
      rw [body]
      exact announces ends (by rw [set, notSet]; rfl)
    · intro isHead
      exact (response.body_head sending isHead full).mpr fun uses => meets ⟨isHead, uses⟩

theorem responses_framed_chunks :
    let start := (Server.initial [] false).accept []
      ⟨(ofString "GET / HTTP/1.1\r\n\r\n").map some, false, 0, [], true⟩ []
    let before := [Call.setContentLength contentLengthUnknown]
    let header := ((SendCall.send 200 none []).prepare (runCalls before start)).1
    ∃ body, (start.handleRequest (some (before ++ .send (.send 200 none []) ::
        [ContentCall.sendContentP (ofString "x")].map .content))).written = header ++ body ∧
      (Framed start.currentMethod before (.send 200 none []) [.sendContentP (ofString "x")] header
          body ↔
        ¬ (start.currentMethod = .head ∧
          UsesP (.send 200 none []) [.sendContentP (ofString "x")])) :=
  responses_framed (show Server.history [] false [] = some (Server.initial [] false) from rfl)
    ⟨ofString "GET", ofString "/", by decide, by decide, by decide⟩
    (by simp [Call.Prepares]) (.send 200 none []) (by simp [ContentCall.content, ofString])

/-- The body that `sendContent_P` writes to a HEAD request. -/
theorem framing_head_body :
    let client : Client := ⟨(ofString "HEAD / HTTP/1.1\r\n\r\n").map some, false, 0, [], true⟩
    let start := (Server.initial [] false).accept [] client []
    (parseRequest [] client).parsed = .accepted ∧ start.currentMethod = .head ∧
      (start.handleRequest (some [.send (.send 200 none []),
        .content (.sendContentP (ofString "x"))])).written =
        ((SendCall.send 200 none []).prepare start).1 ++ ofString "x" := by
  decide

end Esp8266.Source.WebServer
