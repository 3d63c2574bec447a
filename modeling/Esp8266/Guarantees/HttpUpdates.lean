import Esp8266.Guarantees.WebUploads
import Esp8266.Lib.Runs
import Esp8266.Source.HttpUpdate
import Esp8266.Updater.Outcomes

/-!
# Updates over HTTP

Which requests may touch the updater and restart the device. The parser hands a file on as a
start, writes and an end; the handler of the uploads turns these into calls of the updater, and
the handler of the form looks only at what they left behind.
-/
set_option autoImplicit false

namespace Esp8266.Source.HttpUpdate
open Esp8266.Lib.Runs Esp8266.Source.Esp Esp8266.Source.Updater Esp8266.Source.WebServer
  Esp8266.Source.WString Esp8266.Updater

/-! ## What the handlers do with it -/

/-- A call that begins, writes or ends an update. -/
def Action.Updates : Action → Prop
  | .begin .. => True
  | .write .. => True
  | .ended .. => True
  | _ => False

/-- An image was begun, written and ended as `end(true)` with success. -/
def Installs (actions : List Action) : Prop :=
  ∃ before after size command, ∃ data : List (List UInt8),
    actions = before ++ (.begin size command true :: data.map (fun d => .write d d.length) ++
      .ended true true :: after)

theorem Installs.append {actions : List Action} (installs : Installs actions)
    (earlier : List Action) : Installs (earlier ++ actions) := by
  obtain ⟨before, after, size, command, data, rfl⟩ := installs
  exact ⟨earlier ++ before, after, size, command, data, by rw [List.append_assoc]⟩

theorem Installs.extend {actions : List Action} (installs : Installs actions)
    (later : List Action) : Installs (actions ++ later) := by
  obtain ⟨before, after, size, command, data, rfl⟩ := installs
  exact ⟨before, after ++ later, size, command, data, by
    simp only [List.append_assoc, List.cons_append]⟩

/-- A page behind the calls is no part of the update. -/
theorem Installs.init {actions : List Action} {page : Action}
    (installs : Installs (actions ++ [page])) (harmless : ¬ page.Updates) : Installs actions := by
  obtain ⟨before, after, size, command, data, split⟩ := installs
  rcases List.eq_nil_or_concat after with rfl | ⟨rest, last, rfl⟩
  · rw [← List.append_assoc] at split
    obtain ⟨-, ended⟩ := List.append_inj' split rfl
    rw [List.cons.inj ended |>.1] at harmless
    exact absurd trivial harmless
  · refine ⟨before, rest, size, command, data, ?_⟩
    rw [List.concat_eq_append, ← List.cons_append, ← List.append_assoc, ← List.append_assoc]
      at split
    rw [(List.append_inj' split rfl).1, List.append_assoc]

/-- The calls are updates, on behalf of a request that was accepted. -/
def Justified (accepted : Bool) (actions : List Action) : Prop :=
  ∀ action ∈ actions, action.Updates ∧ accepted = true

theorem Justified.append {accepted : Bool} {actions more : List Action}
    (first : Justified accepted actions) (second : Justified accepted more) :
    Justified accepted (actions ++ more) := by
  intro action mem
  rcases List.mem_append.mp mem with early | late
  · exact first action early
  · exact second action late

theorem justified_nil (accepted : Bool) : Justified accepted [] :=
  fun _ mem => absurd mem List.not_mem_nil

theorem justified_singleton {action : Action} (updates : action.Updates) :
    Justified true [action] := by
  intro other mem
  rw [List.mem_singleton.mp mem]
  exact ⟨updates, rfl⟩

@[simp] theorem setUpdaterError_authenticated (env : Env) (s : UpdateServer) :
    (setUpdaterError env s).authenticated = s.authenticated := rfl

@[simp] theorem setUpdaterError_updater (env : Env) (s : UpdateServer) :
    (setUpdaterError env s).machine.updater = s.machine.updater := by
  unfold setUpdaterError printError errorText
  dsimp only
  split <;> rfl

/-- The server while it is given a file, and the calls since the start of it. -/
inductive InFile : Bool → List Action → UpdateServer → Prop where
  | refused {s : UpdateServer} : s.authenticated = false → s.machine.updater.size = 0 →
    InFile false [] s
  | running {s : UpdateServer} (size command : Nat) (data : List (List UInt8)) :
    s.authenticated = true → s.updaterError = [] → Running s.machine.updater →
    InFile true (.begin size command true :: data.map fun d => .write d d.length) s
  | lost {actions : List Action} {s : UpdateServer} : s.authenticated = true →
    GivenUp s.machine.updater → Justified true actions → InFile true actions s

/-- The server behind a file. -/
structure BehindFile (accepted : Bool) (s : UpdateServer) : Prop where
  authenticated : s.authenticated = accepted
  free : s.machine.updater.size = 0

theorem InFile.authenticated {accepted : Bool} {actions : List Action} {s : UpdateServer}
    (inFile : InFile accepted actions s) : s.authenticated = accepted := by
  cases inFile <;> assumption

theorem InFile.justified {accepted : Bool} {actions : List Action} {s : UpdateServer}
    (inFile : InFile accepted actions s) : Justified accepted actions := by
  cases inFile with
  | refused => exact justified_nil _
  | lost _ _ justified => exact justified
  | running size command data =>
    intro action mem
    rcases List.mem_cons.mp mem with rfl | written
    · exact ⟨trivial, rfl⟩
    · obtain ⟨d, -, rfl⟩ := List.mem_map.mp written
      exact ⟨trivial, rfl⟩

section
variable (env : Env)

/-- The start of an update, in either form. -/
theorem beginUpdate_inFile (around : Surroundings) (name : WString) {s : UpdateServer}
    (authenticated : s.authenticated = true) (clear : s.updaterError = [])
    (free : s.machine.updater.size = 0) :
    InFile true (beginUpdate env around name s).1 (beginUpdate env around name s).2 := by
  unfold beginUpdate
  split
  · generalize Lib.Word32.sub32 env.layout.fsEnd env.layout.fsStart = fsSize
    have outcome := begin_outcome env fsSize uFs around free (.inr rfl)
    dsimp only
    generalize begin env fsSize uFs around s.machine = begun at outcome ⊢
    obtain ⟨ok, machine⟩ := begun
    rcases outcome with ⟨rfl, running⟩ | ⟨rfl, givenUp⟩
    · exact .running _ _ [] authenticated clear running
    · exact .lost authenticated givenUp (justified_singleton trivial)
  · rcases getFreeSketchSpace env s.machine.board with ⟨space, board⟩
    dsimp only
    generalize Lib.Word32.sub32 space 0x1000 &&& 0xfffff000 = maxSketchSpace
    have outcome := begin_outcome env maxSketchSpace uFlash around
      (m := { s.machine with board }) free (.inl rfl)
    generalize begin env maxSketchSpace uFlash around { s.machine with board } = begun
      at outcome ⊢
    obtain ⟨ok, machine⟩ := begun
    rcases outcome with ⟨rfl, running⟩ | ⟨rfl, givenUp⟩
    · exact .running _ _ [] authenticated clear running
    · refine .lost authenticated ?_ (justified_singleton trivial)
      rw [if_neg Bool.false_ne_true, setUpdaterError_updater]
      exact givenUp

theorem onUpload_start (accepted : Bool) (around : Surroundings) {upload : HTTPUpload}
    (status : upload.status = .fileStart) {s : UpdateServer}
    (free : s.machine.updater.size = 0) :
    InFile accepted (onUpload env accepted around upload s).1
      (onUpload env accepted around upload s).2 := by
  unfold onUpload
  rw [status]
  cases accepted with
  | false => exact .refused rfl free
  | true => exact beginUpdate_inFile env around upload.name rfl rfl free

/-- A call of the updater that has failed or was made in vain. -/
theorem InFile.stays_lost {actions : List Action} {action : Action} {s : UpdateServer}
    (failed : Prop) [Decidable failed] (authenticated : s.authenticated = true)
    (givenUp : GivenUp s.machine.updater) (updates : action.Updates)
    (justified : Justified true actions) :
    InFile true (actions ++ [action]) (if failed then setUpdaterError env s else s) := by
  refine .lost ?_ ?_ (justified.append (justified_singleton updates))
  · split <;> exact authenticated
  · split
    · rw [setUpdaterError_updater]
      exact givenUp
    · exact givenUp

/-- A buffer that is written whole, or an update that is lost. -/
theorem onUpload_write {accepted : Bool} (around : Surroundings) {upload : HTTPUpload}
    (isWrite : IsWrite upload) {actions : List Action} {s : UpdateServer}
    (inFile : InFile accepted actions s) :
    InFile accepted (actions ++ (onUpload env accepted around upload s).1)
      (onUpload env accepted around upload s).2 := by
  obtain ⟨status, small⟩ := isWrite
  have justified := inFile.justified
  obtain ⟨authenticated, updaterError, machine⟩ := s
  unfold onUpload
  rw [status]
  cases inFile with
  | refused unknown free =>
    obtain rfl : authenticated = false := unknown
    exact .refused rfl free
  | running size command data known clear running =>
    obtain rfl : authenticated = true := known
    obtain rfl : updaterError = [] := clear
    have short : upload.buf.length < 2 ^ 31 := by
      unfold httpUploadBuflen at small
      omega
    have outcome := write_outcome env running short
    dsimp only
    rw [if_pos (show (true && decide (([] : WString).length = 0)) = true from rfl)]
    generalize write env upload.buf machine = wrote at outcome ⊢
    obtain ⟨written, machine⟩ := wrote
    rcases outcome with ⟨whole, runs⟩ | givenUp
    · obtain rfl : written = upload.buf.length := whole
      have told := InFile.running size command (data ++ [upload.buf])
        (s := ⟨true, [], machine⟩) rfl rfl runs
      rw [List.map_append, ← List.cons_append] at told
      rw [if_neg (by simp)]
      exact told
    · exact InFile.stays_lost env _ rfl givenUp trivial justified
  | lost known givenUp justified =>
    obtain rfl : authenticated = true := known
    dsimp only
    rw [write_givenUp env upload.buf givenUp, Bool.true_and]
    split
    · exact InFile.stays_lost env _ rfl givenUp trivial justified
    · rw [List.append_nil]
      exact .lost rfl givenUp justified

/-- The end of a file: the image is installed, or there is an error. -/
theorem onUpload_end {accepted : Bool} (around : Surroundings) {upload : HTTPUpload}
    (status : upload.status = .fileEnd) {actions : List Action} {s : UpdateServer}
    (inFile : InFile accepted actions s) :
    let result := onUpload env accepted around upload s
    BehindFile accepted result.2 ∧ Justified accepted (actions ++ result.1) ∧
      (accepted = true → result.2.machine.updater.hasError = true ∨
        Installs (actions ++ result.1)) := by
  have justified := inFile.justified
  obtain ⟨authenticated, updaterError, machine⟩ := s
  dsimp only
  unfold onUpload
  rw [status]
  dsimp only
  cases inFile with
  | refused unknown free =>
    obtain rfl : authenticated = false := unknown
    exact ⟨⟨rfl, free⟩, justified_nil _, fun none => by cases none⟩
  | running size command data known clear running =>
    obtain rfl : authenticated = true := known
    obtain rfl : updaterError = [] := clear
    have idle := endUpdate_idle env true machine
    have outcome := endUpdate_outcome env running
    rw [if_pos (show (true && decide (([] : WString).length = 0)) = true from rfl)]
    generalize endUpdate env true machine = ended at idle outcome ⊢
    obtain ⟨ok, machine⟩ := ended
    cases ok with
    | false =>
      dsimp only at outcome idle ⊢
      rw [if_neg (by decide)]
      refine ⟨⟨rfl, ?_⟩, justified.append (justified_singleton trivial), fun _ => .inl ?_⟩
      · rw [setUpdaterError_updater]
        exact idle.size
      · rw [setUpdaterError_updater]
        exact (outcome rfl).hasError
    | true =>
      exact ⟨⟨rfl, idle.size⟩, justified.append (justified_singleton trivial),
        fun _ => .inr ⟨[], [], size, command, data, rfl⟩⟩
  | lost known givenUp justified =>
    obtain rfl : authenticated = true := known
    obtain ⟨failed, lost⟩ := endUpdate_givenUp env givenUp true
    rw [Bool.true_and]
    generalize endUpdate env true machine = ended at failed lost ⊢
    obtain ⟨ok, machine'⟩ := ended
    obtain rfl : ok = false := failed
    split
    · rw [if_neg Bool.false_ne_true]
      refine ⟨⟨rfl, ?_⟩, justified.append (justified_singleton trivial), fun _ => .inl ?_⟩
      · rw [setUpdaterError_updater]
        exact lost.idle.size
      · rw [setUpdaterError_updater]
        exact lost.hasError
    · rw [List.append_nil]
      exact ⟨⟨rfl, givenUp.idle.size⟩, justified, fun _ => .inl givenUp.hasError⟩

/-- A file that breaks off leaves no update. -/
theorem onUpload_aborted {accepted : Bool} (around : Surroundings) {upload : HTTPUpload}
    (status : upload.status = .fileAborted) {actions : List Action} {s : UpdateServer}
    (inFile : InFile accepted actions s) :
    let result := onUpload env accepted around upload s
    BehindFile accepted result.2 ∧ Justified accepted (actions ++ result.1) := by
  have justified := inFile.justified
  obtain ⟨authenticated, updaterError, machine⟩ := s
  obtain rfl : authenticated = accepted := inFile.authenticated
  dsimp only
  unfold onUpload
  rw [status]
  dsimp only
  cases authenticated with
  | false =>
    cases inFile with
    | refused _ free => exact ⟨⟨rfl, free⟩, justified_nil _⟩
  | true =>
    have idle := endUpdate_idle env false machine
    generalize endUpdate env false machine = ended at idle ⊢
    exact ⟨⟨rfl, idle.size⟩, justified.append (justified_singleton trivial)⟩

/-! ## Whole requests -/

theorem onUploads_append (accepted : Bool) (xs ys : List HTTPUpload) :
    ∀ (around : Nat → Surroundings) (s : UpdateServer),
      onUploads env accepted around (xs ++ ys) s =
        let first := onUploads env accepted around xs s
        let second := onUploads env accepted (fun k => around (k + xs.length)) ys first.2
        (first.1 ++ second.1, second.2) := by
  induction xs with
  | nil => intro around s; rfl
  | cons x xs ih =>
    intro around s
    simp only [List.cons_append, onUploads, ih, List.append_assoc, List.length_cons,
      Nat.add_assoc]

/-- Through a file, however it ends. -/
theorem onUploads_file {accepted : Bool} {fileEnd : FileEnd} {uploads : List HTTPUpload}
    (file : FileUploads fileEnd uploads) :
    ∀ (around : Nat → Surroundings) (actions : List Action) (s : UpdateServer),
      InFile accepted actions s →
      let result := onUploads env accepted around uploads s
      Justified accepted (actions ++ result.1) ∧
        (fileEnd ≠ .waiting → BehindFile accepted result.2) ∧
        (fileEnd ≠ .waiting → fileEnd ≠ .aborted → accepted = true →
          result.2.machine.updater.hasError = true ∨ Installs (actions ++ result.1)) := by
  induction file with
  | ended client status =>
    intro around actions s inFile
    obtain ⟨behind, justified, installed⟩ := onUpload_end env (around 0) status inFile
    simp only [onUploads, List.append_nil]
    exact ⟨justified, fun _ => behind, fun _ _ => installed⟩
  | aborted status =>
    intro around actions s inFile
    obtain ⟨behind, justified⟩ := onUpload_aborted env (around 0) status inFile
    simp only [onUploads, List.append_nil]
    exact ⟨justified, fun _ => behind, fun _ ended => absurd rfl ended⟩
  | waiting =>
    intro around actions s inFile
    simp only [onUploads, List.append_nil]
    exact ⟨inFile.justified, fun ended => absurd rfl ended, fun ended => absurd rfl ended⟩
  | write isWrite _ ih =>
    intro around actions s inFile
    have next := ih (fun k => around (k + 1)) _ _
      (onUpload_write env (around 0) isWrite inFile)
    rw [onUploads]
    dsimp only at next ⊢
    rwa [List.append_assoc] at next

/-- What the uploads of a request leave: it is updates only, there is no update behind them, and
if there was a file, the last one decides what the handler of the form finds. -/
theorem onUploads_form (accepted : Bool) {parsed : Parsed} {uploads : List HTTPUpload}
    (form : FormUploads parsed uploads) :
    ∀ (around : Nat → Surroundings) (s : UpdateServer), s.machine.updater.size = 0 →
      let result := onUploads env accepted around uploads s
      Justified accepted result.1 ∧
        (parsed ≠ .waiting → result.2.machine.updater.size = 0) ∧
        (parsed = .accepted → uploads ≠ [] → result.2.authenticated = accepted ∧
          (accepted = true → result.2.machine.updater.hasError = true ∨ Installs result.1)) := by
  induction form with
  | nil parsed =>
    intro around s free
    exact ⟨justified_nil _, fun _ => free, fun _ none => absurd rfl none⟩
  | file starts ended _ ih =>
    rename_i start client parsed uploads rest _
    intro around s free
    rw [onUploads_append, onUploads]
    obtain ⟨justified, behind, installed⟩ := onUploads_file env ended
      (fun k => around (k + 1)) _ _ (onUpload_start env accepted (around 0) starts free)
    dsimp only at justified behind installed ⊢
    generalize onUpload env accepted (around 0) start s = begun at *
    generalize onUploads env accepted (fun k => around (k + 1)) uploads begun.2 = first at *
    have behind := behind (by simp)
    have installed := installed (by simp) (by simp)
    obtain ⟨later, kept, last⟩ := ih
      (fun k => around (k + (start :: uploads).length)) first.2 behind.free
    refine ⟨justified.append later, kept, fun whole _ => ?_⟩
    by_cases more : rest = []
    · subst more
      simp only [onUploads, List.append_nil]
      exact ⟨behind.authenticated, installed⟩
    · obtain ⟨same, decided⟩ := last whole more
      refine ⟨same, fun credentials => ?_⟩
      rcases decided credentials with error | installs
      · exact .inl error
      · exact .inr (installs.append _)
  | aborted starts file =>
    intro around s free
    rw [onUploads]
    obtain ⟨justified, behind, -⟩ := onUploads_file env file
      (fun k => around (k + 1)) _ _ (onUpload_start env accepted (around 0) starts free)
    exact ⟨justified, fun _ => (behind (by simp)).free, fun whole => by cases whole⟩
  | waiting starts file =>
    intro around s free
    rw [onUploads]
    obtain ⟨justified, -, -⟩ := onUploads_file env file
      (fun k => around (k + 1)) _ _ (onUpload_start env accepted (around 0) starts free)
    exact ⟨justified, fun returns => absurd rfl returns, fun whole => by cases whole⟩

end

/-! ## Runs -/

/-- What a request may do: it restarts the device only for an image that was uploaded in it with
the credentials, and without them it leaves the updater alone. -/
def Right (accepted : Bool) (actions : List Action) : Prop :=
  (.successResponse ∈ actions ∨ .restart ∈ actions → accepted = true ∧ Installs actions) ∧
    ∀ action ∈ actions, action.Updates → accepted = true

/-- A form for the update that is read to its end without a file finds no credentials accepted
before it, or an error. -/
def Spared (setup : Setup) (request : Request) (s : UpdateServer) : Prop :=
  setup.handler request = .update → request.parsed = .accepted → request.uploads = [] →
    s.authenticated = false ∨ s.machine.updater.hasError = true

theorem right_of_no_update {accepted : Bool} {actions : List Action}
    (pages : ∀ action ∈ actions, action = .requestAuthentication ∨ action = .serverIndex) :
    Right accepted actions := by
  constructor
  · rintro (mem | mem)
    · rcases pages _ mem with other | other <;> cases other
    · rcases pages _ mem with other | other <;> cases other
  · intro action mem updates
    rcases pages action mem with rfl | rfl
    · exact updates.elim
    · exact updates.elim

theorem right_nil (accepted : Bool) : Right accepted [] :=
  right_of_no_update fun _ mem => absurd mem List.not_mem_nil

theorem Justified.right {accepted : Bool} {actions : List Action}
    (justified : Justified accepted actions) : Right accepted actions := by
  refine ⟨?_, fun action mem _ => (justified action mem).2⟩
  rintro (mem | mem)
  · exact (justified _ mem).1.elim
  · exact (justified _ mem).1.elim

/-- The page of the handler of the form, behind the calls for the files. -/
theorem right_onPost {accepted : Bool} {actions : List Action}
    (justified : Justified accepted actions) (s : UpdateServer) :
    Right accepted (actions ++ onPost s) ↔ (s.authenticated = true →
      s.machine.updater.hasError = false → accepted = true ∧ Installs actions) := by
  have quiet : ∀ page : Action, ¬ page.Updates → page ≠ .successResponse → page ≠ .restart →
      Right accepted (actions ++ [page]) := by
    intro page harmless noSuccess noRestart
    constructor
    · rintro (mem | mem)
      · rcases List.mem_append.mp mem with early | late
        · exact (justified _ early).1.elim
        · exact absurd (List.mem_singleton.mp late).symm noSuccess
      · rcases List.mem_append.mp mem with early | late
        · exact (justified _ early).1.elim
        · exact absurd (List.mem_singleton.mp late).symm noRestart
    · intro action mem updates
      rcases List.mem_append.mp mem with early | late
      · exact (justified _ early).2
      · rw [List.mem_singleton.mp late] at updates
        exact absurd updates harmless
  unfold onPost
  cases s.authenticated with
  | false => simp [quiet .requestAuthentication id (by simp) (by simp)]
  | true =>
    cases s.machine.updater.hasError with
    | true => simp [quiet (.updateError s.updaterError) id (by simp) (by simp)]
    | false =>
      simp only [Bool.not_true, Bool.false_eq_true, if_false, true_imp_iff]
      constructor
      · intro right
        obtain ⟨credentials, installs⟩ := right.1 (.inl (by simp))
        have pages : actions ++ [.successResponse, .restart] =
            actions ++ [.successResponse] ++ [.restart] := by rw [List.append_assoc]; rfl
        rw [pages] at installs
        exact ⟨credentials, (installs.init id).init id⟩
      · rintro ⟨credentials, installs⟩
        exact ⟨fun _ => ⟨credentials, installs.extend _⟩, fun _ _ _ => credentials⟩

/-- One request, on a server without an update. -/
theorem serveRequest_right (env : Env) (setup : Setup) (scene : Scene) (client : WebServer.Client)
    {s : UpdateServer} (free : s.machine.updater.size = 0) :
    Right (setup.accepts scene (setup.request client))
        (serveRequest env setup scene (setup.request client) s).1 ↔
      Spared setup (setup.request client) s := by
  have form := parseRequest_uploads (ofString "Authorization" :: setup.headerKeys) client
  change FormUploads (setup.request client).parsed (setup.request client).uploads at form
  generalize setup.request client = request at form ⊢
  unfold serveRequest Spared
  dsimp only
  generalize setup.accepts scene request = accepted
  cases setup.handler request with
  | other => exact ⟨fun _ update => (by cases update), fun _ => right_nil accepted⟩
  | form =>
    refine ⟨fun _ update => (by cases update), fun _ => right_of_no_update ?_⟩
    intro action mem
    dsimp only [onGet] at mem
    split at mem
    · split at mem
      · exact .inl (List.mem_singleton.mp mem)
      · exact .inr (List.mem_singleton.mp mem)
    · cases mem
  | update =>
    obtain ⟨justified, -, installed⟩ := onUploads_form env accepted form scene.around s
      free
    dsimp only at justified installed ⊢
    by_cases whole : request.parsed = .accepted
    · rw [if_pos whole, right_onPost justified]
      simp only [whole, true_imp_iff]
      by_cases none : request.uploads = []
      · simp only [none, true_imp_iff, onUploads]
        have nothing : ¬ Installs [] := by
          rintro ⟨before, after, size, command, data, split⟩
          simp at split
        cases s.authenticated <;> cases s.machine.updater.hasError <;> simp [nothing]
      · simp only [none, false_imp_iff, iff_true]
        obtain ⟨same, decided⟩ := installed whole none
        intro authenticated noError
        rw [same] at authenticated
        refine ⟨authenticated, (decided authenticated).resolve_left ?_⟩
        rw [noError]
        exact Bool.false_ne_true
    · rw [if_neg whole, List.append_nil]
      simp only [whole, false_imp_iff, true_imp_iff, iff_true]
      exact justified.right

/-- Behind a request that returns there is no update. -/
theorem serveRequest_free (env : Env) (setup : Setup) (scene : Scene) (client : WebServer.Client)
    {s : UpdateServer} (free : s.machine.updater.size = 0)
    (returns : (setup.request client).parsed ≠ .waiting) :
    (serveRequest env setup scene (setup.request client) s).2.machine.updater.size = 0 := by
  have form := parseRequest_uploads (ofString "Authorization" :: setup.headerKeys) client
  change FormUploads (setup.request client).parsed (setup.request client).uploads at form
  generalize setup.request client = request at form returns ⊢
  unfold serveRequest
  dsimp only
  cases setup.handler request with
  | other => exact free
  | form => exact free
  | update => exact (onUploads_form env _ form scene.around s free).2.1 returns

/-- The condition for a call of `handleClient`, if it serves a request. -/
def SparedVisit (setup : Setup) (visit : Visit) (d : Device) : Prop :=
  d.serves visit = true → Spared setup (setup.request visit.client) d.server

/-- What a call of `handleClient` answers. -/
theorem handleClient_answer (env : Env) (setup : Setup) (visit : Visit) (d : Device) :
    (handleClient env setup visit d).1 =
      if d.serves visit then
        (serveRequest env setup visit.scene (setup.request visit.client) d.server).1
      else [] := by
  have server : (d.take visit).server = d.server := by
    unfold Device.take
    split <;> rfl
  unfold handleClient Device.serves
  cases d.running with
  | false => rfl
  | true =>
    dsimp only
    cases visit.reachable with
    | false => simp
    | true =>
      cases status : (d.take visit).status with
      | none => simp
      | waitRead =>
        cases visit.available with
        | true =>
          simp only [server, Bool.not_true, Bool.false_eq_true, if_false, if_true,
            decide_true, Bool.and_self]
          split <;> rfl
        | false =>
          simp only [Bool.not_true, Bool.false_eq_true, if_false, if_true, Bool.and_false]
          split <;> rfl
      | waitClose =>
        simp only [Bool.not_true, Bool.false_eq_true, if_false, if_true, reduceCtorEq,
          decide_false, Bool.and_false, Bool.false_and]
        split <;> rfl

/-- A device that runs has no update between the calls of `handleClient`. -/
def Rests (d : Device) : Prop := d.running = true → d.server.machine.updater.size = 0

theorem handleClient_rests (env : Env) (setup : Setup) (visit : Visit) {d : Device}
    (rests : Rests d) : Rests (handleClient env setup visit d).2 := by
  intro running
  have server : (d.take visit).server = d.server ∧ (d.take visit).running = d.running := by
    unfold Device.take
    split <;> exact ⟨rfl, rfl⟩
  unfold handleClient at running ⊢
  cases runs : d.running with
  | false =>
    rw [runs] at running
    simp [runs] at running
  | true =>
    have free := rests runs
    rw [← server.1] at free
    rw [runs] at running
    simp only [Bool.not_true, Bool.false_eq_true, if_false] at running ⊢
    split
    · rename_i reachable
      rw [if_pos reachable] at running
      cases status : (d.take visit).status with
      | none => exact free
      | waitRead =>
        rw [status] at running
        dsimp only at running ⊢
        split
        · rename_i available
          rw [if_pos available] at running
          have returns : (setup.request visit.client).parsed ≠ .waiting := by
            split at running
            · exact (of_decide_eq_true running).1
            · exact (of_decide_eq_true running).1
          have after := serveRequest_free env setup visit.scene visit.client free returns
          split <;> exact after
        · split <;> exact free
      | waitClose =>
        dsimp only
        split <;> exact free
    · exact free

/-- In a run, a request does no more than it may exactly when each form that comes without a
file finds no credentials that were accepted before, or an error. -/
theorem requests_right (env : Env) (setup : Setup) (visits : List Visit) :
    ∀ d : Device, d.server.machine.updater.size = 0 →
      ((∀ p ∈ visits.zip (run (handleClient env setup) visits d).1,
          Right (setup.accepts p.1.scene (setup.request p.1.client)) p.2) ↔
        Admits (handleClient env setup) (SparedVisit setup) visits d) := by
  intro d free
  have rests : Rests d := fun _ => free
  clear free
  induction visits generalizing d with
  | nil => simp [run, Admits]
  | cons visit visits ih =>
    have first : Right (setup.accepts visit.scene (setup.request visit.client))
        (handleClient env setup visit d).1 ↔ SparedVisit setup visit d := by
      rw [handleClient_answer, SparedVisit]
      by_cases serves : d.serves visit = true
      · have running : d.running = true := by
          unfold Device.serves at serves
          cases runs : d.running with
          | true => rfl
          | false =>
            rw [runs] at serves
            cases serves
        rw [if_pos serves, serveRequest_right env setup visit.scene visit.client (rests running)]
        simp only [serves, true_imp_iff]
      · rw [if_neg serves]
        exact ⟨fun _ served => absurd served serves, fun _ => right_nil _⟩
    have later := ih (handleClient env setup visit d).2 (handleClient_rests env setup visit rests)
    simp only [run, List.zip_cons_cons, List.forall_mem_cons, Admits]
    exact and_congr first later

/-- A file that breaks off, with the password. -/
theorem requests_right_aborted :
    let env : Env := {
      layout := ⟨0x40300000, 0x40310000, by decide, by decide, by decide, by decide, by decide⟩
      chip := ⟨0x140000, 2 ^ 20, by decide⟩
      fault := fun _ => none
      md5Hex := fun _ => []
      mallocSucceeds := fun _ => true
      heap := fun _ => 0
      stack := fun _ => 0 }
    let setup : Setup := ⟨ofString "/update", ofString "a", ofString "b", []⟩
    let board : Board := ⟨fun _ => 0xff, fun _ => 0, 4096, 0, []⟩
    let d : Device := ⟨.none, 0, ⟨false, [], ⟨.construct 0 none false, board⟩⟩, true⟩
    let visit : Visit := {
      arriving := true
      reachable := true
      available := true
      client := {
        input := (ofString ("POST /update HTTP/1.1\r\nAuthorization: Basic YTpi\r\n" ++
          "Content-Type: multipart/form-data; boundary=x\r\n\r\n--x\r\n" ++
          "Content-Disposition: form-data; name=\"firmware\"; filename=\"f\"\r\n" ++
          "Content-Type: application/octet-stream\r\n\r\nA")).map some
        closed := true
        lag := 0
        stack := []
        reserves := true }
      scene := ⟨fun authorization => authorization = ofString "Basic YTpi", fun _ => ⟨0, 0⟩⟩
      connected := false
      now := 0
      later := 0 }
    ∀ p ∈ [visit].zip (run (handleClient env setup) [visit] d).1,
      Right (setup.accepts p.1.scene (setup.request p.1.client)) p.2 := by
  rw [ofString_append, ofString_append, ofString_append]
  repeat rw [ofString_ofList]
  intro env setup board d visit
  refine (requests_right env setup [visit] d rfl).mpr ⟨fun _ _ whole => ?_, trivial⟩
  exact absurd whole (by decide +kernel)

/-- The credentials of an upload that broke off are still there for the next request, a form
without a file and without a password. -/
theorem stale_credentials :
    let env : Env := {
      layout := ⟨0x40300000, 0x40310000, by decide, by decide, by decide, by decide, by decide⟩
      chip := ⟨0x140000, 2 ^ 20, by decide⟩
      fault := fun _ => none
      md5Hex := fun _ => []
      mallocSucceeds := fun _ => true
      heap := fun _ => 0
      stack := fun _ => 0 }
    let setup : Setup := ⟨ofString "/update", ofString "a", ofString "b", []⟩
    let board : Board := ⟨fun _ => 0xff, fun _ => 0, 4096, 0, []⟩
    let d : Device := ⟨.none, 0, ⟨false, [], ⟨.construct 0 none false, board⟩⟩, true⟩
    let scene : Scene :=
      ⟨fun authorization => authorization = ofString "Basic YTpi", fun _ => ⟨0, 0⟩⟩
    let upload : WebServer.Client := {
      input := (ofString ("POST /update HTTP/1.1\r\nAuthorization: Basic YTpi\r\n" ++
        "Content-Type: multipart/form-data; boundary=x\r\n\r\n--x\r\n" ++
        "Content-Disposition: form-data; name=\"firmware\"; filename=\"f\"\r\n" ++
        "Content-Type: application/octet-stream\r\n\r\nA")).map some
      closed := true
      lag := 0
      stack := []
      reserves := true }
    let form : WebServer.Client :=
      ⟨(ofString "POST /update HTTP/1.1\r\n\r\n").map some, false, 0, [], true⟩
    let visits : List Visit :=
      [⟨true, true, true, upload, scene, false, 0, 0⟩, ⟨true, true, true, form, scene, true, 0, 0⟩]
    setup.accepts scene (setup.request form) = false ∧
      ∃ actions, (⟨true, true, true, form, scene, true, 0, 0⟩, actions) ∈
        visits.zip (run (handleClient env setup) visits d).1 ∧
        actions = [.successResponse, .restart] ∧
        ¬ Right (setup.accepts scene (setup.request form)) actions := by
  rw [ofString_append, ofString_append, ofString_append]
  repeat rw [ofString_ofList]
  intro env setup board d scene upload form visits
  have refused : setup.accepts scene (setup.request form) = false := by decide
  have answers : (run (handleClient env setup) visits d).1 =
      [[.begin 0xfe000 uFlash true, .ended false false], [.successResponse, .restart]] := by
    decide +kernel
  refine ⟨refused, _, ?_, rfl, ?_⟩
  · rw [answers]
    exact List.mem_cons_of_mem _ List.mem_cons_self
  · rintro ⟨restarts, -⟩
    exact absurd (restarts (.inl List.mem_cons_self)).1 (by rw [refused]; exact Bool.false_ne_true)

end Esp8266.Source.HttpUpdate
