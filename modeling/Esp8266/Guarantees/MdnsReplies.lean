import Esp8266.Lib.Runs
import Esp8266.Source.MdnsResponder

/-!
# Queries and replies of MDNSResponder

The reply to a query depends on the query, the names, the addresses and the probing states, as
long as no earlier query that asked for a service was given up before its end.
-/
set_option autoImplicit false

namespace Esp8266.Source.Mdns
open Esp8266.Lib.Runs

/-! ## What a reply does not depend on -/

/-- Without the count and the timeout. -/
def ProbeInformation.erase (probe : ProbeInformation) : ProbeInformation :=
  { probe with sentCount := 0, timeout := ProbeInformation.new.timeout }

def Service.erase (s : Service) : Service := { s with probe := s.probe.erase }

namespace Responder

def erase (r : Responder) : Responder :=
  { r with
    hostProbe := r.hostProbe.erase
    services := r.services.map Service.erase
    log := [] }

/-- What a step does does not depend on what is erased. -/
def Blind (f : Responder → Responder) : Prop := ∀ r, (f r).erase = (f r.erase).erase

/-- Two responders that only differ in what is erased. -/
def Alike (r r' : Responder) : Prop := r.erase = r'.erase

theorem Blind.alike {f : Responder → Responder} (blind : Blind f) {r r' : Responder}
    (alike : Alike r r') : Alike (f r) (f r') := by
  rw [Alike, blind r, blind r', show r.erase = r'.erase from alike]

/-- What does not read what is erased is the same for both. -/
theorem Alike.same {α : Type} {v : Responder → α} (reads : ∀ r, v r = v r.erase)
    {r r' : Responder} (alike : Alike r r') : v r = v r' := by
  rw [reads r, reads r', show r.erase = r'.erase from alike]

end Responder

namespace Responder

/-- No reply is planned. -/
def Unplanned (r : Responder) : Prop := ∀ s ∈ r.services, s.replyMask = .zero

/-- No tiebreak is needed. -/
def Untied (r : Responder) : Prop :=
  r.hostProbe.tiebreakNeeded = false ∧ ∀ s ∈ r.services, s.probe.tiebreakNeeded = false

def Settled (r : Responder) : Prop := r.Unplanned ∧ r.Untied

/-- All services have a property. -/
def Every (P : Service → Prop) (r : Responder) : Prop := ∀ s ∈ r.services, P s

theorem every_modifyService {P : Service → Prop} {r : Responder} {f : Service → Service}
    (keeps : ∀ s, P s → P (f s)) (i : Nat) (every : r.Every P) : (r.modifyService i f).Every P := by
  intro s member
  obtain ⟨k, found⟩ := List.mem_iff_getElem?.1 member
  rw [getElem?_modifyService] at found
  split at found
  · obtain ⟨s', before, rfl⟩ := Option.map_eq_some_iff.1 found
    exact keeps s' (every s' (List.mem_iff_getElem?.2 ⟨k, before⟩))
  · exact every s (List.mem_iff_getElem?.2 ⟨k, found⟩)

/-- A question asks for a service whose probing is done. -/
def Asks (question : RRQuestion) (r : Responder) : Prop :=
  ∃ s ∈ r.services, (r.passivModeEnabled = true ∨ s.probe.probingStatus = .done) ∧
    (s.replyMask? question.header).1.any = true

/-- A query is read to its end, and is no legacy query from elsewhere. -/
def Complete (q : Query) (r : Responder) : Prop :=
  q.questionCount ≤ q.questions.length ∧ q.recordCount ≤ q.records.length ∧
    (q.remotePort = mqueryPort ∨ q.questionCount ≠ 1 ∨ r.isLocal q.remoteAddress = true)

/-- A query leaves nothing behind. -/
def Harmless (q : Query) (r : Responder) : Prop :=
  Complete q r ∨ ∀ question ∈ q.questions.take q.questionCount, ¬Asks question r

theorem any_eq_false {mask : ServiceReplyMask} : mask.any = false ↔ mask = .zero := by
  obtain ⟨ptrType, ptrName, txt, srv⟩ := mask
  simp [ServiceReplyMask.any, ServiceReplyMask.zero, and_assoc]

theorem unicastReply_complete {q : Query} {r : Responder}
    (accepted : q.remotePort = mqueryPort ∨ q.questionCount ≠ 1 ∨ r.isLocal q.remoteAddress = true)
    (question : RRQuestion) (replies : Bool) (p : SendParameter) :
    (unicastReply q question replies r p).1 = true := by
  rw [unicastReply]
  split
  · dsimp only
    split
    · rename_i legacy
      rcases accepted with port | count | isLocal
      · exact absurd port legacy.1
      · exact absurd legacy.2.1 count
      · rw [if_pos isLocal]
    · rfl
  · rfl

theorem parseQuestions_complete {q : Query} (count : Nat) :
    ∀ (questions : List RRQuestion) (p : SendParameter) {r : Responder},
      count ≤ questions.length →
      (q.remotePort = mqueryPort ∨ q.questionCount ≠ 1 ∨ r.isLocal q.remoteAddress = true) →
      (parseQuestions q count questions p r).1 = true := by
  induction count with
  | zero => intro questions p r _ _; rfl
  | succ count ih =>
    intro questions p r enough accepted
    cases questions with
    | nil => exact absurd enough (by simp)
    | cons question questions =>
      have goesOn : (parseQuestion q question p r).1 = true :=
        unicastReply_complete (r := (r.hostTiebreakNeed question).planServices question)
          accepted _ _ _
      rw [parseQuestions]
      simp only [goesOn, if_true]
      exact ih questions _ (Nat.le_of_succ_le_succ enough) accepted

/-- A request leaves nothing behind. -/
def Clean (request : Request) (r : Responder) : Prop :=
  match request.action with
  | .query q => Harmless q r
  | _ => True

def esp : Hostname := ⟨[0x65, 0x73, 0x70], by decide⟩

/-- esp.local with the service web._http._tcp.local on port 80, both of them announced. -/
def established : Responder where
  hostname := some esp
  hostProbe := { ProbeInformation.new with probingStatus := .done }
  services := [{
    name := label? [0x77, 0x65, 0x62]
    autoName := false
    service := [0x68, 0x74, 0x74, 0x70]
    protocol := [0x74, 0x63, 0x70]
    port := 80
    replyMask := .zero
    txts := []
    probe := { ProbeInformation.new with probingStatus := .done } }]
  passivModeEnabled := false
  ipAddress := 0x0204a8c0
  subnets := [(0x0204a8c0, 0x00ffffff)]
  sends := []
  sketch := []
  log := []

theorem established_settled : established.Settled := by
  refine ⟨fun s member => ?_, rfl, fun s member => ?_⟩
  · rw [List.mem_singleton.1 member]
  · rw [List.mem_singleton.1 member]
    rfl

/-- A question for the service, in a query with as many questions as it announces. -/
def instanceQuery (questionCount : Nat) : Query where
  id := 0
  remoteAddress := 0x0304a8c0
  remotePort := mqueryPort
  questionCount := questionCount
  questions := [⟨⟨(allocService [0x77, 0x65, 0x62] false [0x68, 0x74, 0x74, 0x70]
    [0x74, 0x63, 0x70] 80).buildDomain true, typeSRV, classIN⟩, false⟩]
  recordCount := 0
  records := []

end Responder

end Esp8266.Source.Mdns
