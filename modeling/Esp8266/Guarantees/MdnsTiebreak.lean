import Esp8266.Guarantees.MdnsReplies
import Esp8266.Guarantees.MdnsTermination

/-!
# Tiebreaks of MDNSResponder

Two responders probe for one name and each reads the probe of the other. For the name of a host
the lower address gives up, and only that one. For the name of a service both give up, since
`operator>` of two names only says that they differ.
-/
set_option autoImplicit false

namespace Esp8266.Source.Mdns
namespace Responder

/-! ## What is logged stays -/

theorem closed_log (base : List Event) : Closed fun _ r => base <:+ r.log where
  oracles _ _ grown := grown
  hostNamed _ grown := grown.trans (List.suffix_cons _ _)
  serviceNamed _ _ _ _ grown := grown.trans (List.suffix_cons _ _)
  added _ _ _ grown := grown.trans (List.suffix_cons _ _)
  hostTold _ grown := grown
  serviceTold _ _ grown := grown

theorem clearService_log {base : List Event} {r : Responder} (i : Nat) (grown : base <:+ r.log) :
    base <:+ (r.clearService i).log := grown.trans (List.suffix_cons _ _)

/-- What an owner's cancelled probing is counted by. -/
def cancellations (owner : Owner) (r : Responder) : Nat := r.log.count (.cancelled owner)

theorem cancellations_mono {owner : Owner} {r r' : Responder} (grown : r.log <:+ r'.log) :
    cancellations owner r ≤ cancellations owner r' := grown.sublist.count_le _

theorem knownAnswerForService_log {base : List Event} {r : Responder} (record : ResourceRecord)
    (i : Nat) (grown : base <:+ r.log) : base <:+ (knownAnswerForService record i r).log := by
  rw [knownAnswerForService]
  refine withService_keeps (P := fun r => base <:+ r.log) (fun s _ grown => ?_) grown
  rw [serviceTiebreak]
  split
  · split
    · split
      · exact grown
      · split
        · exact (closed_log base).cancelProbingForService i s
            (clearService_log i (r := event _ _) (grown.trans (List.suffix_cons _ _)))
        · exact grown
    · exact grown
  · exact grown

theorem cancelProbingForHost_log (r : Responder) :
    .cancelled .host :: r.log <:+ r.cancelProbingForHost.log :=
  (closed_log (.cancelled .host :: r.log)).cancelProbingForHost clearService_log List.suffix_rfl

theorem cancelProbingForService_log (i : Nat) (s : Service) (r : Responder) :
    .cancelled (.service i) :: r.log <:+ (r.cancelProbingForService i s).2.log := by
  rw [cancelProbingForService]
  split
  · exact (closed_log (.cancelled (.service i) :: r.log)).callback List.suffix_rfl
  · exact List.suffix_rfl

theorem parseRecord_log {base : List Event} {r : Responder} (record : ResourceRecord)
    (p : SendParameter) (grown : base <:+ r.log) : base <:+ (parseRecord record p r).2.log := by
  rw [parseRecord]
  split
  · refine forServices_keeps (P := fun r => base <:+ r.log)
      (fun i r grown => knownAnswerForService_log record i grown) ?_
    rw [hostTiebreak]
    split
    · split
      · split
        · split
          · exact ((grown.trans (List.suffix_cons _ _)).trans (List.suffix_cons _ _)).trans
              (cancelProbingForHost_log (r.event _))
          · exact grown
        · exact grown
      · exact grown
    · exact grown
  · exact grown

theorem parseRecords_log {base : List Event} (count : Nat) :
    ∀ (records : List ResourceRecord) (p : SendParameter) {r : Responder}, base <:+ r.log →
      base <:+ (parseRecords count records p r).2.2.log := by
  induction count with
  | zero => intro records p r grown; exact grown
  | succ count ih =>
    intro records p r grown
    cases records with
    | nil => exact grown
    | cons record records => exact ih records _ (parseRecord_log record p grown)

theorem sendMDNSMessage_log (r : Responder) (p : SendParameter) :
    (r.sendMDNSMessage p).2.log = r.log ∨
      ∃ m, (r.sendMDNSMessage p).2.log = .sent m :: r.log := by
  rw [sendMDNSMessage]
  split
  · exact Or.inl rfl
  · split
    · exact Or.inr ⟨_, rfl⟩
    · exact Or.inl rfl

/-- A reply cancels nothing. -/
theorem replyTo_cancellations (owner : Owner) (p : SendParameter) (r : Responder) :
    cancellations owner (r.replyTo p).2 = cancellations owner r := by
  rw [replyTo]
  split
  · rcases sendMDNSMessage_log r { p with response := true, authorative := true } with
      same | ⟨m, more⟩
    · rw [cancellations, cancellations, same]
    · rw [cancellations, cancellations, more, List.count_cons_of_ne (by simp)]
  · rfl

/-! ## What a probe says -/

theorem mapM_id_eq_some {α : Type} {l : List (Option α)} :
    ∀ {xs : List α}, l.mapM id = some xs → l = xs.map some := by
  induction l with
  | nil => intro xs all; cases all; rfl
  | cons x rest ih =>
    intro xs all
    rw [List.mapM_cons] at all
    obtain ⟨y, found, rest', gathered, done⟩ : ∃ y, x = some y ∧ ∃ ys, rest.mapM id = some ys ∧
        y :: ys = xs := by
      cases x with
      | none => simp at all
      | some y =>
        refine ⟨y, rfl, ?_⟩
        cases gathered : rest.mapM id with
        | none => simp [gathered] at all
        | some ys => exact ⟨ys, rfl, by simpa [gathered] using all⟩
    rw [found, ← done, ih gathered]
    rfl

theorem prepareMDNSMessage_some {r : Responder} {p : SendParameter} {m : Message}
    (prepared : r.prepareMDNSMessage p = some m) :
    m.questions = p.questions ∧
      r.hostAnswers p ++ r.services.reverse.flatMap (r.serviceAnswers p) = m.answers.map some ∧
      r.services.reverse.flatMap (r.additionalAnswers p) ++
        keep (r.services.any (needsAdditionalA p)) (r.writeAnswerA p) = m.additional.map some := by
  rw [prepareMDNSMessage] at prepared
  cases answers : (r.hostAnswers p ++ r.services.reverse.flatMap (r.serviceAnswers p)).mapM id with
  | none => simp [answers] at prepared
  | some xs =>
    cases additional : (r.services.reverse.flatMap (r.additionalAnswers p) ++
        keep (r.services.any (needsAdditionalA p)) (r.writeAnswerA p)).mapM id with
    | none => simp [answers, additional] at prepared
    | some ys =>
      simp only [answers, additional, Option.bind_eq_bind, Option.bind_some, Option.pure_def,
        Option.some.injEq] at prepared
      subst prepared
      exact ⟨rfl, mapM_id_eq_some answers, mapM_id_eq_some additional⟩

theorem sendMDNSMessage_some {r : Responder} {p : SendParameter} {m : Message}
    (sent : (r.sendMDNSMessage p).1 = some m) : r.prepareMDNSMessage p = some m := by
  rw [sendMDNSMessage] at sent
  split at sent
  · exact absurd sent (by simp)
  · rename_i prepared
    split at sent
    · rw [prepared]
      exact sent
    · exact absurd sent (by simp)

/-- The first record of a probe for the host is its address. -/
theorem hostProbe_sent {r : Responder} {m : Message} (sent : r.sendHostProbe.1 = some m) :
    ∃ host rest, r.hostDomain = some host ∧ m.questions = [probeQuestion host false] ∧
      m.answers = ⟨⟨host, typeA, classIN⟩, hostTTL, .a r.ipAddress⟩ :: rest := by
  rw [sendHostProbe] at sent
  cases host : r.hostDomain with
  | none => simp [host] at sent
  | some domain =>
    simp only [host] at sent
    obtain ⟨questions, answers, -⟩ := prepareMDNSMessage_some (sendMDNSMessage_some sent)
    have address : r.hostAnswers (hostProbeParameter domain) =
        [some ⟨⟨domain, typeA, classIN⟩, hostTTL, .a r.ipAddress⟩] := by
      have written : r.writeAnswerA (hostProbeParameter domain) =
          some ⟨⟨domain, typeA, classIN⟩, hostTTL, .a r.ipAddress⟩ := by
        rw [writeAnswerA, host]
        rfl
      rw [hostAnswers, written]
      rfl
    rw [address] at answers
    cases written : m.answers with
    | nil => simp [written] at answers
    | cons first rest =>
      rw [written, List.map_cons] at answers
      obtain ⟨same, -⟩ := List.cons.inj answers
      exact ⟨domain, rest, rfl, questions, by rw [Option.some.inj same]⟩

theorem mem_keep_iff {α : Type} {wanted : Bool} {x y : α} :
    y ∈ keep wanted x ↔ wanted = true ∧ y = x := by
  cases wanted <;> simp [keep]

/-- Every target that a probe names is its sender. -/
theorem mem_serviceAnswers {r : Responder} {p : SendParameter} {s : Service}
    {record : ResourceRecord}
    (member : some record ∈ r.serviceAnswers p s ∨ some record ∈ r.additionalAnswers p s) :
    readable record = true ∧ ∀ priority weight port srvDomain,
      record.rdata = .srv priority weight port srvDomain → r.hostDomain = some srvDomain := by
  have srv : some record = r.writeAnswerSRV s p → readable record = true ∧
      ∀ priority weight port srvDomain, record.rdata = .srv priority weight port srvDomain →
        r.hostDomain = some srvDomain := by
    intro written
    cases host : r.hostDomain with
    | none => simp [writeAnswerSRV, host] at written
    | some domain =>
      simp only [writeAnswerSRV, host, Option.map_some, Option.some.injEq] at written
      subst written
      refine ⟨rfl, fun priority weight port srvDomain same => ?_⟩
      simp only [RData.srv.injEq] at same
      rw [same.2.2.2]
  have other : ∀ record' : ResourceRecord, some record = some record' →
      readable record' = true →
      (∀ priority weight port srvDomain, record'.rdata ≠ .srv priority weight port srvDomain) →
      readable record = true ∧ ∀ priority weight port srvDomain,
        record.rdata = .srv priority weight port srvDomain → r.hostDomain = some srvDomain := by
    intro record' same reads noTarget
    obtain rfl := Option.some.inj same
    exact ⟨reads, fun priority weight port srvDomain is =>
      absurd is (noTarget priority weight port srvDomain)⟩
  rcases member with answer | additional
  · simp only [serviceAnswers, List.mem_append] at answer
    rcases answer with ((type | name) | written) | txt
    · exact other _ (mem_keep_iff.1 type).2 rfl fun _ _ _ _ => by simp [writeAnswerPTRType]
    · exact other _ (mem_keep_iff.1 name).2 rfl fun _ _ _ _ => by simp [writeAnswerPTRName]
    · exact srv (mem_keep_iff.1 written).2
    · exact other _ (mem_keep_iff.1 txt).2 rfl fun _ _ _ _ => by simp [writeAnswerTXT]
  · simp only [additionalAnswers, List.mem_append] at additional
    rcases additional with written | txt
    · exact srv (mem_keep_iff.1 written).2
    · exact other _ (mem_keep_iff.1 txt).2 rfl fun _ _ _ _ => by simp [writeAnswerTXT]

/-- What the others learn from a probe for a service. -/
structure ServiceProbe (domain host : RRDomain) (m : Message) : Prop where
  questions : m.questions = [probeQuestion domain true]
  readable : ∀ record ∈ m.answers, readable record = true
  targets : ∀ record ∈ m.answers ++ m.additional, ∀ priority weight port srvDomain,
    record.rdata = .srv priority weight port srvDomain → srvDomain = host
  srv : ∃ record ∈ m.answers, record.header = ⟨domain, typeSRV, classIN⟩ ∧
    ∃ port, record.rdata = .srv 0 0 port host

theorem serviceProbe_sent {r : Responder} {i : Nat} {s : Service} {m : Message}
    (found : r.services[i]? = some s) (sent : (r.sendServiceProbe i s).1 = some m) :
    ∃ host, r.hostDomain = some host ∧ ServiceProbe (s.buildDomain true) host m := by
  obtain ⟨questions, answers, additional⟩ :=
    prepareMDNSMessage_some (sendMDNSMessage_some sent)
  generalize masked : r.maskService i ⟨false, true, false, true⟩ = r' at answers additional
  have domain : r'.hostDomain = r.hostDomain := by rw [← masked]; rfl
  have member : { s with replyMask := ⟨false, true, false, true⟩ } ∈ r'.services := by
    refine List.mem_iff_getElem?.2 ⟨i, ?_⟩
    rw [← masked, maskService, getElem?_modifyService, if_pos rfl, found]
    rfl
  have listed : ∀ record ∈ m.answers, ∃ s' ∈ r'.services, some record ∈
      r'.serviceAnswers (serviceProbeParameter (s.buildDomain true)) s' := by
    intro record member
    have mapped := List.mem_map_of_mem (f := some) member
    rw [← answers] at mapped
    obtain ⟨s, before, written⟩ := List.mem_flatMap.1 mapped
    exact ⟨s, List.mem_reverse.1 before, written⟩
  have written : r'.writeAnswerSRV { s with replyMask := ⟨false, true, false, true⟩ }
      (serviceProbeParameter (s.buildDomain true)) ∈ m.answers.map some := by
    rw [← answers]
    refine List.mem_append_right _ (List.mem_flatMap.2 ⟨_, List.mem_reverse.2 member, ?_⟩)
    simp only [serviceAnswers, List.mem_append]
    exact Or.inl (Or.inr List.mem_cons_self)
  obtain ⟨record, answer, same⟩ := List.mem_map.1 written
  cases host : r'.hostDomain with
  | none => simp [writeAnswerSRV, host] at same
  | some target =>
    refine ⟨target, domain.symm.trans host, questions, ?_, ?_, record, answer, ?_⟩
    · intro record member
      obtain ⟨s, _, written⟩ := listed record member
      exact (mem_serviceAnswers (Or.inl written)).1
    · intro record member priority weight port srvDomain is
      have named : r'.hostDomain = some srvDomain := by
        rcases List.mem_append.1 member with answer | more
        · obtain ⟨s, _, written⟩ := listed record answer
          exact (mem_serviceAnswers (Or.inl written)).2 priority weight port srvDomain is
        · have mapped := List.mem_map_of_mem (f := some) more
          rw [← additional] at mapped
          rcases List.mem_append.1 mapped with of | address
          · obtain ⟨s, before, written⟩ := List.mem_flatMap.1 of
            exact (mem_serviceAnswers (Or.inr written)).2 priority weight port srvDomain is
          · have a := (mem_keep_iff.1 address).2
            simp only [writeAnswerA, host, Option.map_some, Option.some.injEq] at a
            rw [a] at is
            exact absurd is (by simp)
      exact (Option.some.inj (host.symm.trans named)).symm
    · simp only [writeAnswerSRV, host, Option.map_some, Option.some.injEq] at same
      rw [same]
      exact ⟨rfl, _, rfl⟩

/-! ## The name of a host -/

/-- No tiebreak of the host is open, and so many were cancelled. -/
def Quiet (count : Nat) (r : Responder) : Prop :=
  r.hostProbe.tiebreakNeeded = false ∧ cancellations .host r = count

theorem quiet_event {count : Nat} {r : Responder} {e : Event} (other : e ≠ .cancelled .host)
    (quiet : Quiet count r) : Quiet count (r.event e) :=
  ⟨quiet.1, (List.count_cons_of_ne other).trans quiet.2⟩

theorem closed_quiet (count : Nat) : Closed fun _ r => Quiet count r where
  oracles _ _ quiet := quiet
  hostNamed := fun {o r} name quiet => by
    refine ⟨?_, (List.count_cons_of_ne (by simp)).trans quiet.2⟩
    rw [renameHost]
    split
    · exact quiet.1
    · exact quiet.1
  serviceNamed _ _ _ _ quiet := quiet_event (by simp) quiet
  added _ _ _ quiet := ⟨quiet.1, (List.count_cons_of_ne (by simp)).trans quiet.2⟩
  hostTold _ quiet := quiet
  serviceTold _ _ quiet := quiet

theorem knownAnswerForService_quiet {count : Nat} {r : Responder} (record : ResourceRecord)
    (i : Nat) (quiet : Quiet count r) : Quiet count (knownAnswerForService record i r) := by
  rw [knownAnswerForService]
  refine withService_keeps (P := Quiet count) (fun s _ quiet => ?_) quiet
  rw [serviceTiebreak]
  split
  · split
    · split
      · exact quiet
      · split
        · exact (closed_quiet count).cancelProbingForService i s
            (quiet_event (r := r.event _) (by simp) (quiet_event (by simp) quiet))
        · exact quiet
    · exact quiet
  · exact quiet

theorem parseRecord_quiet {count : Nat} {r : Responder} (record : ResourceRecord)
    (p : SendParameter) (quiet : Quiet count r) : Quiet count (parseRecord record p r).2 := by
  rw [parseRecord]
  split
  · refine forServices_keeps (P := Quiet count)
      (fun i r quiet => knownAnswerForService_quiet record i quiet) ?_
    rw [hostTiebreak, if_neg (by rw [quiet.1]; decide)]
    exact quiet
  · exact quiet

theorem parseRecords_quiet {count : Nat} (n : Nat) :
    ∀ (records : List ResourceRecord) (p : SendParameter) {r : Responder}, Quiet count r →
      Quiet count (parseRecords n records p r).2.2 := by
  induction n with
  | zero => intro records p r quiet; exact quiet
  | succ n ih =>
    intro records p r quiet
    cases records with
    | nil => exact quiet
    | cons record records => exact ih records _ (parseRecord_quiet record p quiet)

/-- Behind the records of a query that is not given up in its questions, nothing is cancelled. -/
theorem parseQuery_cancellations {q : Query} {r : Responder} (owner : Owner)
    (accepted : q.remotePort = mqueryPort) (asked : q.questionCount = q.questions.length) :
    cancellations owner (r.parseQuery q).2 =
      cancellations owner (parseRecords q.recordCount q.records
        (parseQuestions q q.questionCount q.questions .new r).2.1
        (parseQuestions q q.questionCount q.questions .new r).2.2).2.2 := by
  have questions := parseQuestions_complete (r := r) q.questionCount q.questions .new (q := q)
    (Nat.le_of_eq asked) (Or.inl accepted)
  rw [parseQuery]
  simp only [questions, if_true]
  split
  · exact replyTo_cancellations owner _ _
  · rfl

/-- The question of a probe is for everything, and of the class IN. -/
theorem readRRQuestion_probe (domain : RRDomain) (unicast : Bool) :
    readRRQuestion (probeQuestion domain unicast) = ⟨⟨domain, typeANY, classIN⟩, true⟩ := by
  have class' : ((0x8000 : UInt16) ||| classIN) &&& 0x7fff = classIN := by decide
  have flag : ((0x8000 : UInt16) ||| classIN) &&& 0x8000 ≠ 0 := by decide
  simp only [readRRQuestion, probeQuestion, class', flag, decide_true, ne_eq, not_false_eq_true]

/-- What a probe's question does. -/
def questioned (domain : RRDomain) (r : Responder) : Responder :=
  (r.hostTiebreakNeed ⟨⟨domain, typeANY, classIN⟩, true⟩).planServices
    ⟨⟨domain, typeANY, classIN⟩, true⟩

theorem parseQuery_probe {m : Message} {domain : RRDomain} {unicast : Bool}
    (question : m.questions = [probeQuestion domain unicast]) (remoteAddress : UInt32)
    (r : Responder) : ∃ p, ∀ owner,
      cancellations owner (r.parseQuery (received remoteAddress m)).2 =
        cancellations owner (parseRecords (m.answers ++ m.additional).length
          ((m.answers ++ m.additional).takeWhile readable) p (r.questioned domain)).2.2 := by
  have counted := fun owner => parseQuery_cancellations (q := received remoteAddress m) (r := r)
    owner rfl (List.length_map _).symm
  refine ⟨(parseQuestions (received remoteAddress m) (received remoteAddress m).questionCount
    (received remoteAddress m).questions .new r).2.1,
    fun owner => (counted owner).trans ?_⟩
  have next : (parseQuestions (received remoteAddress m) (received remoteAddress m).questionCount
      (received remoteAddress m).questions .new r).2.2 = r.questioned domain := by
    have questions : (received remoteAddress m).questions =
        [⟨⟨domain, typeANY, classIN⟩, true⟩] := by
      rw [received, question, List.map_singleton, readRRQuestion_probe]
    have count : (received remoteAddress m).questionCount = 1 := by rw [received, question]; rfl
    rw [count, questions, parseQuestions]
    simp only
    split
    · rfl
    · rfl
  rw [next]
  rfl

theorem cancellations_questioned (owner : Owner) (domain : RRDomain) (r : Responder) :
    cancellations owner (r.questioned domain) = cancellations owner r := rfl

/-- A probe for one's own host name opens the tiebreak. -/
theorem questioned_needed {r : Responder} {domain host : RRDomain}
    (probing : r.hostProbe.probingStatus = .inProgress) (own : r.hostDomain = some host)
    (same : domain.compare host = true) :
    (r.questioned domain).hostProbe.tiebreakNeeded = true := by
  have mask : r.replyMaskForHost ⟨domain, typeANY, classIN⟩ =
      (⟨true, domain.compare (buildDomainForReverseIP4 r.ipAddress)⟩, true) := by
    rw [replyMaskForHost, if_pos (Or.inl rfl), own]
    simp only [same, decide_true, Bool.true_and, or_true]
  change (r.hostTiebreakNeed ⟨⟨domain, typeANY, classIN⟩, true⟩).hostProbe.tiebreakNeeded = true
  rw [hostTiebreakNeed, mask]
  simp only [probing, decide_true, HostReplyMask.any, Bool.true_or, Bool.and_self, Bool.or_true]

/-- Of a probe for one's own host name, the address decides. -/
theorem hostProbe_decides {a b : Responder} {m : Message} {hostA hostB : RRDomain}
    (sent : a.sendHostProbe.1 = some m) (remoteAddress : UInt32)
    (probing : b.hostProbe.probingStatus = .inProgress) (nameA : a.hostDomain = some hostA)
    (nameB : b.hostDomain = some hostB) (same : hostA.compare hostB = true) :
    cancellations .host b < cancellations .host (b.parseQuery (received remoteAddress m)).2 ↔
      b.ipAddress < a.ipAddress := by
  obtain ⟨host, rest, name, questions, answers⟩ := hostProbe_sent sent
  obtain rfl := Option.some.inj (nameA.symm.trans name)
  obtain ⟨p, counted⟩ := parseQuery_probe questions remoteAddress b
  rw [counted .host]
  have needed := questioned_needed probing nameB same
  set address : ResourceRecord := ⟨⟨hostA, typeA, classIN⟩, hostTTL, .a a.ipAddress⟩ with defined
  by_cases nobody : a.ipAddress = 0
  · have unread : (m.answers ++ m.additional).takeWhile readable = [] := by
      rw [answers, List.cons_append, List.takeWhile_cons_of_neg]
      rw [defined, readable, nobody]
      simp
    rw [unread, answers, List.cons_append, List.length_cons, parseRecords, nobody]
    simp only [cancellations_questioned, lt_self_iff_false, false_iff]
    exact Nat.not_lt_zero _
  · have read : (m.answers ++ m.additional).takeWhile readable =
        address :: (rest ++ m.additional).takeWhile readable := by
      rw [answers, List.cons_append, List.takeWhile_cons_of_pos]
      rw [defined, readable, decide_eq_true_eq]
      exact fun same => nobody (RData.a.inj same)
    rw [read, answers, List.cons_append, List.length_cons, parseRecords]
    simp only
    have first : (parseRecord address p (b.questioned hostA)).2 =
        ((b.questioned hostA).hostTiebreak address).forServices
          (knownAnswerForService address) := by
      have type : typeA ≠ typeANY := by decide
      have class' : classIN ≠ classANY := by decide
      rw [parseRecord, if_pos ⟨type, class'⟩]
    have own : (b.questioned hostA).hostDomain = some hostB := nameB
    have ip : (b.questioned hostA).ipAddress = b.ipAddress := rfl
    have decision : (b.questioned hostA).hostTiebreak address =
        if a.ipAddress ≠ b.ipAddress ∧ b.ipAddress < a.ipAddress then
          ((b.questioned hostA).event (.lost .host)).cancelProbingForHost.resolveHost
        else (b.questioned hostA).resolveHost := by
      rw [hostTiebreak, if_pos needed, own, ip]
      simp only [defined, same, if_true]
    constructor
    · intro more
      by_contra won
      rw [if_neg (fun lost => won lost.2)] at decision
      have quiet : Quiet (cancellations .host b)
          (parseRecord address p (b.questioned hostA)).2 := by
        rw [first, decision]
        exact forServices_keeps (P := Quiet _)
          (fun i r quiet => knownAnswerForService_quiet address i quiet) ⟨rfl, rfl⟩
      have stays := parseRecords_quiet (rest ++ m.additional).length
        ((rest ++ m.additional).takeWhile readable)
        (parseRecord address p (b.questioned hostA)).1 quiet
      exact absurd more (by rw [stays.2]; exact Nat.lt_irrefl _)
    · intro lower
      have differ : a.ipAddress ≠ b.ipAddress := fun same => by
        rw [same] at lower
        exact absurd lower (UInt32.lt_irrefl _)
      rw [if_pos ⟨differ, lower⟩] at decision
      have log : Event.cancelled .host :: Event.lost .host :: b.log <:+
          (parseRecord address p (b.questioned hostA)).2.log := by
        rw [first, decision]
        refine forServices_keeps
          (P := fun r => Event.cancelled .host :: Event.lost .host :: b.log <:+ r.log)
          (fun i r grown => knownAnswerForService_log address i grown) ?_
        exact cancelProbingForHost_log ((b.questioned hostA).event (.lost .host))
      have stays := parseRecords_log (rest ++ m.additional).length
        ((rest ++ m.additional).takeWhile readable)
        (parseRecord address p (b.questioned hostA)).1 log
      have counted := stays.sublist.count_le (.cancelled .host)
      refine lt_of_lt_of_le ?_ counted
      rw [List.count_cons_self, List.count_cons_of_ne (by simp)]
      exact Nat.lt_succ_self _

/-! ## The name of a service -/

/-- Whether a service waits for a tiebreak. -/
def needed (k : Nat) (r : Responder) : Option Bool :=
  (r.services[k]?).map fun s => s.probe.tiebreakNeeded

/-- Nothing is decided yet: the names are those of before, and the services that wait for a
tiebreak have the one that is probed. -/
structure Waiting (before : Responder) (domain : RRDomain) (r : Responder) : Prop where
  hostname : r.hostname = before.hostname
  host : r.hostProbe.tiebreakNeeded = false
  log : r.log = before.log
  names : ∀ k : Nat, (r.services[k]?).map (fun s => s.buildDomain true) =
    (before.services[k]?).map fun s => s.buildDomain true
  named : ∀ (k : Nat) (s : Service), r.services[k]? = some s → s.probe.tiebreakNeeded = true →
    domain.compare (s.buildDomain true) = true

/-- A service of the name that is probed has given up. -/
def GivesUp (before : Responder) (domain : RRDomain) (r : Responder) : Prop :=
  ∃ (k : Nat) (s : Service), before.services[k]? = some s ∧
    domain.compare (s.buildDomain true) = true ∧
    cancellations (.service k) before < cancellations (.service k) r

/-- The record that decides. -/
def Decisive (domain : RRDomain) (record : ResourceRecord) : Prop :=
  domain.compare record.header.domain = true ∧
    ∃ priority weight port srvDomain, record.rdata = .srv priority weight port srvDomain

theorem GivesUp.mono {before : Responder} {domain : RRDomain} {r r' : Responder}
    (grown : r.log <:+ r'.log) (givesUp : GivesUp before domain r) :
    GivesUp before domain r' := by
  obtain ⟨k, s, found, same, more⟩ := givesUp
  exact ⟨k, s, found, same, lt_of_lt_of_le more (cancellations_mono grown)⟩

/-- A known answer only takes from the reply mask. -/
theorem knownServiceAnswer_same (r : Responder) (record : ResourceRecord) (s : Service) :
    (r.knownServiceAnswer record s).probe = s.probe ∧
      (r.knownServiceAnswer record s).buildDomain true = s.buildDomain true := by
  rw [knownServiceAnswer]
  dsimp only
  split
  · cases record.rdata with
    | ptr ptrDomain => exact ⟨rfl, rfl⟩
    | srv priority weight port srvDomain => dsimp only; split <;> exact ⟨rfl, rfl⟩
    | txt txts => dsimp only; split <;> exact ⟨rfl, rfl⟩
    | a ipAddress => exact ⟨rfl, rfl⟩
    | generic data => exact ⟨rfl, rfl⟩
  · exact ⟨rfl, rfl⟩

theorem waiting_known {before r : Responder} {domain : RRDomain} (record : ResourceRecord)
    (i : Nat) (waiting : Waiting before domain r) :
    Waiting before domain (r.modifyService i (knownServiceAnswer r record)) ∧
      ∀ k, needed k (r.modifyService i (knownServiceAnswer r record)) = needed k r := by
  have domains : ∀ k : Nat, ((r.modifyService i (knownServiceAnswer r record)).services[k]?).map
      (fun s => s.buildDomain true) = (r.services[k]?).map fun s => s.buildDomain true := by
    intro k
    rw [getElem?_modifyService]
    split
    · rw [Option.map_map]
      congr 1
      exact funext fun s => (knownServiceAnswer_same r record s).2
    · rfl
  have flags : ∀ k, needed k (r.modifyService i (knownServiceAnswer r record)) = needed k r := by
    intro k
    rw [needed, needed, getElem?_modifyService]
    split
    · rw [Option.map_map]
      congr 1
      exact funext fun s => by
        rw [Function.comp_apply, (knownServiceAnswer_same r record s).1]
    · rfl
  refine ⟨⟨waiting.hostname, waiting.host, waiting.log, fun k => (domains k).trans
    (waiting.names k), fun k s found flag => ?_⟩, flags⟩
  rw [getElem?_modifyService] at found
  split at found
  · obtain ⟨s', before', rfl⟩ := Option.map_eq_some_iff.1 found
    obtain ⟨probe, name⟩ := knownServiceAnswer_same r record s'
    rw [probe] at flag
    rw [name]
    exact waiting.named k s' before' flag
  · exact waiting.named k s found flag

variable {before : Responder} {domain target : RRDomain}

/-- The target of the other's records is no name of this host. -/
def Foreign (before : Responder) (target : RRDomain) : Prop :=
  before.isTarget target = false ∧ target.compare (before.hostDomain.getD .cleared) = false

/-- A service that waits for the tiebreak gives up at the record that decides. -/
theorem visit {r : Responder} (foreign : Foreign before target) {record : ResourceRecord}
    (targets : ∀ priority weight port srvDomain,
      record.rdata = .srv priority weight port srvDomain → srvDomain = target) (i : Nat)
    (waiting : Waiting before domain r) :
    GivesUp before domain (knownAnswerForService record i r) ∨
      (Waiting before domain (knownAnswerForService record i r) ∧
        (∀ k, needed k (knownAnswerForService record i r) = needed k r) ∧
        (Decisive domain record → needed i r ≠ some true)) := by
  obtain ⟨known, flags⟩ := waiting_known record i waiting
  rw [knownAnswerForService]
  generalize r.modifyService i (knownServiceAnswer r record) = r' at known flags
  have hostDomain : r'.hostDomain = before.hostDomain := by
    rw [hostDomain, known.hostname]
    rfl
  have isTarget : r'.isTarget = before.isTarget := by
    funext domain
    rw [Responder.isTarget, hostDomain]
    rfl
  rw [withService, ← flags i, needed]
  cases found : r'.services[i]? with
  | none => exact Or.inr ⟨known, flags, fun _ => by simp⟩
  | some s =>
    have name := known.names i
    rw [found] at name
    obtain ⟨s', original, same⟩ := Option.map_eq_some_iff.1 name.symm
    dsimp only [serviceTiebreak]
    split
    · rename_i tie
      have own := known.named i s found tie.1
      cases rdata : record.rdata with
      | srv priority weight port srvDomain =>
        obtain rfl := targets priority weight port srvDomain rdata
        left
        refine ⟨i, s', original, by rw [same]; exact own, ?_⟩
        have cancelled := cancelProbingForService_log i s (r'.event (.lost (.service i)))
        have gone : cancellations (.service i) before <
            cancellations (.service i)
              ((r'.event (.lost (.service i))).cancelProbingForService i s).2 := by
          refine lt_of_lt_of_le ?_ (cancelled.sublist.count_le _)
          rw [List.count_cons_self, event, List.count_cons_of_ne (by simp), known.log]
          exact Nat.lt_succ_self _
        simp only [isTarget, foreign.1, hostDomain, RRDomain.greater, foreign.2, Bool.not_false,
          if_true, Bool.false_eq_true, if_false]
        exact gone
      | a ipAddress =>
        exact Or.inr ⟨known, flags, fun decisive => by simp [Decisive, rdata] at decisive⟩
      | ptr ptrDomain =>
        exact Or.inr ⟨known, flags, fun decisive => by simp [Decisive, rdata] at decisive⟩
      | txt txts =>
        exact Or.inr ⟨known, flags, fun decisive => by simp [Decisive, rdata] at decisive⟩
      | generic data =>
        exact Or.inr ⟨known, flags, fun decisive => by simp [Decisive, rdata] at decisive⟩
    · rename_i untied
      refine Or.inr ⟨known, flags, fun decisive flag => untied ⟨Option.some.inj flag, ?_⟩⟩
      have own := known.named i s found (Option.some.inj flag)
      exact RRDomain.compare_trans (RRDomain.compare_symm decisive.1) own

/-- The services that were visited do not wait for the record. -/
theorem visitAll {r : Responder} (foreign : Foreign before target) {record : ResourceRecord}
    (targets : ∀ priority weight port srvDomain,
      record.rdata = .srv priority weight port srvDomain → srvDomain = target)
    (waiting : Waiting before domain r) (services : List Nat) :
    GivesUp before domain (services.foldr (knownAnswerForService record) r) ∨
      (Waiting before domain (services.foldr (knownAnswerForService record) r) ∧
        (∀ k, needed k (services.foldr (knownAnswerForService record) r) = needed k r) ∧
        (Decisive domain record → ∀ i ∈ services, needed i r ≠ some true)) := by
  induction services with
  | nil => exact Or.inr ⟨waiting, fun _ => rfl, fun _ i member => absurd member List.not_mem_nil⟩
  | cons i rest ih =>
    rcases ih with givesUp | ⟨waits, flags, decided⟩
    · exact Or.inl (givesUp.mono (knownAnswerForService_log record i List.suffix_rfl))
    · rcases visit foreign targets i waits with givesUp | ⟨stays, same, here⟩
      · exact Or.inl givesUp
      · refine Or.inr ⟨stays, fun k => (same k).trans (flags k), fun decisive k member => ?_⟩
        rcases List.mem_cons.1 member with rfl | later
        · rw [← flags k]
          exact here decisive
        · exact decided decisive k later

theorem needed_lt {k : Nat} {r : Responder} (flag : needed k r = some true) :
    k < r.services.length := by
  obtain ⟨s, found, -⟩ := Option.map_eq_some_iff.1 flag
  exact (List.getElem?_eq_some_iff.1 found).1

/-- One record of a probe. -/
theorem parseRecord_waiting {r : Responder} (foreign : Foreign before target)
    {record : ResourceRecord} (targets : ∀ priority weight port srvDomain,
      record.rdata = .srv priority weight port srvDomain → srvDomain = target)
    (waiting : Waiting before domain r) (p : SendParameter) {k : Nat}
    (flag : needed k r = some true) :
    GivesUp before domain (parseRecord record p r).2 ∨
      (Waiting before domain (parseRecord record p r).2 ∧
        needed k (parseRecord record p r).2 = some true ∧
        (record.header.type ≠ typeANY → record.header.class' ≠ classANY →
          ¬Decisive domain record)) := by
  rw [parseRecord]
  split
  · have host : r.hostTiebreak record = r := by
      rw [hostTiebreak, if_neg (by rw [waiting.host]; decide)]
    rw [host, forServices]
    rcases visitAll foreign targets waiting (List.range r.services.length) with
      givesUp | ⟨waits, flags, decided⟩
    · exact Or.inl givesUp
    · refine Or.inr ⟨waits, (flags k).trans flag, fun _ _ decisive => ?_⟩
      exact decided decisive k (List.mem_range.2 (needed_lt flag)) flag
  · rename_i skipped
    exact Or.inr ⟨waiting, flag, fun type class' => absurd ⟨type, class'⟩ skipped⟩

theorem parseRecords_givesUp (foreign : Foreign before target) {k : Nat} (count : Nat) :
    ∀ (records : List ResourceRecord) (p : SendParameter) {r : Responder},
      records.length ≤ count →
      (∀ record ∈ records, ∀ priority weight port srvDomain,
        record.rdata = .srv priority weight port srvDomain → srvDomain = target) →
      (∃ record ∈ records, record.header.type ≠ typeANY ∧ record.header.class' ≠ classANY ∧
        Decisive domain record) →
      Waiting before domain r → needed k r = some true →
      GivesUp before domain (parseRecords count records p r).2.2 := by
  induction count with
  | zero =>
    intro records p r enough _ decisive _ _
    obtain ⟨record, member, _⟩ := decisive
    rw [List.eq_nil_of_length_eq_zero (Nat.le_zero.1 enough)] at member
    exact absurd member List.not_mem_nil
  | succ count ih =>
    intro records p r enough targets decisive waiting flag
    cases records with
    | nil =>
      obtain ⟨record, member, _⟩ := decisive
      exact absurd member List.not_mem_nil
    | cons record records =>
      rw [parseRecords]
      rcases parseRecord_waiting foreign (targets record List.mem_cons_self) waiting p flag with
        givesUp | ⟨waits, flag, undecided⟩
      · exact givesUp.mono (parseRecords_log count records _ List.suffix_rfl)
      · obtain ⟨other, member, type, class', decides⟩ := decisive
        rcases List.mem_cons.1 member with rfl | later
        · exact absurd decides (undecided type class')
        · exact ih records _ (Nat.le_of_succ_le_succ enough)
            (fun record member => targets record (List.mem_cons_of_mem _ member))
            ⟨other, later, type, class', decides⟩ waits flag

theorem buildDomainForHost_named {hostname : Option Hostname} {host : RRDomain}
    (built : buildDomainForHost hostname = some host) :
    ∃ label, host = .named [label, scpcLocal] := by
  cases hostname with
  | none => exact absurd built (by simp [buildDomainForHost])
  | some hostname =>
    rw [buildDomainForHost] at built
    split at built
    · exact ⟨_, (Option.some.inj built).symm⟩
    · exact absurd built (by simp)

theorem buildDomain_named {s : Service} (named : s.buildDomain true ≠ .cleared) :
    ∃ name service protocol, s.buildDomain true = .named [name, service, protocol, scpcLocal] := by
  cases service : underlined s.service with
  | none => simp [Service.buildDomain, service] at named
  | some service' =>
    cases protocol : underlined s.protocol with
    | none => simp [Service.buildDomain, service, protocol] at named
    | some protocol' =>
      cases name : s.name with
      | none => simp [Service.buildDomain, service, protocol, name] at named
      | some name' =>
        exact ⟨name', service', protocol', by simp [Service.buildDomain, service, protocol, name]⟩

/-- The name of a host is not that of a service. -/
theorem compare_host {hostname : Option Hostname} {host : RRDomain} {s : Service}
    (built : buildDomainForHost hostname = some host) (named : s.buildDomain true ≠ .cleared) :
    (s.buildDomain true).compare host = false := by
  obtain ⟨label, rfl⟩ := buildDomainForHost_named built
  obtain ⟨name, service, protocol, instance'⟩ := buildDomain_named named
  rw [instance', Bool.eq_false_iff]
  intro same
  have keys := Option.some.inj ((RRDomain.compare_iff _ _).1 same)
  have lengths := congrArg List.length keys
  simp at lengths

theorem waiting_questioned {b : Responder} {s : Service} {host : RRDomain}
    (own : b.hostDomain = some host) (named : s.buildDomain true ≠ .cleared) (untied : b.Untied) :
    Waiting b (s.buildDomain true) (b.questioned (s.buildDomain true)) := by
  refine ⟨rfl, ?_, rfl, fun k => ?_, fun k t found flag => ?_⟩
  · have other := compare_host own named
    change (b.hostTiebreakNeed
      ⟨⟨s.buildDomain true, typeANY, classIN⟩, true⟩).hostProbe.tiebreakNeeded = false
    simp only [hostTiebreakNeed, replyMaskForHost, own, other, untied.1, Bool.false_or]
    split <;> simp
  · change ((b.services.map _)[k]?).map _ = _
    rw [List.getElem?_map, Option.map_map]
    rfl
  · change (b.services.map _)[k]? = some t at found
    rw [List.getElem?_map] at found
    obtain ⟨t', before, rfl⟩ := Option.map_eq_some_iff.1 found
    have tied := untied.2 t' (List.mem_iff_getElem?.2 ⟨k, before⟩)
    simp only [planService, tied, Bool.false_or, Bool.and_eq_true] at flag
    have full := flag.2
    rw [Service.replyMask?, if_pos (Or.inl rfl)] at full
    exact full

theorem needed_questioned {b : Responder} {domain : RRDomain} {j : Nat} {t : Service}
    (found : b.services[j]? = some t) (probing : t.probe.probingStatus = .inProgress)
    (same : domain.compare (t.buildDomain true) = true) :
    needed j (b.questioned domain) = some true := by
  have mask : t.replyMask? ⟨domain, typeANY, classIN⟩ =
      (⟨domain.compare buildDomainForDNSSD, domain.compare (t.buildDomain false), true, true⟩,
        true) := by
    rw [Service.replyMask?, if_pos (Or.inl rfl)]
    simp only [same, decide_true, Bool.and_true, or_true]
  rw [needed]
  change ((b.services.map _)[j]?).map _ = _
  rw [List.getElem?_map, found]
  simp only [Option.map_some, planService, mask, probing, decide_true, ServiceReplyMask.any,
    Bool.or_true, Bool.and_self]

/-- Of a probe for the name of one's own service, a foreign host decides that one gives up. -/
theorem serviceProbe_givesUp {a b : Responder} {m : Message} {i j : Nat} {s t : Service}
    {hostA hostB : RRDomain} (foundA : a.services[i]? = some s)
    (sent : (a.sendServiceProbe i s).1 = some m) (remoteAddress : UInt32)
    (named : s.buildDomain true ≠ .cleared) (untied : b.Untied)
    (foundB : b.services[j]? = some t) (probing : t.probe.probingStatus = .inProgress)
    (same : (s.buildDomain true).compare (t.buildDomain true) = true)
    (nameA : a.hostDomain = some hostA) (nameB : b.hostDomain = some hostB)
    (different : hostA.compare hostB = false) :
    GivesUp b (s.buildDomain true) (b.parseQuery (received remoteAddress m)).2 := by
  obtain ⟨host, name, probe⟩ := serviceProbe_sent foundA sent
  obtain rfl := Option.some.inj (nameA.symm.trans name)
  obtain ⟨p, counted⟩ := parseQuery_probe probe.questions remoteAddress b
  have foreign : Foreign b hostA := by
    refine ⟨?_, by rw [nameB]; exact different⟩
    rw [isTarget, nameB, Bool.eq_false_iff]
    intro own
    exact absurd (RRDomain.compare_symm own) (by rw [different]; decide)
  have read : (m.answers ++ m.additional).takeWhile readable =
      m.answers ++ m.additional.takeWhile readable :=
    List.takeWhile_append_of_pos probe.readable
  obtain ⟨record, answer, header, port, srv⟩ := probe.srv
  have decisive : ∃ record ∈ (m.answers ++ m.additional).takeWhile readable,
      record.header.type ≠ typeANY ∧ record.header.class' ≠ classANY ∧
        Decisive (s.buildDomain true) record := by
    rw [read]
    refine ⟨record, List.mem_append_left _ answer, ?_, ?_, ?_, 0, 0, port, hostA, srv⟩
    · rw [header]
      exact (by decide : typeSRV ≠ typeANY)
    · rw [header]
      exact (by decide : classIN ≠ classANY)
    · rw [header]
      exact RRDomain.compare_refl _
  obtain ⟨k, t', found, own, more⟩ := parseRecords_givesUp foreign
    (m.answers ++ m.additional).length ((m.answers ++ m.additional).takeWhile readable) p
    (List.takeWhile_sublist _).length_le
    (fun record member => probe.targets record ((List.takeWhile_sublist _).subset member))
    decisive (waiting_questioned nameB named untied) (needed_questioned foundB probing same)
  exact ⟨k, t', found, own, by rw [counted]; exact more⟩

/-! ## Agreement -/

/-- A responder when it sends its probe, and when it reads the other's. -/
structure Side where
  sending : Responder
  reading : Responder
  hostname : reading.hostname = sending.hostname
  ipAddress : reading.ipAddress = sending.ipAddress
  untied : reading.Untied

/-- Two hosts probe for one name, with these probes. -/
structure HostContest (a b : Side) (probeA probeB : Message) : Prop where
  sentA : a.sending.sendHostProbe.1 = some probeA
  sentB : b.sending.sendHostProbe.1 = some probeB
  probingA : a.reading.hostProbe.probingStatus = .inProgress
  probingB : b.reading.hostProbe.probingStatus = .inProgress
  same : ∃ hostA hostB, a.sending.hostDomain = some hostA ∧ b.sending.hostDomain = some hostB ∧
    hostA.compare hostB = true

/-- A service is still probed for when the other's probe is read. -/
def StillProbed (side : Side) (i : Nat) (s : Service) : Prop :=
  ∃ s', side.reading.services[i]? = some s' ∧ s'.buildDomain true = s.buildDomain true ∧
    s'.probe.probingStatus = .inProgress

/-- Two hosts of different names probe for one name of a service, with these probes. -/
structure ServiceContest (a b : Side) (i j : Nat) (s t : Service) (probeA probeB : Message) :
    Prop where
  foundA : a.sending.services[i]? = some s
  foundB : b.sending.services[j]? = some t
  sentA : (a.sending.sendServiceProbe i s).1 = some probeA
  sentB : (b.sending.sendServiceProbe j t).1 = some probeB
  probingA : StillProbed a i s
  probingB : StillProbed b j t
  named : s.buildDomain true ≠ .cleared
  same : (s.buildDomain true).compare (t.buildDomain true) = true
  different : ∃ hostA hostB, a.sending.hostDomain = some hostA ∧
    b.sending.hostDomain = some hostB ∧ hostA.compare hostB = false

/-- One's own probing for the host is cancelled by the other's probe. -/
def HostCancelled (side other : Side) (probe : Message) : Prop :=
  cancellations .host side.reading <
    cancellations .host (side.reading.parseQuery (received other.sending.ipAddress probe)).2

/-- One's own probing for a service of this name is cancelled by the other's probe. -/
def ServiceCancelled (side other : Side) (domain : RRDomain) (probe : Message) : Prop :=
  GivesUp side.reading domain
    (side.reading.parseQuery (received other.sending.ipAddress probe)).2

/-- Exactly one of the two gives up. -/
def Agreement (a b : Side) : Prop :=
  (∀ probeA probeB, HostContest a b probeA probeB →
    Xor (HostCancelled a b probeB) (HostCancelled b a probeA)) ∧
  ∀ i j s t probeA probeB, ServiceContest a b i j s t probeA probeB →
    Xor (ServiceCancelled a b (s.buildDomain true) probeB)
      (ServiceCancelled b a (s.buildDomain true) probeA)

/-- Of two hosts that probe for one name, the one with the lower address gives up. -/
theorem host_agreement {a b : Side} {probeA probeB : Message}
    (different : a.sending.ipAddress ≠ b.sending.ipAddress)
    (contest : HostContest a b probeA probeB) :
    Xor (HostCancelled a b probeB) (HostCancelled b a probeA) := by
  obtain ⟨hostA, hostB, nameA, nameB, same⟩ := contest.same
  have readingA : a.reading.hostDomain = some hostA := by
    rw [← nameA, hostDomain, hostDomain, a.hostname]
  have readingB : b.reading.hostDomain = some hostB := by
    rw [← nameB, hostDomain, hostDomain, b.hostname]
  have decidesA := hostProbe_decides contest.sentB b.sending.ipAddress contest.probingA nameB
    readingA (RRDomain.compare_symm same)
  have decidesB := hostProbe_decides contest.sentA a.sending.ipAddress contest.probingB nameA
    readingB same
  rw [a.ipAddress] at decidesA
  rw [b.ipAddress] at decidesB
  rw [HostCancelled, HostCancelled, decidesA, decidesB]
  rcases UInt32.lt_or_lt_of_ne different with lower | lower
  · exact Or.inl ⟨lower, UInt32.lt_asymm lower⟩
  · exact Or.inr ⟨lower, UInt32.lt_asymm lower⟩

/-- Of two hosts that probe for one name of a service, both give up. -/
theorem service_contest {a b : Side} {i j : Nat} {s t : Service} {probeA probeB : Message}
    (contest : ServiceContest a b i j s t probeA probeB) :
    ServiceCancelled a b (s.buildDomain true) probeB ∧
      ServiceCancelled b a (s.buildDomain true) probeA := by
  obtain ⟨s', nowA, nameS, probingA⟩ := contest.probingA
  obtain ⟨t', nowB, nameT, probingB⟩ := contest.probingB
  obtain ⟨hostA, hostB, nameA, nameB, different⟩ := contest.different
  have readingA : a.reading.hostDomain = some hostA := by
    rw [← nameA, hostDomain, hostDomain, a.hostname]
  have readingB : b.reading.hostDomain = some hostB := by
    rw [← nameB, hostDomain, hostDomain, b.hostname]
  have same := contest.same
  have namedT : t.buildDomain true ≠ .cleared := by
    intro cleared
    rw [cleared] at same
    obtain ⟨name, service, protocol, instance'⟩ := buildDomain_named contest.named
    rw [instance'] at same
    exact absurd ((RRDomain.compare_iff _ _).1 same) (by simp [RRDomain.key])
  have different' : hostB.compare hostA = false := by
    rw [Bool.eq_false_iff]
    intro own
    exact absurd (RRDomain.compare_symm own) (by rw [different]; decide)
  have givesUpB := serviceProbe_givesUp contest.foundA contest.sentA a.sending.ipAddress
    contest.named b.untied nowB probingB (by rw [nameT]; exact same) nameA readingB different
  obtain ⟨k, u, found, own, more⟩ := serviceProbe_givesUp contest.foundB contest.sentB
    b.sending.ipAddress namedT a.untied nowA probingA
    (by rw [nameS]; exact RRDomain.compare_symm same) nameB readingA different'
  exact ⟨⟨k, u, found, RRDomain.compare_trans same own, more⟩, givesUpB⟩

/-- The responders agree exactly if no name of a service is contested. -/
theorem agreement_iff (a b : Side) (different : a.sending.ipAddress ≠ b.sending.ipAddress) :
    Agreement a b ↔ ∀ i j s t probeA probeB, ¬ServiceContest a b i j s t probeA probeB := by
  constructor
  · intro agreement i j s t probeA probeB contest
    obtain ⟨cancelledA, cancelledB⟩ := service_contest contest
    rcases agreement.2 i j s t probeA probeB contest with one | one
    · exact one.2 cancelledB
    · exact one.2 cancelledA
  · intro uncontested
    refine ⟨fun probeA probeB contest => host_agreement different contest, ?_⟩
    exact fun i j s t probeA probeB contest => absurd contest (uncontested i j s t probeA probeB)

/-- web._http._tcp.local, for which the first probe was sent. -/
def probedService : Service :=
  let s := allocService [0x77, 0x65, 0x62] false [0x68, 0x74, 0x74, 0x70] [0x74, 0x63, 0x70] 80
  { s with probe := { s.probe with probingStatus := .inProgress, sentCount := 1 } }

/-- A host that probes for the service. -/
def contender (hostname : Hostname) (ipAddress : UInt32) : Responder where
  hostname := some hostname
  hostProbe := { ProbeInformation.new with probingStatus := .done }
  services := [probedService]
  passivModeEnabled := false
  ipAddress := ipAddress
  subnets := []
  sends := []
  sketch := []
  log := []

def contending (hostname : Hostname) (ipAddress : UInt32) : Side where
  sending := contender hostname ipAddress
  reading := contender hostname ipAddress
  hostname := rfl
  ipAddress := rfl
  untied := by
    refine ⟨rfl, fun s member => ?_⟩
    rw [List.mem_singleton.1 member]
    rfl

/-- The hosts esp.local and cam.local. -/
def espSide : Side := contending esp 0x0204a8c0
def camSide : Side := contending ⟨[0x63, 0x61, 0x6d], by decide⟩ 0x0304a8c0

/-- Both give up the name of the service. -/
theorem esp_and_cam_give_up : ∃ espProbe camProbe,
    ServiceContest espSide camSide 0 0 probedService probedService espProbe camProbe ∧
      ServiceCancelled espSide camSide (probedService.buildDomain true) camProbe ∧
      ServiceCancelled camSide espSide (probedService.buildDomain true) espProbe := by
  obtain ⟨espProbe, sentEsp⟩ : ∃ m, (espSide.sending.sendServiceProbe 0 probedService).1 = some m :=
    Option.isSome_iff_exists.1 (by decide)
  obtain ⟨camProbe, sentCam⟩ : ∃ m, (camSide.sending.sendServiceProbe 0 probedService).1 = some m :=
    Option.isSome_iff_exists.1 (by decide)
  have gone : ∀ {side other : Side} {m : Message},
      (other.sending.sendServiceProbe 0 probedService).1 = some m →
      side.reading.services[0]? = some probedService →
      cancellations (.service 0) side.reading < (((other.sending.sendServiceProbe 0
        probedService).1.map fun m => cancellations (.service 0) (side.reading.parseQuery
          (received other.sending.ipAddress m)).2).getD 0) →
      ServiceCancelled side other (probedService.buildDomain true) m := by
    intro side other m sent found more
    rw [sent] at more
    exact ⟨0, probedService, found, RRDomain.compare_refl _, more⟩
  refine ⟨espProbe, camProbe, ⟨rfl, rfl, sentEsp, sentCam, ⟨_, rfl, rfl, rfl⟩, ⟨_, rfl, rfl, rfl⟩,
    by decide, by decide, ?_⟩, gone sentCam rfl (by decide), gone sentEsp rfl (by decide)⟩
  exact ⟨_, _, rfl, rfl, by decide⟩

theorem agreement_iff_esp_cam : Agreement espSide camSide ↔
    ∀ i j s t probeA probeB, ¬ServiceContest espSide camSide i j s t probeA probeB :=
  agreement_iff espSide camSide (by decide)

end Responder
end Esp8266.Source.Mdns
