import Esp8266.Guarantees.MdnsReplies
import Esp8266.Guarantees.MdnsTermination
import Esp8266.Guarantees.MdnsTiebreak
import Mathlib.Algebra.BigOperators.Group.List.Basic
import Mathlib.Data.List.Nodup
import Mathlib.Data.List.Perm.Subperm

/-!
# Known answers

The answers of a reply are the records of the responder that the query asks for and does not list
itself, with the same data and at least half of the lifetime.
-/
set_option autoImplicit false

namespace Esp8266.Source.Mdns

/-! ## Items -/

namespace Txts

/-- What the responder keeps of a service: items with different keys, all with a value, that fit
into a record. -/
structure Listed (txts : Txts) : Prop where
  keys : (List.map Txt.key txts).Nodup
  valued : ∀ txt ∈ txts, txt.value ≠ none
  fits : (List.map (fun txt : Txt => 1 + txt.length) txts).sum < 2 ^ 16

theorem find_of_mem {txts : Txts} (keys : (List.map Txt.key txts).Nodup) {txt : Txt}
    (mem : txt ∈ txts) : txts.find txt.key = some txt := by
  induction txts with
  | nil => cases mem
  | cons first rest ih =>
    rw [List.map_cons, List.nodup_cons] at keys
    rw [find, List.find?_cons]
    rcases List.mem_cons.mp mem with rfl | mem
    · rw [decide_eq_true rfl]
    · have other : first.key ≠ txt.key := by
        intro same
        exact keys.1 (same ▸ List.mem_map_of_mem mem)
      rw [decide_eq_false other]
      exact ih keys.2 mem

/-- An item that is found with its value is found itself. -/
theorem covered_iff (txts other : Txts) :
    txts.covered other = true ↔
      ∀ txt ∈ txts, txt.value ≠ none ∧ other.find txt.key = some txt := by
  rw [covered, List.all_eq_true]
  refine forall₂_congr fun txt mem => ?_
  cases found : other.find txt.key with
  | none =>
    exact iff_of_false (by simp) fun both => Option.some_ne_none _ both.2.symm
  | some o =>
    have key : o.key = txt.key := by
      have same := List.find?_some found
      exact of_decide_eq_true same
    obtain ⟨okey, ovalue, okeyed⟩ := o
    obtain ⟨tkey, tvalue, tkeyed⟩ := txt
    obtain rfl : okey = tkey := key
    cases ovalue with
    | none => cases tvalue <;> simp
    | some ovalue =>
      cases tvalue with
      | none => simp
      | some tvalue => simp [eq_comm]

/-- Two lists of items are compared as what they hold. -/
theorem compare_iff {own other : Txts} (listed : own.Listed)
    (fits : (List.map (fun txt : Txt => 1 + txt.length) other).sum < 2 ^ 16) :
    own.compare other = true ↔ List.Perm own other := by
  rw [compare, Bool.and_eq_true, Bool.and_eq_true, decide_eq_true_eq, covered_iff, covered_iff,
    length, length, Nat.mod_eq_of_lt listed.fits, Nat.mod_eq_of_lt fits]
  constructor
  · rintro ⟨⟨sum, there⟩, back⟩
    have subset : own ⊆ other := fun txt mem => List.mem_of_find?_eq_some (there txt mem).2
    obtain ⟨part, same, sublist⟩ := List.subperm_of_subset (List.Nodup.of_map _ listed.keys) subset
    obtain ⟨rest, whole⟩ := sublist.exists_perm_append
    have total := (whole.map fun txt : Txt => 1 + txt.length).sum_eq
    rw [List.map_append, List.sum_append, (same.map fun txt : Txt => 1 + txt.length).sum_eq,
      ← sum] at total
    cases rest with
    | nil =>
      rw [List.append_nil] at whole
      exact same.symm.trans whole.symm
    | cons txt rest =>
      rw [List.map_cons, List.sum_cons] at total
      omega
  · intro perm
    have keys : (List.map Txt.key other).Nodup := (perm.map Txt.key).nodup_iff.mp listed.keys
    refine ⟨⟨(perm.map fun txt : Txt => 1 + txt.length).sum_eq, fun txt mem => ?_⟩,
      fun txt mem => ?_⟩
    · exact ⟨listed.valued txt mem, find_of_mem keys (perm.mem_iff.mp mem)⟩
    · have mem := perm.mem_iff.mpr mem
      exact ⟨listed.valued txt mem, find_of_mem listed.keys mem⟩

end Txts

/-! ## What is asked for, and what is known -/

/-- A question asks for a record. -/
def AskedBy (question : RRQuestion) (record : ResourceRecord) : Prop :=
  (question.header.class' = classIN ∨ question.header.class' = classANY) ∧
    (question.header.type = record.header.type ∨ question.header.type = typeANY) ∧
    question.header.domain.compare record.header.domain = true

/-- The data of two records are the same. -/
def SameData : RData → RData → Prop
  | .a ipAddress, .a ipAddress' => ipAddress = ipAddress'
  | .ptr ptrDomain, .ptr ptrDomain' => ptrDomain.compare ptrDomain' = true
  | .txt txts, .txt txts' => List.Perm txts txts'
  | .srv priority weight port srvDomain, .srv priority' weight' port' srvDomain' =>
    priority = priority' ∧ weight = weight' ∧ port = port' ∧
      srvDomain.compare srvDomain' = true
  | .generic data, .generic data' => data = data'
  | _, _ => False

/-- A record that a query lists makes another one needless. -/
def KnownBy (known record : ResourceRecord) : Prop :=
  known.header.class' = classIN ∧ known.header.type = record.header.type ∧
    known.header.domain.compare record.header.domain = true ∧
    SameData record.rdata known.rdata ∧ record.ttl / 2 ≤ known.ttl

/-! ## The records of the responder -/

inductive HostKind where
  | a | ptrIP4

inductive ServiceKind where
  | ptrType | ptrName | srv | txt

def HostReplyMask.bit (mask : HostReplyMask) : HostKind → Bool
  | .a => mask.a
  | .ptrIP4 => mask.ptrIP4

def ServiceReplyMask.bit (mask : ServiceReplyMask) : ServiceKind → Bool
  | .ptrType => mask.ptrType
  | .ptrName => mask.ptrName
  | .srv => mask.srv
  | .txt => mask.txt

/-- A reply is due if one bit is set. -/
theorem HostReplyMask.any_iff (mask : HostReplyMask) :
    mask.any = true ↔ ∃ kind, mask.bit kind = true := by
  rw [any, Bool.or_eq_true]
  constructor
  · rintro (a | ptrIP4)
    · exact ⟨.a, a⟩
    · exact ⟨.ptrIP4, ptrIP4⟩
  · rintro ⟨kind, set⟩
    cases kind with
    | a => exact .inl set
    | ptrIP4 => exact .inr set

theorem ServiceReplyMask.any_iff (mask : ServiceReplyMask) :
    mask.any = true ↔ ∃ kind, mask.bit kind = true := by
  rw [any, Bool.or_eq_true, Bool.or_eq_true, Bool.or_eq_true]
  constructor
  · rintro (((ptrType | ptrName) | txt) | srv)
    · exact ⟨.ptrType, ptrType⟩
    · exact ⟨.ptrName, ptrName⟩
    · exact ⟨.txt, txt⟩
    · exact ⟨.srv, srv⟩
  · rintro ⟨kind, set⟩
    cases kind with
    | ptrType => exact .inl (.inl (.inl set))
    | ptrName => exact .inl (.inl (.inr set))
    | txt => exact .inl (.inr set)
    | srv => exact .inr set

namespace Responder

/-- The query asks for the record. -/
def Query.Asks (q : Query) (record : ResourceRecord) : Prop :=
  ∃ question ∈ q.questions, AskedBy question record

/-- The query lists the record. -/
def Query.Knows (q : Query) (record : ResourceRecord) : Prop :=
  ∃ known ∈ q.records, KnownBy known record

variable (r : Responder) (host : RRDomain) (p : SendParameter)

/-- A record of the host. -/
def hostRecord : HostKind → ResourceRecord
  | .a => ⟨⟨host, typeA, flushClass p⟩, ttlFor p hostTTL, .a r.ipAddress⟩
  | .ptrIP4 => ⟨⟨buildDomainForReverseIP4 r.ipAddress, typePTR, flushClass p⟩, ttlFor p hostTTL,
      .ptr host⟩

/-- A record of a service. -/
def serviceRecord (s : Service) : ServiceKind → ResourceRecord
  | .ptrType => writeAnswerPTRType s p
  | .ptrName => writeAnswerPTRName s p
  | .srv => ⟨⟨s.buildDomain true, typeSRV, flushClass p⟩, ttlFor p serviceTTL, .srv 0 0 s.port host⟩
  | .txt => writeAnswerTXT s p

/-! ## A question -/

variable {r host p}

/-- The mask of a question for the host has the bits of the records that it asks for. -/
theorem replyMaskForHost_iff (named : r.hostDomain = some host) (question : RRQuestion)
    (kind : HostKind) :
    (r.replyMaskForHost question.header).1.bit kind = true ↔
      AskedBy question (hostRecord r host p kind) := by
  rw [replyMaskForHost, named]
  by_cases inClass : question.header.class' = classIN ∨ question.header.class' = classANY
  · rw [if_pos inClass]
    cases kind with
    | a =>
      simp [HostReplyMask.bit, AskedBy, hostRecord, inClass, and_comm]
    | ptrIP4 =>
      simp [HostReplyMask.bit, AskedBy, hostRecord, inClass]
  · rw [if_neg inClass]
    refine iff_of_false ?_ fun asked => inClass asked.1
    cases kind <;> decide

theorem replyMask_iff (s : Service) (question : RRQuestion) (kind : ServiceKind) :
    (s.replyMask? question.header).1.bit kind = true ↔
      AskedBy question (serviceRecord host p s kind) := by
  rw [Service.replyMask?]
  by_cases inClass : question.header.class' = classIN ∨ question.header.class' = classANY
  · rw [if_pos inClass]
    cases kind <;>
      simp [ServiceReplyMask.bit, AskedBy, serviceRecord, writeAnswerPTRType, writeAnswerPTRName,
        writeAnswerTXT, inClass, and_comm]
  · rw [if_neg inClass]
    refine iff_of_false ?_ fun asked => inClass asked.1
    cases kind <;> decide

/-! ## A known answer -/

/-- A record that is listed is one that a question with its header asks for. -/
theorem knownBy_iff {known : ResourceRecord}
    (plain : known.header.type ≠ typeANY ∧ known.header.class' ≠ classANY)
    (record : ResourceRecord) :
    KnownBy known record ↔ AskedBy ⟨known.header, false⟩ record ∧
      SameData record.rdata known.rdata ∧ record.ttl / 2 ≤ known.ttl := by
  rw [KnownBy, AskedBy, or_iff_left plain.2, or_iff_left plain.1, and_assoc, and_assoc]

theorem not_knownBy {known : ResourceRecord} {record : ResourceRecord}
    (typed : record.header.type ≠ typeANY)
    (any : ¬ (known.header.type ≠ typeANY ∧ known.header.class' ≠ classANY)) :
    ¬ KnownBy known record := by
  rintro ⟨inClass, type, -⟩
  refine any ⟨by rw [type]; exact typed, ?_⟩
  rw [inClass]
  decide

theorem knownServiceAnswer_iff (named : r.hostDomain = some host) (lasting : p.unannounce = false)
    {s : Service} (listed : s.txts.Listed) {known : ResourceRecord}
    (fits : ∀ txts, known.rdata = .txt txts →
      (List.map (fun txt : Txt => 1 + txt.length) txts).sum < 2 ^ 16)
    (plain : known.header.type ≠ typeANY ∧ known.header.class' ≠ classANY)
    (mask : ServiceReplyMask) (kind : ServiceKind) :
    (r.knownServiceAnswer known { s with replyMask := mask }).replyMask.bit kind = true ↔
      mask.bit kind = true ∧ ¬ KnownBy known (serviceRecord host p s kind) := by
  rw [knownBy_iff plain, ← replyMask_iff]
  have ttl : (serviceRecord host p s kind).ttl = serviceTTL := by
    cases kind <;> simp [serviceRecord, writeAnswerPTRType, writeAnswerPTRName, writeAnswerTXT,
      ttlFor, lasting]
  rw [ttl]
  have asks : ({ s with replyMask := mask } : Service).replyMask? known.header =
      s.replyMask? known.header := rfl
  rw [knownServiceAnswer, asks]
  dsimp only
  generalize (s.replyMask? known.header).1 = found
  by_cases long : serviceTTL / 2 ≤ known.ttl
  · by_cases any : (mask.inter found).any = true
    · rw [if_pos ⟨any, long⟩]
      cases data : known.rdata with
      | a ipAddress => cases kind <;> simp [serviceRecord, writeAnswerPTRType, writeAnswerPTRName,
          writeAnswerTXT, SameData]
      | generic bytes => cases kind <;> simp [serviceRecord, writeAnswerPTRType, writeAnswerPTRName,
          writeAnswerTXT, SameData]
      | ptr ptrDomain =>
        have domain : ∀ name, ({ s with replyMask := mask } : Service).buildDomain name =
            s.buildDomain name := fun _ => rfl
        cases kind with
        | ptrType =>
          cases wanted : mask.ptrType <;>
            simp [serviceRecord, writeAnswerPTRType, SameData, ServiceReplyMask.bit,
              ServiceReplyMask.inter, wanted, long, domain, Decidable.imp_iff_not_or]
        | ptrName =>
          cases wanted : mask.ptrName <;>
            simp [serviceRecord, writeAnswerPTRName, SameData, ServiceReplyMask.bit,
              ServiceReplyMask.inter, wanted, long, domain, Decidable.imp_iff_not_or]
        | srv => simp [serviceRecord, SameData, ServiceReplyMask.bit]
        | txt => simp [serviceRecord, writeAnswerTXT, SameData, ServiceReplyMask.bit]
      | srv priority weight port srvDomain =>
        have target : r.isTarget srvDomain = host.compare srvDomain := by rw [isTarget, named]
        dsimp only
        rw [target]
        by_cases same : (mask.inter found).srv = true ∧ host.compare srvDomain = true ∧
            priority = 0 ∧ weight = 0 ∧ s.port = port
        · rw [if_pos same]
          simp only [ServiceReplyMask.inter, Bool.and_eq_true] at same
          cases kind <;>
            simp [serviceRecord, writeAnswerPTRType, writeAnswerPTRName, writeAnswerTXT, SameData,
              ServiceReplyMask.bit, same, long]
        · rw [if_neg same]
          simp only [ServiceReplyMask.inter, Bool.and_eq_true] at same
          cases kind with
          | srv =>
            refine (and_iff_left_of_imp fun wanted both => ?_).symm
            obtain ⟨asked, ⟨priority, weight, port, domain⟩, -⟩ := both
            exact same ⟨⟨wanted, asked⟩, domain, priority.symm, weight.symm, port⟩
          | ptrType => simp [serviceRecord, writeAnswerPTRType, SameData]
          | ptrName => simp [serviceRecord, writeAnswerPTRName, SameData]
          | txt => simp [serviceRecord, writeAnswerTXT, SameData]
      | txt txts =>
        have perm := Txts.compare_iff listed (fits txts data)
        dsimp only
        by_cases same : (mask.inter found).txt = true ∧ s.txts.compare txts = true
        · rw [if_pos same]
          simp only [ServiceReplyMask.inter, Bool.and_eq_true] at same
          cases kind <;>
            simp [serviceRecord, writeAnswerPTRType, writeAnswerPTRName, writeAnswerTXT, SameData,
              ServiceReplyMask.bit, ← perm, same, long]
        · rw [if_neg same]
          simp only [ServiceReplyMask.inter, Bool.and_eq_true] at same
          cases kind with
          | txt =>
            refine (and_iff_left_of_imp fun wanted both => ?_).symm
            exact same ⟨⟨wanted, both.1⟩, perm.mpr both.2.1⟩
          | ptrType => simp [serviceRecord, writeAnswerPTRType, SameData]
          | ptrName => simp [serviceRecord, writeAnswerPTRName, SameData]
          | srv => simp [serviceRecord, SameData]
    · rw [if_neg fun both => any both.1]
      cases kind <;> simp_all [ServiceReplyMask.bit, ServiceReplyMask.inter, ServiceReplyMask.any]
  · rw [if_neg fun both => long both.2]
    simp [long]

/-- Only the planned replies change. -/
theorem knownServiceAnswer_eq (known : ResourceRecord) (s : Service) :
    r.knownServiceAnswer known s =
      { s with replyMask := (r.knownServiceAnswer known s).replyMask } := by
  rw [knownServiceAnswer]
  split
  · split
    · rfl
    · split <;> rfl
    · split <;> rfl
    · rfl
  · rfl

theorem knownHostAnswer_eq (known : ResourceRecord) (p : SendParameter) :
    r.knownHostAnswer known p =
      { p with hostReplyMask := (r.knownHostAnswer known p).hostReplyMask } := by
  rw [knownHostAnswer]
  split
  · split
    · split <;> rfl
    · split <;> rfl
    · rfl
  · rfl

theorem knownHostAnswer_iff (named : r.hostDomain = some host) (lasting : p.unannounce = false)
    {known : ResourceRecord}
    (plain : known.header.type ≠ typeANY ∧ known.header.class' ≠ classANY)
    (planned : SendParameter) (kind : HostKind) :
    (r.knownHostAnswer known planned).hostReplyMask.bit kind = true ↔
      planned.hostReplyMask.bit kind = true ∧ ¬ KnownBy known (hostRecord r host p kind) := by
  rw [knownBy_iff plain, ← replyMaskForHost_iff named]
  have ttl : (hostRecord r host p kind).ttl = hostTTL := by
    cases kind <;> simp [hostRecord, ttlFor, lasting]
  rw [ttl, knownHostAnswer]
  dsimp only
  generalize (r.replyMaskForHost known.header).1 = found
  by_cases long : hostTTL / 2 ≤ known.ttl
  · by_cases any : (planned.hostReplyMask.inter found).any = true
    · rw [if_pos ⟨any, long⟩, named]
      cases data : known.rdata with
      | ptr ptrDomain =>
        dsimp only
        by_cases same : ptrDomain.compare host = true ∧
            (planned.hostReplyMask.inter found).ptrIP4 = true
        · rw [if_pos same]
          simp only [HostReplyMask.inter, Bool.and_eq_true] at same
          have other := RRDomain.compare_symm same.1
          cases kind <;> simp [hostRecord, SameData, HostReplyMask.bit, same, other, long]
        · rw [if_neg same]
          simp only [HostReplyMask.inter, Bool.and_eq_true] at same
          cases kind with
          | ptrIP4 =>
            refine (and_iff_left_of_imp fun wanted both => ?_).symm
            exact same ⟨RRDomain.compare_symm both.2.1, wanted, both.1⟩
          | a => simp [hostRecord, SameData]
      | a ipAddress =>
        dsimp only
        by_cases same : (planned.hostReplyMask.inter found).a = true ∧ ipAddress = r.ipAddress
        · rw [if_pos same]
          simp only [HostReplyMask.inter, Bool.and_eq_true] at same
          cases kind <;> simp [hostRecord, SameData, HostReplyMask.bit, same, long]
        · rw [if_neg same]
          simp only [HostReplyMask.inter, Bool.and_eq_true] at same
          cases kind with
          | a =>
            refine (and_iff_left_of_imp fun wanted both => ?_).symm
            exact same ⟨⟨wanted, both.1⟩, Eq.symm both.2.1⟩
          | ptrIP4 => simp [hostRecord, SameData]
      | txt txts => cases kind <;> simp [hostRecord, SameData]
      | srv priority weight port srvDomain => cases kind <;> simp [hostRecord, SameData]
      | generic bytes => cases kind <;> simp [hostRecord, SameData]
    · rw [if_neg fun both => any both.1]
      cases kind <;> simp_all [HostReplyMask.bit, HostReplyMask.inter, HostReplyMask.any]
  · rw [if_neg fun both => long both.2]
    simp [long]

/-! ## The whole query -/

/-- The responder with replies planned for its services. -/
def masked (r : Responder) (masks : Service → ServiceReplyMask) : Responder :=
  { r with services := r.services.map fun s => { s with replyMask := masks s } }

theorem map_take_modify {α : Type} (g : α → α) (n : Nat) (l : List α) :
    (List.range n).foldr (fun i l => l.modify i g) l = (l.take n).map g ++ l.drop n := by
  induction n generalizing l with
  | zero => rfl
  | succ n ih =>
    rw [List.range_succ, List.foldr_append, List.foldr_cons, List.foldr_nil, ih]
    have front : (l.modify n g).take n = l.take n := by
      rw [List.take_modify, List.modify_eq_self (List.length_take_le n l)]
    rw [front, List.drop_modify_of_ge g n n l (Nat.le_refl n), Nat.sub_self, List.take_add,
      List.map_append, List.append_assoc, ← List.drop_drop]
    cases l.drop n with
    | nil => rfl
    | cons first rest => rfl

/-- A known answer and one service, if no tiebreak is needed. -/
theorem knownAnswerForService_untied (known : ResourceRecord) (i : Nat)
    (untied : r.Every fun s => s.probe.tiebreakNeeded = false) :
    knownAnswerForService known i r = r.modifyService i (r.knownServiceAnswer known) ∧
      (r.modifyService i (r.knownServiceAnswer known)).Every
        fun s => s.probe.tiebreakNeeded = false := by
  have kept : (r.modifyService i (r.knownServiceAnswer known)).Every
      fun s => s.probe.tiebreakNeeded = false := by
    refine every_modifyService (fun s tied => ?_) i untied
    rw [knownServiceAnswer_eq]
    exact tied
  refine ⟨?_, kept⟩
  rw [knownAnswerForService, withService]
  cases found : (r.modifyService i (r.knownServiceAnswer known)).services[i]? with
  | none => rfl
  | some s =>
    have tied := kept s (List.mem_of_getElem? found)
    dsimp only
    rw [serviceTiebreak, tied, if_neg fun both => Bool.false_ne_true both.1]

/-- A known answer, if no tiebreak is needed. -/
theorem forServices_known (known : ResourceRecord) (untied : r.Untied) :
    r.forServices (knownAnswerForService known) =
      { r with services := r.services.map (r.knownServiceAnswer known) } := by
  have run : ∀ is : List Nat,
      is.foldr (knownAnswerForService known) r =
        { r with services :=
          List.foldr (fun i l => l.modify i (r.knownServiceAnswer known)) r.services is } ∧
      (is.foldr (knownAnswerForService known) r).Every
        fun s => s.probe.tiebreakNeeded = false := by
    intro is
    induction is with
    | nil => exact ⟨rfl, untied.2⟩
    | cons i is ih =>
      obtain ⟨step, kept⟩ := knownAnswerForService_untied known i ih.2
      rw [List.foldr_cons, step]
      refine ⟨?_, kept⟩
      rw [ih.1]
      rfl
  rw [forServices, (run _).1, map_take_modify, List.take_length, List.drop_length, List.append_nil]

/-- What is needed for a query to be answered. -/
structure Responding (r : Responder) (host : RRDomain) : Prop where
  settled : r.Settled
  named : r.hostDomain = some host
  hostDone : r.hostProbe.probingStatus = .done
  servicesDone : ∀ s ∈ r.services, s.probe.probingStatus = .done
  txts : ∀ s ∈ r.services, s.txts.Listed

/-- As many questions and records as are announced, and items that fit into a record. -/
structure Query.WellFormed (q : Query) : Prop where
  questions : q.questionCount = q.questions.length
  records : q.recordCount = q.records.length
  fits : ∀ known ∈ q.records, ∀ txts, known.rdata = .txt txts →
    (List.map (fun txt : Txt => 1 + txt.length) txts).sum < 2 ^ 16

/-- It is no single question from another port and another subnet. -/
def Query.Accepted (q : Query) (r : Responder) : Prop :=
  q.remotePort = mqueryPort ∨ q.questions.length ≠ 1 ∨ r.isLocal q.remoteAddress = true

theorem union_bit (mask other : ServiceReplyMask) (kind : ServiceKind) :
    (mask.union other).bit kind = (mask.bit kind || other.bit kind) := by
  cases kind <;> rfl

theorem host_union_bit (mask other : HostReplyMask) (kind : HostKind) :
    (mask.union other).bit kind = (mask.bit kind || other.bit kind) := by
  cases kind <;> rfl

theorem planHost_done (responding : r.Responding host) (masks : Service → ServiceReplyMask)
    (question : RRQuestion) (p : SendParameter) :
    (r.masked masks).planHost question p =
      { p with hostReplyMask := p.hostReplyMask.union (r.replyMaskForHost question.header).1 } :=
  if_pos (.inr responding.hostDone)

theorem planServices_done (responding : r.Responding host) (masks : Service → ServiceReplyMask)
    (question : RRQuestion) :
    ((r.masked masks).hostTiebreakNeed question).planServices question =
      r.masked fun s => (masks s).union (s.replyMask? question.header).1 := by
  have host : (r.masked masks).hostTiebreakNeed question = r.masked masks := by
    have done : (r.masked masks).hostProbe.probingStatus = .done := responding.hostDone
    rw [hostTiebreakNeed, done]
    dsimp only
    rw [decide_eq_false (by decide), Bool.false_and, Bool.false_and, Bool.or_false]
  have service : ∀ s ∈ r.services,
      planService r.passivModeEnabled question { s with replyMask := masks s } =
        { s with replyMask := (masks s).union (s.replyMask? question.header).1 } := by
    intro s mem
    have done := responding.servicesDone s mem
    rw [planService, done]
    dsimp only
    rw [if_pos (.inr rfl), decide_eq_false (by decide), Bool.false_and, Bool.false_and,
      Bool.or_false]
    rfl
  rw [host]
  exact congrArg (fun services => ({ r with services } : Responder))
    (List.map_map.trans (List.map_congr_left service))

/-- The specialities of unicast change neither what is planned nor what is to be taken back, and
the cache is flushed by a multicast reply only. -/
theorem unicastReply_keeps (q : Query) (question : RRQuestion) (replies : Bool) (r : Responder)
    {p : SendParameter} (cached : p.cacheFlush = !p.unicast) :
    (unicastReply q question replies r p).2.hostReplyMask = p.hostReplyMask ∧
      (unicastReply q question replies r p).2.unannounce = p.unannounce ∧
      (unicastReply q question replies r p).2.cacheFlush =
        (p.cacheFlush && (decide (q.remotePort = mqueryPort) && !question.unicast)) ∧
      (unicastReply q question replies r p).2.cacheFlush =
        !(unicastReply q question replies r p).2.unicast := by
  rw [unicastReply]
  by_cases unicast : (q.remotePort ≠ mqueryPort ∨ question.unicast) ∧ !p.unicast
  · have off : (decide (q.remotePort = mqueryPort) && !question.unicast) = false := by
      rw [Bool.and_eq_false_iff]
      rcases unicast.1 with port | asked
      · exact .inl (decide_eq_false port)
      · exact .inr (by rw [asked]; rfl)
    rw [if_pos unicast, off, Bool.and_false]
    dsimp only
    split
    · split
      · exact ⟨rfl, rfl, rfl, rfl⟩
      · exact ⟨rfl, rfl, rfl, rfl⟩
    · exact ⟨rfl, rfl, rfl, rfl⟩
  · rw [if_neg unicast]
    refine ⟨rfl, rfl, ?_, cached⟩
    cases before : p.unicast with
    | true =>
      rw [cached, before]
      rfl
    | false =>
      rw [before, Bool.not_false, and_iff_left rfl, not_or, not_not, Bool.not_eq_true] at unicast
      rw [decide_eq_true unicast.1, unicast.2]
      exact (Bool.and_true _).symm

/-- Whether a reply flushes caches: it is not sent to a single host. -/
def Query.flushes (q : Query) (questions : List RRQuestion) : Bool :=
  questions.all fun question => decide (q.remotePort = mqueryPort) && !question.unicast

/-- All questions of a query that goes on. -/
theorem parseQuestions_masked (responding : r.Responding host) (records : SendParameter) {q : Query}
    (accepted : q.remotePort = mqueryPort ∨ q.questionCount ≠ 1 ∨ r.isLocal q.remoteAddress = true)
    (questions : List RRQuestion) {p : SendParameter} (cached : p.cacheFlush = !p.unicast)
    (masks : Service → ServiceReplyMask) :
    ∃ p' masks', parseQuestions q questions.length questions p (r.masked masks) =
        (true, p', r.masked masks') ∧
      p'.unannounce = p.unannounce ∧
      p'.cacheFlush = (p.cacheFlush && q.flushes questions) ∧
      (∀ kind, p'.hostReplyMask.bit kind = true ↔ p.hostReplyMask.bit kind = true ∨
        ∃ question ∈ questions, AskedBy question (hostRecord r host records kind)) ∧
      ∀ s kind, (masks' s).bit kind = true ↔ (masks s).bit kind = true ∨
        ∃ question ∈ questions, AskedBy question (serviceRecord host records s kind) := by
  induction questions generalizing p masks with
  | nil =>
    refine ⟨p, masks, rfl, rfl, (Bool.and_true _).symm, fun kind => ?_, fun s kind => ?_⟩
    · simp
    · simp
  | cons question questions ih =>
    rw [List.length_cons, parseQuestions, parseQuestion, planHost_done responding,
      planServices_done responding]
    generalize planned : ({ p with
        hostReplyMask := p.hostReplyMask.union (r.replyMaskForHost question.header).1 } :
      SendParameter) = p₁
    generalize union : (fun s : Service =>
      (masks s).union (s.replyMask? question.header).1) = masks₁
    have cached₁ : p₁.cacheFlush = !p₁.unicast := by
      rw [← planned]
      exact cached
    have goesOn : (unicastReply q question ((r.masked masks₁).needsReply p₁) (r.masked masks₁)
        p₁).1 = true := unicastReply_complete accepted _ _ _
    obtain ⟨mask, unannounce, flushes, stillCached⟩ :=
      unicastReply_keeps q question ((r.masked masks₁).needsReply p₁) (r.masked masks₁) cached₁
    dsimp only
    generalize unicastReply q question ((r.masked masks₁).needsReply p₁) (r.masked masks₁) p₁ =
      next at goesOn mask unannounce flushes stillCached ⊢
    obtain ⟨result, p₂⟩ := next
    obtain rfl : result = true := goesOn
    obtain ⟨p₃, masks₃, run, kept, flushed, host, service⟩ := ih stillCached masks₁
    refine ⟨p₃, masks₃, run, ?_, ?_, fun kind => ?_, fun s kind => ?_⟩
    · rw [kept, unannounce, ← planned]
    · rw [flushed, flushes, ← planned, Query.flushes, Query.flushes, List.all_cons, Bool.and_assoc]
    · rw [host, mask, ← planned, host_union_bit, Bool.or_eq_true,
        replyMaskForHost_iff responding.named, List.exists_mem_cons_iff, or_assoc]
    · rw [service, ← union, union_bit, Bool.or_eq_true, replyMask_iff, List.exists_mem_cons_iff,
        or_assoc]

/-- One known answer. -/
theorem parseRecord_masked (responding : r.Responding host) {known : ResourceRecord}
    (plain : known.header.type ≠ typeANY ∧ known.header.class' ≠ classANY) (planned : SendParameter)
    (masks : Service → ServiceReplyMask) :
    parseRecord known planned (r.masked masks) =
      (r.knownHostAnswer known planned, r.masked fun s =>
        (r.knownServiceAnswer known { s with replyMask := masks s }).replyMask) := by
  have tied : (r.masked masks).hostProbe.tiebreakNeeded = false := responding.settled.2.1
  have untied : (r.masked masks).Untied := by
    refine ⟨tied, fun s mem => ?_⟩
    obtain ⟨s', before, rfl⟩ := List.mem_map.mp mem
    exact responding.settled.2.2 s' before
  have host : (r.masked masks).hostTiebreak known = r.masked masks := by
    rw [hostTiebreak, tied, if_neg Bool.false_ne_true]
  rw [parseRecord, if_pos plain, host, forServices_known known untied]
  refine Prod.ext rfl ?_
  refine congrArg (fun services => ({ r with services } : Responder)) ?_
  refine List.map_map.trans (List.map_congr_left fun s _ => ?_)
  exact knownServiceAnswer_eq known { s with replyMask := masks s }

/-- All known answers. -/
theorem parseRecords_masked (responding : r.Responding host) (lasting : p.unannounce = false)
    (records : List ResourceRecord)
    (fits : ∀ known ∈ records, ∀ txts, known.rdata = .txt txts →
      (List.map (fun txt : Txt => 1 + txt.length) txts).sum < 2 ^ 16)
    (planned : SendParameter) (masks : Service → ServiceReplyMask) :
    ∃ mask masks', parseRecords records.length records planned (r.masked masks) =
        (true, { planned with hostReplyMask := mask }, r.masked masks') ∧
      (∀ kind, mask.bit kind = true ↔ planned.hostReplyMask.bit kind = true ∧
        ¬ ∃ known ∈ records, KnownBy known (hostRecord r host p kind)) ∧
      ∀ s ∈ r.services, ∀ kind, (masks' s).bit kind = true ↔ (masks s).bit kind = true ∧
        ¬ ∃ known ∈ records, KnownBy known (serviceRecord host p s kind) := by
  induction records generalizing planned masks with
  | nil =>
    refine ⟨planned.hostReplyMask, masks, rfl, fun kind => ?_, fun s mem kind => ?_⟩
    · simp
    · simp
  | cons known records ih =>
    have later := fun known mem => fits known (List.mem_cons_of_mem _ mem)
    rw [List.length_cons, parseRecords]
    by_cases plain : known.header.type ≠ typeANY ∧ known.header.class' ≠ classANY
    · rw [parseRecord_masked responding plain]
      obtain ⟨mask, masks', run, hostBits, serviceBits⟩ := ih later
        (r.knownHostAnswer known planned)
        fun s => (r.knownServiceAnswer known { s with replyMask := masks s }).replyMask
      refine ⟨mask, masks', ?_, fun kind => ?_, fun s mem kind => ?_⟩
      · dsimp only
        rw [run, knownHostAnswer_eq known planned]
      · rw [hostBits, knownHostAnswer_iff responding.named lasting plain,
          List.exists_mem_cons_iff, not_or, and_assoc]
      · rw [serviceBits s mem, knownServiceAnswer_iff responding.named lasting
          (responding.txts s mem) (fits known List.mem_cons_self) plain,
          List.exists_mem_cons_iff, not_or, and_assoc]
    · rw [parseRecord, if_neg plain]
      obtain ⟨mask, masks', run, hostBits, serviceBits⟩ := ih later planned masks
      refine ⟨mask, masks', run, fun kind => ?_, fun s mem kind => ?_⟩
      · have unknown : ¬ KnownBy known (hostRecord r host p kind) := by
          refine not_knownBy ?_ plain
          cases kind with
          | a => exact (by decide : typeA ≠ typeANY)
          | ptrIP4 => exact (by decide : typePTR ≠ typeANY)
        rw [hostBits, List.exists_mem_cons_iff, or_iff_right unknown]
      · have unknown : ¬ KnownBy known (serviceRecord host p s kind) := by
          refine not_knownBy ?_ plain
          cases kind with
          | ptrType => exact (by decide : typePTR ≠ typeANY)
          | ptrName => exact (by decide : typePTR ≠ typeANY)
          | srv => exact (by decide : typeSRV ≠ typeANY)
          | txt => exact (by decide : typeTXT ≠ typeANY)
        rw [serviceBits s mem, List.exists_mem_cons_iff, or_iff_right unknown]

/-! ## The reply -/

theorem mapM_id_of_some {α : Type} {l : List (Option α)} (all : ∀ o ∈ l, o ≠ none) :
    ∃ xs, l.mapM id = some xs := by
  induction l with
  | nil => exact ⟨[], rfl⟩
  | cons o l ih =>
    obtain ⟨xs, rest⟩ := ih fun o mem => all o (List.mem_cons_of_mem _ mem)
    cases o with
    | none => exact absurd rfl (all none List.mem_cons_self)
    | some x => exact ⟨x :: xs, by simp [rest]⟩

theorem needsReply_iff (p : SendParameter) (masks : Service → ServiceReplyMask) :
    (r.masked masks).needsReply p = true ↔
      (∃ kind, p.hostReplyMask.bit kind = true) ∨
        ∃ s ∈ r.services, ∃ kind, (masks s).bit kind = true := by
  rw [needsReply, Bool.or_eq_true, HostReplyMask.any_iff, List.any_eq_true]
  refine or_congr_right ?_
  constructor
  · rintro ⟨s, mem, any⟩
    obtain ⟨s', before, rfl⟩ := List.mem_map.mp mem
    exact ⟨s', before, (ServiceReplyMask.any_iff _).mp any⟩
  · rintro ⟨s, mem, any⟩
    exact ⟨_, List.mem_map_of_mem mem, (ServiceReplyMask.any_iff _).mpr any⟩

theorem mem_hostAnswers_iff (named : r.hostDomain = some host) (o : Option ResourceRecord) :
    o ∈ r.hostAnswers p ↔
      ∃ kind, p.hostReplyMask.bit kind = true ∧ o = some (hostRecord r host p kind) := by
  rw [hostAnswers, List.mem_append, mem_keep_iff, mem_keep_iff, writeAnswerA, writeAnswerPTRIP4,
    named]
  constructor
  · rintro (a | ptrIP4)
    · exact ⟨.a, a⟩
    · exact ⟨.ptrIP4, ptrIP4⟩
  · rintro ⟨kind, set⟩
    cases kind with
    | a => exact .inl set
    | ptrIP4 => exact .inr set

theorem mem_serviceAnswers_iff (named : r.hostDomain = some host) (s : Service)
    (o : Option ResourceRecord) :
    o ∈ r.serviceAnswers p s ↔
      ∃ kind, s.replyMask.bit kind = true ∧ o = some (serviceRecord host p s kind) := by
  rw [serviceAnswers, List.mem_append, List.mem_append, List.mem_append, mem_keep_iff, mem_keep_iff,
    mem_keep_iff, mem_keep_iff, writeAnswerSRV, named]
  constructor
  · rintro (((ptrType | ptrName) | srv) | txt)
    · exact ⟨.ptrType, ptrType⟩
    · exact ⟨.ptrName, ptrName⟩
    · exact ⟨.srv, srv⟩
    · exact ⟨.txt, txt⟩
  · rintro ⟨kind, set⟩
    cases kind with
    | ptrType => exact .inl (.inl (.inl set))
    | ptrName => exact .inl (.inl (.inr set))
    | srv => exact .inl (.inr set)
    | txt => exact .inr set

theorem mem_additionalAnswers_iff (named : r.hostDomain = some host) (s : Service)
    (o : Option ResourceRecord) :
    o ∈ r.additionalAnswers p s ↔ s.replyMask.bit .ptrName = true ∧
      (s.replyMask.bit .srv = false ∧ o = some (serviceRecord host p s .srv) ∨
        s.replyMask.bit .txt = false ∧ o = some (serviceRecord host p s .txt)) := by
  rw [additionalAnswers, List.mem_append, mem_keep_iff, mem_keep_iff, writeAnswerSRV, named,
    Bool.and_eq_true, Bool.and_eq_true, Bool.not_eq_true', Bool.not_eq_true', and_assoc, and_assoc,
    ← and_or_left]
  rfl

/-- What is sent. -/
theorem sendMDNSMessage_masked (named : r.hostDomain = some host)
    (sends : r.sends.headD true = true) (p : SendParameter) (masks : Service → ServiceReplyMask) :
    ∃ message, ((r.masked masks).sendMDNSMessage p).1 = some message ∧
      (∀ x, x ∈ message.answers ↔
        (∃ kind, p.hostReplyMask.bit kind = true ∧ x = hostRecord r host p kind) ∨
        ∃ s ∈ r.services, ∃ kind, (masks s).bit kind = true ∧ x = serviceRecord host p s kind) ∧
      ∀ x, x ∈ message.additional ↔
        (∃ s ∈ r.services, (masks s).bit .ptrName = true ∧
          ((masks s).bit .srv = false ∧ x = serviceRecord host p s .srv ∨
            (masks s).bit .txt = false ∧ x = serviceRecord host p s .txt)) ∨
        p.hostReplyMask.bit .a = false ∧ x = hostRecord r host p .a ∧
          ∃ s ∈ r.services, (masks s).bit .ptrName = true ∨ (masks s).bit .srv = true := by
  have named' : (r.masked masks).hostDomain = some host := named
  have answers : ∀ o, o ∈ (r.masked masks).hostAnswers p ++
      (r.masked masks).services.reverse.flatMap ((r.masked masks).serviceAnswers p) ↔
        (∃ kind, p.hostReplyMask.bit kind = true ∧ o = some (hostRecord r host p kind)) ∨
        ∃ s ∈ r.services, ∃ kind, (masks s).bit kind = true ∧
          o = some (serviceRecord host p s kind) := by
    intro o
    rw [List.mem_append, mem_hostAnswers_iff named', List.mem_flatMap]
    refine or_congr Iff.rfl ?_
    constructor
    · rintro ⟨s, mem, listed⟩
      obtain ⟨s', before, rfl⟩ := List.mem_map.mp (List.mem_reverse.mp mem)
      exact ⟨s', before, (mem_serviceAnswers_iff named' _ o).mp listed⟩
    · rintro ⟨s, mem, listed⟩
      exact ⟨_, List.mem_reverse.mpr (List.mem_map_of_mem mem),
        (mem_serviceAnswers_iff named' _ o).mpr listed⟩
  have additional : ∀ o, o ∈ (r.masked masks).services.reverse.flatMap
        ((r.masked masks).additionalAnswers p) ++
        keep ((r.masked masks).services.any (needsAdditionalA p))
          ((r.masked masks).writeAnswerA p) ↔
        (∃ s ∈ r.services, (masks s).bit .ptrName = true ∧
          ((masks s).bit .srv = false ∧ o = some (serviceRecord host p s .srv) ∨
            (masks s).bit .txt = false ∧ o = some (serviceRecord host p s .txt))) ∨
        p.hostReplyMask.bit .a = false ∧ o = some (hostRecord r host p .a) ∧
          ∃ s ∈ r.services, (masks s).bit .ptrName = true ∨ (masks s).bit .srv = true := by
    intro o
    rw [List.mem_append, List.mem_flatMap, mem_keep_iff]
    refine or_congr ?_ ?_
    · constructor
      · rintro ⟨s, mem, listed⟩
        obtain ⟨s', before, rfl⟩ := List.mem_map.mp (List.mem_reverse.mp mem)
        exact ⟨s', before, (mem_additionalAnswers_iff named' _ o).mp listed⟩
      · rintro ⟨s, mem, listed⟩
        exact ⟨_, List.mem_reverse.mpr (List.mem_map_of_mem mem),
          (mem_additionalAnswers_iff named' _ o).mpr listed⟩
    · have written : (r.masked masks).writeAnswerA p = some (hostRecord r host p .a) := by
        rw [writeAnswerA, named']
        rfl
      rw [written, List.any_eq_true]
      constructor
      · rintro ⟨⟨s, mem, needs⟩, same⟩
        obtain ⟨s', before, rfl⟩ := List.mem_map.mp mem
        rw [needsAdditionalA, Bool.and_eq_true, Bool.or_eq_true, Bool.not_eq_true'] at needs
        exact ⟨needs.2, same, s', before, needs.1⟩
      · rintro ⟨unset, same, s, mem, needs⟩
        refine ⟨⟨_, List.mem_map_of_mem mem, ?_⟩, same⟩
        rw [needsAdditionalA, Bool.and_eq_true, Bool.or_eq_true, Bool.not_eq_true']
        exact ⟨needs, unset⟩
  obtain ⟨xs, gathered⟩ := mapM_id_of_some fun o mem => by
    rcases (answers o).mp mem with ⟨kind, -, rfl⟩ | ⟨s, -, kind, -, rfl⟩
    · exact Option.some_ne_none _
    · exact Option.some_ne_none _
  obtain ⟨ys, gathered'⟩ := mapM_id_of_some fun o mem => by
    rcases (additional o).mp mem with ⟨s, -, -, ⟨-, rfl⟩ | ⟨-, rfl⟩⟩ | ⟨-, rfl, -⟩
    · exact Option.some_ne_none _
    · exact Option.some_ne_none _
    · exact Option.some_ne_none _
  have listed : ∀ {l : List (Option ResourceRecord)} {zs : List ResourceRecord},
      l.mapM id = some zs → ∀ x, x ∈ zs ↔ some x ∈ l := by
    intro l zs all x
    rw [mapM_id_eq_some all, List.mem_map]
    constructor
    · exact fun mem => ⟨x, mem, rfl⟩
    · rintro ⟨y, mem, same⟩
      cases same
      exact mem
  obtain ⟨message, prepared, same, same'⟩ : ∃ message, (r.masked masks).prepareMDNSMessage p =
      some message ∧ message.answers = xs ∧ message.additional = ys := by
    rw [prepareMDNSMessage, gathered, gathered']
    exact ⟨_, rfl, rfl, rfl⟩
  refine ⟨message, ?_, fun x => ?_, fun x => ?_⟩
  · have send : (r.masked masks).sends.headD true = true := sends
    rw [sendMDNSMessage, prepared]
    dsimp only
    rw [if_pos send]
  · rw [same, listed gathered, answers]
    simp only [Option.some.injEq]
  · rw [same', listed gathered', additional]
    simp only [Option.some.injEq]

/-- A single question from another port and another subnet: the query is refused, or it asks for
nothing. -/
theorem parseQuestion_refused (responding : r.Responding host) {q : Query} (question : RRQuestion)
    (one : q.questionCount = 1) (port : q.remotePort ≠ mqueryPort)
    (elsewhere : r.isLocal q.remoteAddress = false) (masks : Service → ServiceReplyMask) :
    (parseQuestion q question .new (r.masked masks)).1 = false ∨
      ∃ p masks', parseQuestion q question .new (r.masked masks) = (true, p, r.masked masks') ∧
        (r.masked masks').needsReply p = false := by
  rw [parseQuestion, planHost_done responding, planServices_done responding]
  generalize planned : ({ SendParameter.new with
      hostReplyMask := SendParameter.new.hostReplyMask.union
        (r.replyMaskForHost question.header).1 } : SendParameter) = p₁
  generalize (fun s : Service => (masks s).union (s.replyMask? question.header).1) = masks₁
  have multicast : p₁.unicast = false := by
    rw [← planned]
    rfl
  have foreign : (r.masked masks₁).isLocal q.remoteAddress = false := elsewhere
  dsimp only
  rw [unicastReply, multicast, if_pos ⟨.inl port, rfl⟩]
  dsimp only
  by_cases replies : p₁.hostReplyMask.any ∨ (r.masked masks₁).needsReply p₁
  · left
    rw [if_pos ⟨port, one, replies⟩, foreign, if_neg Bool.false_ne_true]
  · right
    rw [if_neg fun all => replies all.2.2]
    rw [not_or, Bool.not_eq_true, Bool.not_eq_true] at replies
    exact ⟨_, masks₁, rfl, replies.2⟩

/-- Known answers make no reply necessary. -/
theorem parseRecords_needless (responding : r.Responding host) {q : Query}
    (wellFormed : q.WellFormed) {p : SendParameter} {masks : Service → ServiceReplyMask}
    (needless : (r.masked masks).needsReply p = false) :
    ∃ p' masks', parseRecords q.recordCount q.records p (r.masked masks) =
      (true, p', r.masked masks') ∧ (r.masked masks').needsReply p' = false := by
  obtain ⟨mask, masks', run, hostBits, serviceBits⟩ :=
    parseRecords_masked responding (p := .new) rfl q.records wellFormed.fits p masks
  rw [wellFormed.records]
  refine ⟨_, masks', run, Bool.eq_false_iff.mpr fun needed => ?_⟩
  refine Bool.eq_false_iff.mp needless ((needsReply_iff p masks).mpr ?_)
  rcases (needsReply_iff _ masks').mp needed with ⟨kind, set⟩ | ⟨s, mem, kind, set⟩
  · exact .inl ⟨kind, ((hostBits kind).mp set).1⟩
  · exact .inr ⟨s, mem, kind, ((serviceBits s mem kind).mp set).1⟩

theorem masked_zero (unplanned : r.Unplanned) : r.masked (fun _ => .zero) = r := by
  have same : r.services.map (fun s => { s with replyMask := .zero }) = r.services := by
    rw [List.map_congr_left fun s mem => ?_]
    · exact List.map_id _
    · have zero := unplanned s mem
      rw [← zero]
      rfl
  rw [masked, same]

/-- What a query asks for, and does not list. -/
def Query.Wants (q : Query) (record : ResourceRecord) : Prop := q.Asks record ∧ ¬ q.Knows record

/-- How the records of a reply are written. -/
def Query.parameter (q : Query) : SendParameter :=
  { SendParameter.new with cacheFlush := q.flushes q.questions }

/-- A record of the responder. -/
def Holds (r : Responder) (host : RRDomain) (p : SendParameter) (record : ResourceRecord) : Prop :=
  (∃ kind, record = hostRecord r host p kind) ∨
    ∃ s ∈ r.services, ∃ kind, record = serviceRecord host p s kind

theorem hostRecord_congr {p' : SendParameter} (flush : p.cacheFlush = p'.cacheFlush)
    (unannounce : p.unannounce = p'.unannounce) (kind : HostKind) :
    hostRecord r host p kind = hostRecord r host p' kind := by
  cases kind <;> simp only [hostRecord, flushClass, ttlFor, flush, unannounce]

theorem serviceRecord_congr {p' : SendParameter} (flush : p.cacheFlush = p'.cacheFlush)
    (unannounce : p.unannounce = p'.unannounce) (s : Service) (kind : ServiceKind) :
    serviceRecord host p s kind = serviceRecord host p' s kind := by
  cases kind <;> simp only [serviceRecord, writeAnswerPTRType, writeAnswerPTRName, writeAnswerTXT,
    flushClass, ttlFor, flush, unannounce]

/-- Nothing is replied to a query that is refused. -/
theorem parseQuery_refused (responding : r.Responding host) {q : Query}
    (wellFormed : q.WellFormed) (refused : ¬ q.Accepted r) : (r.parseQuery q).1 = none := by
  rw [Query.Accepted, not_or, not_or, not_not, Bool.not_eq_true] at refused
  obtain ⟨port, one, elsewhere⟩ := refused
  obtain ⟨question, questions⟩ := List.length_eq_one_iff.mp one
  have count : q.questionCount = 1 := wellFormed.questions.trans one
  have outcome := parseQuestion_refused responding question count port elsewhere fun _ => .zero
  rw [masked_zero responding.settled.1] at outcome
  rw [parseQuery, count, questions, parseQuestions]
  rcases outcome with refused | ⟨p, masks, run, needless⟩
  · generalize parseQuestion q question .new r = next at refused ⊢
    obtain ⟨result, p, r'⟩ := next
    obtain rfl : result = false := refused
    rfl
  · obtain ⟨p', masks', records, still⟩ := parseRecords_needless responding wellFormed needless
    rw [run]
    dsimp only
    rw [if_pos rfl, parseQuestions]
    dsimp only
    rw [if_pos rfl, records]
    dsimp only
    rw [if_pos rfl, replyTo, still, if_neg Bool.false_ne_true]

/-- The bits say what the query asks for and does not list. -/
structure Planned (r : Responder) (host : RRDomain) (q : Query) (p : SendParameter)
    (masks : Service → ServiceReplyMask) : Prop where
  hostBits : ∀ kind, p.hostReplyMask.bit kind = true ↔
    q.Wants (hostRecord r host q.parameter kind)
  serviceBits : ∀ s ∈ r.services, ∀ kind, (masks s).bit kind = true ↔
    q.Wants (serviceRecord host q.parameter s kind)
  kept : p.unannounce = q.parameter.unannounce
  flushed : p.cacheFlush = q.parameter.cacheFlush

/-- A query that is accepted is replied to with what it asks for and does not list. -/
theorem parseQuery_planned (responding : r.Responding host) {q : Query}
    (wellFormed : q.WellFormed) (accepted : q.Accepted r) :
    ∃ p masks, (r.parseQuery q).1 = (replyTo p (r.masked masks)).1 ∧
      Planned r host q p masks := by
  have goesOn : q.remotePort = mqueryPort ∨ q.questionCount ≠ 1 ∨
      r.isLocal q.remoteAddress = true := by
    rw [wellFormed.questions]
    exact accepted
  obtain ⟨p₁, masks₁, questions, kept, flushed, hostAsked, serviceAsked⟩ :=
    parseQuestions_masked responding q.parameter goesOn q.questions (p := .new) rfl
      fun _ => .zero
  obtain ⟨mask, masks₂, records, hostLeft, serviceLeft⟩ :=
    parseRecords_masked responding (p := q.parameter) rfl q.records wellFormed.fits p₁ masks₁
  refine ⟨{ p₁ with hostReplyMask := mask }, masks₂, ?_, ?_, ?_, kept,
    flushed.trans (Bool.true_and _)⟩
  · have start := masked_zero responding.settled.1
    rw [start] at questions
    rw [parseQuery, wellFormed.questions, questions, wellFormed.records]
    dsimp only
    rw [if_pos rfl, records]
    dsimp only
    rw [if_pos rfl]
  · intro kind
    rw [hostLeft, hostAsked]
    refine and_congr_left fun _ => or_iff_right ?_
    cases kind <;> decide
  · intro s mem kind
    rw [serviceLeft s mem, serviceAsked]
    refine and_congr_left fun _ => or_iff_right ?_
    cases kind <;> decide

/-- The reply has the wanted records, and about the instances that it names those that are not
wanted. -/
theorem Planned.message {q : Query} {p : SendParameter} {masks : Service → ServiceReplyMask}
    (planned : Planned r host q p masks) (named : r.hostDomain = some host)
    (sends : r.sends.headD true = true) (needed : (r.masked masks).needsReply p = true) :
    ∃ message, (replyTo p (r.masked masks)).1 = some message ∧
      (∀ record, record ∈ message.answers ↔
        r.Holds host q.parameter record ∧ q.Wants record) ∧
      ∀ record, record ∈ message.additional ↔
        (∃ s ∈ r.services, q.Wants (serviceRecord host q.parameter s .ptrName) ∧
          (¬ q.Wants record ∧ (record = serviceRecord host q.parameter s .srv ∨
            record = serviceRecord host q.parameter s .txt))) ∨
        ¬ q.Wants record ∧ record = hostRecord r host q.parameter .a ∧
          ∃ s ∈ r.services, q.Wants (serviceRecord host q.parameter s .ptrName) ∨
            q.Wants (serviceRecord host q.parameter s .srv) := by
  obtain ⟨message, sent, answers, additional⟩ := sendMDNSMessage_masked named sends
    { p with response := true, authorative := true } masks
  have hostWritten : ∀ kind, hostRecord r host
      { p with response := true, authorative := true } kind =
      hostRecord r host q.parameter kind := hostRecord_congr planned.flushed planned.kept
  have serviceWritten : ∀ s kind, serviceRecord host
      { p with response := true, authorative := true } s kind =
      serviceRecord host q.parameter s kind := serviceRecord_congr planned.flushed planned.kept
  simp only [hostWritten, serviceWritten] at answers additional
  have off : ∀ s ∈ r.services, ∀ kind, (masks s).bit kind = false ↔
      ¬ q.Wants (serviceRecord host q.parameter s kind) := by
    intro s mem kind
    rw [← planned.serviceBits s mem kind, Bool.not_eq_true]
  have hostOff : ∀ kind, p.hostReplyMask.bit kind = false ↔
      ¬ q.Wants (hostRecord r host q.parameter kind) := by
    intro kind
    rw [← planned.hostBits kind, Bool.not_eq_true]
  refine ⟨message, ?_, fun record => ?_, fun record => ?_⟩
  · rw [replyTo, if_pos needed, sent]
  · rw [answers]
    constructor
    · rintro (⟨kind, set, rfl⟩ | ⟨s, mem, kind, set, rfl⟩)
      · exact ⟨.inl ⟨kind, rfl⟩, (planned.hostBits kind).mp set⟩
      · exact ⟨.inr ⟨s, mem, kind, rfl⟩, (planned.serviceBits s mem kind).mp set⟩
    · rintro ⟨⟨kind, rfl⟩ | ⟨s, mem, kind, rfl⟩, wanted⟩
      · exact .inl ⟨kind, (planned.hostBits kind).mpr wanted, rfl⟩
      · exact .inr ⟨s, mem, kind, (planned.serviceBits s mem kind).mpr wanted, rfl⟩
  · rw [additional]
    constructor
    · rintro (⟨s, mem, name, ⟨unset, rfl⟩ | ⟨unset, rfl⟩⟩ | ⟨unset, rfl, s, mem, needs⟩)
      · exact .inl ⟨s, mem, (planned.serviceBits s mem _).mp name, (off s mem _).mp unset,
          .inl rfl⟩
      · exact .inl ⟨s, mem, (planned.serviceBits s mem _).mp name, (off s mem _).mp unset,
          .inr rfl⟩
      · refine .inr ⟨(hostOff _).mp unset, rfl, s, mem, ?_⟩
        rwa [← planned.serviceBits s mem, ← planned.serviceBits s mem]
    · rintro (⟨s, mem, name, unwanted, rfl | rfl⟩ | ⟨unwanted, rfl, s, mem, needs⟩)
      · exact .inl ⟨s, mem, (planned.serviceBits s mem _).mpr name,
          .inl ⟨(off s mem _).mpr unwanted, rfl⟩⟩
      · exact .inl ⟨s, mem, (planned.serviceBits s mem _).mpr name,
          .inr ⟨(off s mem _).mpr unwanted, rfl⟩⟩
      · refine .inr ⟨(hostOff _).mpr unwanted, rfl, s, mem, ?_⟩
        rwa [planned.serviceBits s mem, planned.serviceBits s mem]

/-- If no reply is due, nothing is wanted. -/
theorem Planned.unwanted {q : Query} {p : SendParameter} {masks : Service → ServiceReplyMask}
    (planned : Planned r host q p masks) (needless : ¬ (r.masked masks).needsReply p = true)
    {record : ResourceRecord} (held : r.Holds host q.parameter record) : ¬ q.Wants record := by
  rw [needsReply_iff, not_or, not_exists, not_exists] at needless
  intro wanted
  rcases held with ⟨kind, rfl⟩ | ⟨s, mem, kind, rfl⟩
  · exact needless.1 kind ((planned.hostBits kind).mpr wanted)
  · exact needless.2 s ⟨mem, kind, (planned.serviceBits s mem kind).mpr wanted⟩

/-- The answers of a reply are what the query asks for and does not list. What else is sent is
about the services whose instances are answered. -/
theorem known_answers_left_out (responding : r.Responding host) {q : Query}
    (wellFormed : q.WellFormed) (sends : r.sends.headD true = true) (record : ResourceRecord) :
    ((∃ message, (r.parseQuery q).1 = some message ∧ record ∈ message.answers) ↔
        q.Accepted r ∧ r.Holds host q.parameter record ∧ q.Asks record ∧ ¬ q.Knows record) ∧
      ((∃ message, (r.parseQuery q).1 = some message ∧ record ∈ message.additional) ↔
        q.Accepted r ∧
          ((∃ s ∈ r.services, q.Wants (serviceRecord host q.parameter s .ptrName) ∧
            (¬ q.Wants record ∧ (record = serviceRecord host q.parameter s .srv ∨
              record = serviceRecord host q.parameter s .txt))) ∨
          ¬ q.Wants record ∧ record = hostRecord r host q.parameter .a ∧
            ∃ s ∈ r.services, q.Wants (serviceRecord host q.parameter s .ptrName) ∨
              q.Wants (serviceRecord host q.parameter s .srv))) := by
  have nothing : (r.parseQuery q).1 = none → ∀ P : Message → Prop,
      ¬ ∃ message, (r.parseQuery q).1 = some message ∧ P message := by
    rintro silent P ⟨message, sent, -⟩
    rw [silent] at sent
    cases sent
  by_cases accepted : q.Accepted r
  · obtain ⟨p, masks, run, planned⟩ := parseQuery_planned responding wellFormed accepted
    by_cases needed : (r.masked masks).needsReply p = true
    · obtain ⟨message, sent, answers, additional⟩ :=
        planned.message responding.named sends needed
      have only : ∀ P : Message → Prop,
          (∃ m, (r.parseQuery q).1 = some m ∧ P m) ↔ P message := by
        intro P
        rw [run, sent]
        constructor
        · rintro ⟨m, same, holds⟩
          cases same
          exact holds
        · exact fun holds => ⟨message, rfl, holds⟩
      rw [only, only, answers, additional, and_iff_right accepted, and_iff_right accepted]
      exact ⟨Iff.rfl, Iff.rfl⟩
    · have silent : (r.parseQuery q).1 = none := by
        rw [run, replyTo, if_neg needed]
      have unwanted : ∀ {record}, r.Holds host q.parameter record → ¬ q.Wants record :=
        planned.unwanted needed
      refine ⟨iff_of_false (nothing silent _) ?_, iff_of_false (nothing silent _) ?_⟩
      · rintro ⟨-, held, wanted⟩
        exact unwanted held wanted
      · rintro ⟨-, ⟨s, mem, wanted, -⟩ | ⟨-, -, s, mem, wanted | wanted⟩⟩
        · exact unwanted (.inr ⟨s, mem, _, rfl⟩) wanted
        · exact unwanted (.inr ⟨s, mem, _, rfl⟩) wanted
        · exact unwanted (.inr ⟨s, mem, _, rfl⟩) wanted
  · have silent := parseQuery_refused responding wellFormed accepted
    exact ⟨iff_of_false (nothing silent _) fun right => accepted right.1,
      iff_of_false (nothing silent _) fun right => accepted right.1⟩

/-- esp.local -/
def espLocal : RRDomain := (buildDomainForHost established.hostname).getD .cleared

/-- web._http._tcp.local -/
def web : Service := allocService [0x77, 0x65, 0x62] false [0x68, 0x74, 0x74, 0x70]
  [0x74, 0x63, 0x70] 80

/-- A question for the instances of the service. -/
def typeQuery : Query where
  id := 0
  remoteAddress := 0x0304a8c0
  remotePort := mqueryPort
  questionCount := 1
  questions := [⟨⟨web.buildDomain false, typePTR, classIN⟩, false⟩]
  recordCount := 0
  records := []

/-- Nobody asks for the port that is sent with the name of the instance. -/
theorem known_answers_left_out_additional :
    ¬ ∀ record, (∃ message, (established.parseQuery typeQuery).1 = some message ∧
        record ∈ message.answers ++ message.additional) ↔
      established.Holds espLocal typeQuery.parameter record ∧ typeQuery.Asks record ∧
        ¬ typeQuery.Knows record := by
  intro every
  have sent : ∃ message, (established.parseQuery typeQuery).1 = some message ∧
      serviceRecord espLocal typeQuery.parameter web .srv ∈
        message.answers ++ message.additional := ⟨_, rfl, by decide⟩
  obtain ⟨-, ⟨question, mem, asked⟩, -⟩ := (every _).mp sent
  rw [List.mem_singleton.mp mem] at asked
  exact absurd asked.2.1 (by decide)

/-- The port that a query asks for is answered. -/
theorem known_answers_left_out_established :
    ∃ message, (established.parseQuery (instanceQuery 1)).1 = some message ∧
      serviceRecord espLocal (instanceQuery 1).parameter web .srv ∈ message.answers := by
  have responding : established.Responding espLocal := by
    refine ⟨established_settled, rfl, rfl, fun s mem => ?_, fun s mem => ?_⟩
    · rw [List.mem_singleton.mp mem]
    · rw [List.mem_singleton.mp mem]
      exact ⟨List.nodup_nil, fun txt listed => (List.not_mem_nil listed).elim, by decide⟩
  have wellFormed : (instanceQuery 1).WellFormed :=
    ⟨rfl, rfl, fun known listed => (List.not_mem_nil listed).elim⟩
  refine (known_answers_left_out responding wellFormed rfl _).1.mpr ⟨.inl rfl, ?_, ?_, ?_⟩
  · exact .inr ⟨_, List.mem_singleton_self _, .srv, by decide⟩
  · exact ⟨_, List.mem_singleton_self _, .inl rfl, .inl rfl, by decide⟩
  · rintro ⟨known, listed, -⟩
    exact List.not_mem_nil listed

end Responder

end Esp8266.Source.Mdns
