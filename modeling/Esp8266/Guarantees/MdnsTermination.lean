import Esp8266.Lib.FirstMatch
import Esp8266.Source.MdnsAnswers

/-!
# When the answers of a response are processed to an end

The loop of `_processAnswers` looks only at the service domains, host domains and ports that are
stored. A round adds the service domains of all pointers that are asked for, the next one settles
the service records on them, and a third finds nothing new, unless two records name one service
domain and differ: then each replaces what the other stored, in every round.
-/
set_option autoImplicit false

namespace Esp8266.Source.Mdns
open Esp8266.Lib.FirstMatch Esp8266.Source.WString

/-! ## Domains -/

def Label.key (label : Label) : Nat × WString := (label.1.length, (cstr label.1).map toLower)

/-- What `compare` looks at. -/
def RRDomain.key : RRDomain → Option (List (Nat × WString))
  | .cleared => none
  | .named labels => some (labels.map Label.key)

theorem compareLabels_iff (labels : List Label) :
    ∀ others, compareLabels labels others = true ↔ labels.map Label.key = others.map Label.key := by
  induction labels with
  | nil => intro others; cases others <;> simp [compareLabels]
  | cons label labels ih =>
    intro others
    cases others with
    | nil => simp [compareLabels]
    | cons other others =>
      simp [compareLabels, ih others, Label.key, sameContent, Prod.ext_iff]

theorem RRDomain.compare_iff (domain other : RRDomain) :
    domain.compare other = true ↔ domain.key = other.key := by
  cases domain with
  | cleared => cases other <;> simp [compare, nameLength, labels, key, compareLabels]
  | named labels =>
    cases other with
    | cleared => simp [compare, nameLength, key]
    | named others =>
      have lengths : labels.map Label.key = others.map Label.key →
          nameLength (.named labels) = nameLength (.named others) := by
        intro same
        have := congrArg (List.map fun key : Nat × WString => key.1 + 1) same
        simp only [List.map_map] at this
        exact congrArg (·.sum + 1) this
      simp only [compare, RRDomain.labels, key, Bool.and_eq_true, decide_eq_true_eq,
        compareLabels_iff, Option.some.injEq]
      exact ⟨fun same => same.2, fun same => ⟨lengths same, same⟩⟩

@[simp] theorem RRDomain.compare_refl (domain : RRDomain) : domain.compare domain = true :=
  (compare_iff _ _).mpr rfl

theorem RRDomain.compare_symm {domain other : RRDomain} (same : domain.compare other = true) :
    other.compare domain = true :=
  (compare_iff _ _).mpr ((compare_iff _ _).mp same).symm

theorem RRDomain.compare_trans {domain other third : RRDomain}
    (same : domain.compare other = true) (next : other.compare third = true) :
    domain.compare third = true :=
  (compare_iff _ _).mpr (((compare_iff _ _).mp same).trans ((compare_iff _ _).mp next))

theorem RRDomain.compare_congr {domain other : RRDomain} (same : domain.compare other = true)
    (third : RRDomain) : third.compare domain = third.compare other := by
  rw [Bool.eq_iff_iff, compare_iff, compare_iff, (compare_iff _ _).mp same]

/-! ## What the loop looks at -/

/-- The service domain, the host domain and the port of an answer. -/
structure AnswerKey where
  serviceDomain : RRDomain
  hostDomain : RRDomain
  port : UInt16

def Answer.key (answer : Answer) : AnswerKey :=
  ⟨answer.serviceDomain, answer.hostDomain, answer.port⟩

namespace ServiceQuery

def keys (q : ServiceQuery) : List AnswerKey := q.answers.map Answer.key

/-- The answer that is found for a service domain. -/
def found (q : ServiceQuery) (domain : RRDomain) : Option Answer :=
  q.answers.find? fun answer => answer.serviceDomain.compare domain

/-- The query has an answer for the service domain. -/
def Has (q : ServiceQuery) (domain : RRDomain) : Prop := (q.found domain).isSome

theorem found_key (q : ServiceQuery) (domain : RRDomain) :
    (q.found domain).map Answer.key = q.keys.find? fun key => key.serviceDomain.compare domain := by
  rw [keys, List.find?_map]
  rfl

theorem found_congr (q : ServiceQuery) {domain other : RRDomain}
    (same : domain.compare other = true) : q.found domain = q.found other := by
  unfold found
  congr 1
  funext answer
  exact RRDomain.compare_congr same _

end ServiceQuery

/-- The host domain and the port of a service record are stored. -/
def Answer.Agrees (answer : Answer) (port : UInt16) (srvDomain : RRDomain) : Prop :=
  answer.hostDomain.compare srvDomain = true ∧ answer.port = port

theorem Answer.differs_eq_false {answer : Answer} {port : UInt16} {srvDomain : RRDomain} :
    answer.differs port srvDomain = false ↔ answer.Agrees port srvDomain := by
  simp [differs, Agrees]

/-! ## One record -/

/-- A record that makes an answer for the service domain if there is none. -/
def RRAnswer.Names (q : ServiceQuery) (domain : RRDomain) : RRAnswer → Prop
  | .ptr type ttl ptrDomain =>
    ttl ≠ 0 ∧ q.awaitingAnswers = true ∧ RRDomain.compare type q.serviceTypeDomain = true ∧
      RRDomain.compare ptrDomain domain = true
  | _ => False

/-- A query keeps what it asks for. -/
structure SameQuery (q q' : ServiceQuery) : Prop where
  type : q'.serviceTypeDomain = q.serviceTypeDomain
  awaiting : q'.awaitingAnswers = q.awaitingAnswers

theorem SameQuery.refl (q : ServiceQuery) : SameQuery q q := ⟨rfl, rfl⟩

theorem SameQuery.trans {q q' q'' : ServiceQuery} (first : SameQuery q q')
    (second : SameQuery q' q'') : SameQuery q q'' :=
  ⟨second.type.trans first.type, second.awaiting.trans first.awaiting⟩

theorem RRAnswer.names_congr {q q' : ServiceQuery} (same : SameQuery q q') (domain : RRDomain)
    (record : RRAnswer) : record.Names q' domain ↔ record.Names q domain := by
  cases record <;> simp only [Names, same.type, same.awaiting]

theorem modifyAnswer_keys {q : ServiceQuery} {i : Nat} {f : Answer → Answer}
    (same : ∀ answer, q.answers[i]? = some answer → (f answer).key = answer.key) :
    (q.modifyAnswer i f).keys = q.keys :=
  map_modify same

/-- The changed answer is found for the domains it was found for. -/
theorem found_modifyAnswer {q : ServiceQuery} {i : Nat} {f : Answer → Answer} {domain : RRDomain}
    (index : q.findAnswerForServiceDomain domain = some i)
    (keeps : ∀ answer, (f answer).serviceDomain = answer.serviceDomain) (other : RRDomain) :
    (q.modifyAnswer i f).found other =
      if domain.compare other = true then (q.found other).map f else q.found other := by
  have keep : ∀ answer : Answer, answer.serviceDomain.compare domain = true →
      (f answer).serviceDomain.compare domain = true := by
    intro answer holds
    rwa [keeps]
  split
  · rename_i same
    rw [← ServiceQuery.found_congr _ same, ← ServiceQuery.found_congr _ same]
    exact find?_modify_same index keep
  · rename_i apart
    refine find?_modify_other index keep fun answer holds => ?_
    rw [Bool.eq_false_iff]
    exact fun also => apart (RRDomain.compare_trans (RRDomain.compare_symm holds) also)

theorem processSRV_serviceDomain (now ttl : UInt32) (port : UInt16) (srvDomain : RRDomain)
    (answer : Answer) :
    (answer.processSRV now ttl port srvDomain).serviceDomain = answer.serviceDomain := by
  unfold Answer.processSRV
  dsimp only
  split <;> rfl

theorem processSRV_key {now ttl : UInt32} {port : UInt16} {srvDomain : RRDomain} {answer : Answer}
    (quiet : (ttl ≠ 0 && answer.differs port srvDomain) = false) :
    (answer.processSRV now ttl port srvDomain).key = answer.key := by
  unfold Answer.processSRV
  dsimp only
  rw [if_neg]
  · rfl
  · simpa using quiet

theorem processSRV_agrees {ttl : UInt32} (now : UInt32) (port : UInt16) (srvDomain : RRDomain)
    (valid : ttl ≠ 0) (answer : Answer) :
    (answer.processSRV now ttl port srvDomain).Agrees port srvDomain := by
  unfold Answer.processSRV
  dsimp only
  split
  · exact ⟨RRDomain.compare_refl _, rfl⟩
  · rename_i kept
    have settled : answer.differs port srvDomain = false := by simpa [valid] using kept
    exact Answer.differs_eq_false.mp settled

theorem processTXT_key (now ttl : UInt32) (txts : Txts) (answer : Answer) :
    (answer.processTXT now ttl txts).key = answer.key := by
  unfold Answer.processTXT
  dsimp only
  split <;> rfl

theorem processA_key (now ttl ipAddress : UInt32) (answer : Answer) :
    (answer.processA now ttl ipAddress).key = answer.key := by
  unfold Answer.processA
  split
  · rfl
  · split <;> rfl

theorem processTXTAnswer_keys (now : UInt32) (domain : RRDomain) (ttl : UInt32) (txts : Txts)
    (q : ServiceQuery) :
    (processTXTAnswer now domain ttl txts q).keys = q.keys ∧
      SameQuery q (processTXTAnswer now domain ttl txts q) := by
  unfold processTXTAnswer
  split
  · exact ⟨modifyAnswer_keys fun answer _ => processTXT_key _ _ _ _, rfl, rfl⟩
  · exact ⟨rfl, .refl q⟩

theorem processAAnswer_keys (now : UInt32) (domain : RRDomain) (ttl ipAddress : UInt32)
    (q : ServiceQuery) :
    (processAAnswer now domain ttl ipAddress q).keys = q.keys ∧
      SameQuery q (processAAnswer now domain ttl ipAddress q) := by
  unfold processAAnswer
  split
  · exact ⟨modifyAnswer_keys fun answer _ => processA_key _ _ _ _, rfl, rfl⟩
  · exact ⟨rfl, .refl q⟩

/-- What a pointer does: nothing to the keys, or an answer in front that was missing. -/
theorem processPTRAnswer_cases (now : UInt32) (type : Name) (ttl : UInt32)
    (ptrDomain : Name) (q : ServiceQuery) :
    SameQuery q (processPTRAnswer now type ttl ptrDomain q).2 ∧
    (((processPTRAnswer now type ttl ptrDomain q).1 = false ∧
        (processPTRAnswer now type ttl ptrDomain q).2.keys = q.keys ∧
        (RRAnswer.Names q ptrDomain (.ptr type ttl ptrDomain) → q.Has ptrDomain)) ∨
      ((processPTRAnswer now type ttl ptrDomain q).1 = true ∧
        RRAnswer.Names q ptrDomain (.ptr type ttl ptrDomain) ∧ ¬ q.Has ptrDomain ∧
        (processPTRAnswer now type ttl ptrDomain q).2.keys =
          ⟨ptrDomain, .cleared, 0⟩ :: q.keys)) := by
  unfold processPTRAnswer
  split
  · rename_i asked
    rw [Bool.and_eq_true] at asked
    split
    · rename_i i index
      obtain ⟨answer, -, -, finds⟩ := find?_of_findIdx? index
      refine ⟨⟨rfl, rfl⟩, .inl ⟨rfl, modifyAnswer_keys fun _ _ => rfl, fun _ => ?_⟩⟩
      rw [ServiceQuery.Has, ServiceQuery.found, finds]
      rfl
    · rename_i missing
      have none := find?_of_findIdx?_none missing
      split
      · rename_i valid
        refine ⟨⟨rfl, rfl⟩, .inr ⟨rfl, ⟨valid, asked.2, asked.1, RRDomain.compare_refl _⟩, ?_, rfl⟩⟩
        rw [ServiceQuery.Has, ServiceQuery.found, none]
        decide
      · rename_i goodbye
        exact ⟨.refl q, .inl ⟨rfl, rfl, fun names => absurd names.1 goodbye⟩⟩
  · rename_i unasked
    refine ⟨.refl q, .inl ⟨rfl, rfl, fun names => absurd ?_ unasked⟩⟩
    rw [Bool.and_eq_true]
    exact ⟨names.2.2.1, names.2.1⟩

/-- What a service record does to the answers that are found. -/
theorem processSRVAnswer_found (now : UInt32) (domain : RRDomain) (ttl : UInt32) (port : UInt16)
    (srvDomain : RRDomain) (q : ServiceQuery) (other : RRDomain) :
    (processSRVAnswer now domain ttl port srvDomain q).2.found other =
      if domain.compare other = true then
        (q.found other).map (Answer.processSRV now ttl port srvDomain)
      else q.found other := by
  unfold processSRVAnswer
  split
  · rename_i i index
    exact found_modifyAnswer index (processSRV_serviceDomain _ _ _ _) other
  · rename_i missing
    split
    · rename_i same
      have : q.found other = none := by
        rw [← ServiceQuery.found_congr q same]
        exact find?_of_findIdx?_none missing
      rw [this]
      rfl
    · rfl

theorem processSRVAnswer_fst (now : UInt32) (domain : RRDomain) (ttl : UInt32) (port : UInt16)
    (srvDomain : RRDomain) (q : ServiceQuery) :
    (processSRVAnswer now domain ttl port srvDomain q).1 =
      (ttl ≠ 0 && (q.found domain).any fun answer => answer.differs port srvDomain) := by
  unfold processSRVAnswer
  split
  · rename_i i index
    obtain ⟨answer, at_i, -, finds⟩ := find?_of_findIdx? index
    rw [ServiceQuery.found, finds, at_i]
  · rename_i missing
    rw [ServiceQuery.found, find?_of_findIdx?_none missing]
    simp

theorem processSRVAnswer_same (now : UInt32) (domain : RRDomain) (ttl : UInt32) (port : UInt16)
    (srvDomain : RRDomain) (q : ServiceQuery) :
    SameQuery q (processSRVAnswer now domain ttl port srvDomain q).2 := by
  unfold processSRVAnswer
  split
  · exact ⟨rfl, rfl⟩
  · exact .refl q

theorem processSRVAnswer_keys {now : UInt32} {domain : RRDomain} {ttl : UInt32} {port : UInt16}
    {srvDomain : RRDomain} {q : ServiceQuery}
    (quiet : (processSRVAnswer now domain ttl port srvDomain q).1 = false) :
    (processSRVAnswer now domain ttl port srvDomain q).2.keys = q.keys := by
  unfold processSRVAnswer at *
  split
  · rename_i i index
    rw [index] at quiet
    refine modifyAnswer_keys fun answer at_i => processSRV_key ?_
    simpa only [at_i, Option.any_some] using quiet
  · rfl

theorem processRecord_same (now : UInt32) (record : RRAnswer) (q : ServiceQuery) :
    SameQuery q (processRecord now record q).2 := by
  cases record with
  | ptr type ttl ptrDomain => exact (processPTRAnswer_cases now type ttl ptrDomain q).1
  | srv domain ttl port srvDomain => exact processSRVAnswer_same now domain ttl port srvDomain q
  | txt domain ttl txts => exact (processTXTAnswer_keys now domain ttl txts q).2
  | a domain ttl ipAddress => exact (processAAnswer_keys now domain ttl ipAddress q).2
  | generic domain ttl => exact .refl q

/-- A record that found no new key answer changed none. -/
theorem processRecord_quiet {now : UInt32} {record : RRAnswer} {q : ServiceQuery}
    (quiet : (processRecord now record q).1 = false) :
    (processRecord now record q).2.keys = q.keys := by
  cases record with
  | ptr type ttl ptrDomain =>
    rcases (processPTRAnswer_cases now type ttl ptrDomain q).2 with ⟨-, same, -⟩ | ⟨new, -⟩
    · exact same
    · exact absurd (quiet.symm.trans new) (by decide)
  | srv domain ttl port srvDomain => exact processSRVAnswer_keys quiet
  | txt domain ttl txts => exact (processTXTAnswer_keys now domain ttl txts q).1
  | a domain ttl ipAddress => exact (processAAnswer_keys now domain ttl ipAddress q).1
  | generic domain ttl => rfl

theorem has_of_keys {q q' : ServiceQuery} (same : q'.keys = q.keys) (domain : RRDomain) :
    q'.Has domain ↔ q.Has domain := by
  rw [ServiceQuery.Has, ServiceQuery.Has, ← Option.isSome_map (f := Answer.key),
    ← Option.isSome_map (x := q.found domain) (f := Answer.key), ServiceQuery.found_key,
    ServiceQuery.found_key, same]

/-- Which service domains have an answer behind a record. -/
theorem processRecord_has (now : UInt32) (record : RRAnswer) (q : ServiceQuery)
    (domain : RRDomain) :
    (processRecord now record q).2.Has domain ↔ q.Has domain ∨ record.Names q domain := by
  cases record with
  | ptr type ttl ptrDomain =>
    rcases (processPTRAnswer_cases now type ttl ptrDomain q).2 with
      ⟨-, same, already⟩ | ⟨-, names, missing, new⟩
    · rw [processRecord, has_of_keys same]
      refine ⟨.inl, fun either => either.elim id fun names => ?_⟩
      have same := names.2.2.2
      have has := already ⟨names.1, names.2.1, names.2.2.1, RRDomain.compare_refl _⟩
      rwa [ServiceQuery.Has, ServiceQuery.found_congr q same] at has
    · rw [processRecord, ServiceQuery.Has, ← Option.isSome_map (f := Answer.key),
        ServiceQuery.found_key, new, List.find?_cons]
      have rest : (q.keys.find? fun key => key.serviceDomain.compare domain).isSome ↔
          q.Has domain := by
        rw [← ServiceQuery.found_key, Option.isSome_map, ServiceQuery.Has]
      cases same : RRDomain.compare ptrDomain domain with
      | true =>
        simp only [Option.isSome_some, true_iff]
        exact .inr ⟨names.1, names.2.1, names.2.2.1, same⟩
      | false =>
        rw [rest]
        refine ⟨.inl, fun either => either.elim id fun named => ?_⟩
        exact absurd (same.symm.trans named.2.2.2) (by decide)
  | srv domain' ttl port srvDomain =>
    rw [processRecord, ServiceQuery.Has, processSRVAnswer_found]
    have : ¬ RRAnswer.Names q domain (.srv domain' ttl port srvDomain) := id
    split
    · rw [Option.isSome_map, ServiceQuery.Has]
      simp [this]
    · rw [ServiceQuery.Has]
      simp [this]
  | txt domain' ttl txts =>
    rw [processRecord, has_of_keys (processTXTAnswer_keys now domain' ttl txts q).1]
    exact ⟨.inl, fun either => either.elim id False.elim⟩
  | a domain' ttl ipAddress =>
    rw [processRecord, has_of_keys (processAAnswer_keys now domain' ttl ipAddress q).1]
    exact ⟨.inl, fun either => either.elim id False.elim⟩
  | generic domain' ttl => exact ⟨.inl, fun either => either.elim id False.elim⟩

/-! ## Rounds -/

/-- A round of the loop with one query. -/
def round (clock : Nat → UInt32) : List RRAnswer → ServiceQuery → Bool × ServiceQuery
  | [], q => (false, q)
  | record :: records, q =>
    let (found, q) := processRecord (clock 0) record q
    let (foundMore, q) := round (fun n => clock (n + 1)) records q
    (found || foundMore, q)

/-- The queries do not see each other. -/
theorem processAll_eq (records : List RRAnswer) : ∀ (clock : Nat → UInt32)
    (queries : List ServiceQuery), processAll clock records queries =
      (queries.any fun q => (round clock records q).1,
        queries.map fun q => (round clock records q).2) := by
  induction records with
  | nil =>
    intro clock queries
    have none : (queries.any fun q => (round clock [] q).1) = false := by simp [round]
    have same : (queries.map fun q => (round clock [] q).2) = queries := by simp [round]
    rw [none, same, processAll]
  | cons record records ih =>
    intro clock queries
    have found : (queries.any fun q => (round clock (record :: records) q).1) =
        ((queries.any fun q => (processRecord (clock 0) record q).1) ||
          queries.any fun q => (round (fun n => clock (n + 1)) records
            (processRecord (clock 0) record q).2).1) := by
      rw [Bool.eq_iff_iff]
      simp only [round, List.any_eq_true, Bool.or_eq_true, and_or_left, exists_or]
    rw [found, processAll, processQueries]
    dsimp only
    rw [ih]
    simp only [List.any_map, List.map_map, round]
    rfl

/-- The service domain has an answer behind a round. -/
def Gets (records : List RRAnswer) (q : ServiceQuery) (domain : RRDomain) : Prop :=
  q.Has domain ∨ ∃ record ∈ records, record.Names q domain

theorem round_same (records : List RRAnswer) : ∀ (clock : Nat → UInt32) (q : ServiceQuery),
    SameQuery q (round clock records q).2 := by
  induction records with
  | nil => intro clock q; exact .refl q
  | cons record records ih =>
    intro clock q
    exact (processRecord_same (clock 0) record q).trans (ih _ _)

theorem round_has (records : List RRAnswer) : ∀ (clock : Nat → UInt32) (q : ServiceQuery)
    (domain : RRDomain), (round clock records q).2.Has domain ↔ Gets records q domain := by
  induction records with
  | nil => intro clock q domain; simp [round, Gets]
  | cons record records ih =>
    intro clock q domain
    have names := RRAnswer.names_congr (processRecord_same (clock 0) record q) domain
    rw [round]
    dsimp only
    rw [ih, Gets, processRecord_has, Gets]
    simp only [names, List.mem_cons, exists_eq_or_imp, or_assoc]

/-- In a round that finds nothing new each record was processed with the keys of its start. -/
theorem round_quiet {records : List RRAnswer} : ∀ {clock : Nat → UInt32} {q : ServiceQuery},
    (round clock records q).1 = false → ∀ record ∈ records, ∃ now, ∃ q' : ServiceQuery,
      q'.keys = q.keys ∧ SameQuery q q' ∧ (processRecord now record q').1 = false := by
  induction records with
  | nil => intro clock q quiet record mem; cases mem
  | cons first records ih =>
    intro clock q quiet record mem
    rw [round] at quiet
    dsimp only at quiet
    rw [Bool.or_eq_false_iff] at quiet
    rcases List.mem_cons.mp mem with rfl | later
    · exact ⟨clock 0, q, rfl, .refl q, quiet.1⟩
    · obtain ⟨now, q', keys, same, none⟩ := ih quiet.2 record later
      exact ⟨now, q', keys.trans (processRecord_quiet quiet.1),
        (processRecord_same _ _ _).trans same, none⟩

/-! ## Records that contradict each other -/

/-- Two service records with a time to live are about one service domain and differ. -/
def RRAnswer.Contradicts : RRAnswer → RRAnswer → Prop
  | .srv domain ttl port srvDomain, .srv domain' ttl' port' srvDomain' =>
    ttl ≠ 0 ∧ ttl' ≠ 0 ∧ RRDomain.compare domain domain' = true ∧
      ¬ (RRDomain.compare srvDomain srvDomain' = true ∧ port = port')
  | _, _ => False

/-- `m_Header.m_Domain`. -/
def RRAnswer.domain : RRAnswer → RRDomain
  | .ptr domain .. | .srv domain .. | .txt domain .. | .a domain .. | .generic domain _ => domain

/-- The response contradicts itself about a service domain for which the query has an answer, or
gets one by a pointer of the response. -/
def Conflict (records : List RRAnswer) (q : ServiceQuery) : Prop :=
  ∃ first ∈ records, ∃ second ∈ records, first.Contradicts second ∧ Gets records q first.domain

theorem conflict_congr {records : List RRAnswer} {q q' : ServiceQuery}
    (gets : ∀ domain, Gets records q' domain ↔ Gets records q domain) :
    Conflict records q' ↔ Conflict records q := by
  simp only [Conflict, gets]

theorem round_gets (clock : Nat → UInt32) (records : List RRAnswer) (q : ServiceQuery)
    (domain : RRDomain) :
    Gets records (round clock records q).2 domain ↔ Gets records q domain := by
  have names := RRAnswer.names_congr (round_same records clock q) domain
  rw [Gets, round_has]
  simp only [names]
  exact ⟨fun either => either.elim id .inr, .inl⟩

/-- A service record that finds nothing new agrees with the answer. -/
theorem srv_quiet {now : UInt32} {domain : Name} {ttl : UInt32} {port : UInt16}
    {srvDomain : Name} {q : ServiceQuery} (valid : ttl ≠ 0)
    (quiet : (processRecord now (.srv domain ttl port srvDomain) q).1 = false)
    {key : AnswerKey} (finds : (q.found domain).map Answer.key = some key) :
    key.hostDomain.compare srvDomain = true ∧ key.port = port := by
  obtain ⟨answer, found, rfl⟩ := Option.map_eq_some_iff.mp finds
  rw [processRecord, processSRVAnswer_fst, found] at quiet
  refine Answer.differs_eq_false.mp ?_
  simpa [valid] using quiet

/-- In every round a conflict is news. -/
theorem round_conflict (clock : Nat → UInt32) {records : List RRAnswer} {q : ServiceQuery}
    (conflict : Conflict records q) : (round clock records q).1 = true := by
  by_contra ends
  have quiet := round_quiet (Bool.eq_false_iff.mpr ends)
  obtain ⟨first, inFirst, second, inSecond, contradicts, gets⟩ := conflict
  have has : q.Has first.domain := by
    rcases gets with has | ⟨pointer, mem, names⟩
    · exact has
    · obtain ⟨now, q', keys, same, none⟩ := quiet pointer mem
      have behind := (processRecord_has now pointer q' first.domain).mpr
        (.inr ((RRAnswer.names_congr same _ _).mpr names))
      rwa [has_of_keys (processRecord_quiet none), has_of_keys keys] at behind
  cases first with
  | srv domain ttl port srvDomain =>
    cases second with
    | srv domain' ttl' port' srvDomain' =>
      obtain ⟨valid, valid', same, differ⟩ := contradicts
      obtain ⟨answer, finds⟩ := Option.isSome_iff_exists.mp has
      have stored : ∀ q' : ServiceQuery, q'.keys = q.keys →
          (q'.found domain).map Answer.key = some answer.key := by
        intro q' keys
        rw [ServiceQuery.found_key, keys, ← ServiceQuery.found_key]
        exact congrArg (Option.map Answer.key) finds
      obtain ⟨now, q₁, keys₁, -, quiet₁⟩ := quiet _ inFirst
      obtain ⟨now', q₂, keys₂, -, quiet₂⟩ := quiet _ inSecond
      have agrees := srv_quiet valid quiet₁ (stored q₁ keys₁)
      have agrees' := srv_quiet valid' quiet₂
        (by rw [← ServiceQuery.found_congr q₂ same]; exact stored q₂ keys₂)
      exact differ ⟨RRDomain.compare_trans (RRDomain.compare_symm agrees.1) agrees'.1,
        agrees.2.symm.trans agrees'.2⟩
    | _ => exact contradicts.elim
  | _ => exact contradicts.elim

/-- With a conflict the loop does not end. -/
theorem processAnswers_conflict (records : List RRAnswer) : ∀ (fuel : Nat)
    (clock : Nat → UInt32) (queries : List ServiceQuery),
    (∃ q ∈ queries, Conflict records q) → processAnswers clock records fuel queries = none := by
  intro fuel
  induction fuel with
  | zero => intro clock queries _; rfl
  | succ fuel ih =>
    intro clock queries ⟨q, mem, conflict⟩
    have news : (queries.any fun q => (round clock records q).1) = true :=
      List.any_eq_true.mpr ⟨q, mem, round_conflict clock conflict⟩
    rw [processAnswers, processAll_eq]
    dsimp only
    rw [if_pos news]
    exact ih _ _ ⟨_, List.mem_map_of_mem mem,
      (conflict_congr (round_gets clock records q)).mpr conflict⟩

/-! ## Responses without a contradiction -/

/-- All pointers that are asked for have their answer. -/
def Served (records : List RRAnswer) (q : ServiceQuery) : Prop :=
  ∀ domain, Gets records q domain → q.Has domain

/-- The answers agree with these service records. -/
def Settled (records : List RRAnswer) (q : ServiceQuery) : Prop :=
  ∀ (domain : Name) ttl port (srvDomain : Name),
    .srv domain ttl port srvDomain ∈ records → ttl ≠ 0 → ∀ answer,
      q.found domain = some answer → answer.Agrees port srvDomain

theorem round_served (clock : Nat → UInt32) (records : List RRAnswer) (q : ServiceQuery) :
    Served records (round clock records q).2 := by
  intro domain gets
  rw [round_gets] at gets
  exact (round_has records clock q domain).mpr gets

theorem settled_congr {records : List RRAnswer} {q q' : ServiceQuery} (keys : q'.keys = q.keys) :
    Settled records q' ↔ Settled records q := by
  have one : ∀ {q q' : ServiceQuery}, q'.keys = q.keys → Settled records q →
      Settled records q' := by
    intro q q' keys settled domain ttl port srvDomain mem valid answer finds
    have stored : (q.found domain).map Answer.key = some answer.key := by
      rw [ServiceQuery.found_key, ← keys, ← ServiceQuery.found_key, finds]
      rfl
    obtain ⟨before, found, same⟩ := Option.map_eq_some_iff.mp stored
    have agrees := settled domain ttl port srvDomain mem valid before found
    simp only [Answer.key, AnswerKey.mk.injEq] at same
    exact ⟨same.2.1 ▸ agrees.1, same.2.2 ▸ agrees.2⟩
  exact ⟨one keys.symm, one keys⟩

/-- A record with a query that is served changes no keys, unless it is a service record. -/
theorem processRecord_served (now : UInt32) {record : RRAnswer} {q : ServiceQuery}
    (served : ∀ domain, record.Names q domain → q.Has domain) :
    (∃ domain ttl port srvDomain, record = .srv domain ttl port srvDomain) ∨
      (processRecord now record q).1 = false := by
  cases record with
  | ptr type ttl ptrDomain =>
    rcases (processPTRAnswer_cases now type ttl ptrDomain q).2 with ⟨none, -⟩ | ⟨-, names, has, -⟩
    · exact .inr none
    · exact absurd (served ptrDomain names) has
  | srv domain ttl port srvDomain => exact .inl ⟨_, _, _, _, rfl⟩
  | txt domain ttl txts => exact .inr rfl
  | a domain ttl ipAddress => exact .inr rfl
  | generic domain ttl => exact .inr rfl

theorem processRecord_gets (now : UInt32) {record : RRAnswer} {records : List RRAnswer}
    (mem : record ∈ records) (q : ServiceQuery) (domain : RRDomain) :
    Gets records (processRecord now record q).2 domain ↔ Gets records q domain := by
  have names := RRAnswer.names_congr (processRecord_same now record q) domain
  rw [Gets, processRecord_has, Gets]
  simp only [names]
  constructor
  · rintro ((has | named) | later)
    · exact .inl has
    · exact .inr ⟨record, mem, named⟩
    · exact .inr later
  · exact fun either => either.imp_left .inl

/-- A query is served, its answers agree with the records in `done`, and the response does not
contradict itself. -/
structure Settling (records done : List RRAnswer) (q : ServiceQuery) : Prop where
  served : Served records q
  consistent : ¬ Conflict records q
  settled : Settled done q

/-- The answer a service record leaves agrees with it and with those before. -/
theorem processSRV_settled {now : UInt32} {domain : Name} {ttl : UInt32} {port : UInt16}
    {srvDomain : Name} {records done : List RRAnswer} {q : ServiceQuery}
    (mem : .srv domain ttl port srvDomain ∈ records) (part : ∀ record ∈ done, record ∈ records)
    (state : Settling records done q) :
    Settled (done ++ [.srv domain ttl port srvDomain])
      (processSRVAnswer now domain ttl port srvDomain q).2 := by
  intro domain' ttl' port' srvDomain' inDone valid' answer' finds
  rw [List.mem_append, List.mem_singleton] at inDone
  rw [processSRVAnswer_found] at finds
  by_cases same : RRDomain.compare domain domain' = true
  · rw [if_pos same] at finds
    obtain ⟨answer, found, rfl⟩ := Option.map_eq_some_iff.mp finds
    by_cases valid : ttl ≠ 0
    · have agrees := processSRV_agrees now port srvDomain valid answer
      rcases inDone with before | this
      · have has : q.Has domain := by
          rw [ServiceQuery.Has, ServiceQuery.found_congr q same, found]
          rfl
        have consistent : RRDomain.compare srvDomain srvDomain' = true ∧ port = port' := by
          by_contra differ
          exact state.consistent ⟨_, mem, _, part _ before, ⟨valid, valid', same, differ⟩,
            .inl has⟩
        exact ⟨RRDomain.compare_trans agrees.1 consistent.1, agrees.2.trans consistent.2⟩
      · cases this
        exact agrees
    · rcases inDone with before | this
      · have key : (answer.processSRV now ttl port srvDomain).key = answer.key :=
          processSRV_key (by simp [not_not.mp valid])
        simp only [Answer.key, AnswerKey.mk.injEq] at key
        have agrees := state.settled _ _ _ _ before valid' answer found
        exact ⟨key.2.1 ▸ agrees.1, key.2.2 ▸ agrees.2⟩
      · cases this
        exact absurd valid' valid
  · rw [if_neg same] at finds
    rcases inDone with before | this
    · exact state.settled _ _ _ _ before valid' answer' finds
    · cases this
      exact absurd (RRDomain.compare_refl _) same

theorem processRecord_settling (now : UInt32) {record : RRAnswer} {records done : List RRAnswer}
    {q : ServiceQuery} (mem : record ∈ records) (part : ∀ record ∈ done, record ∈ records)
    (state : Settling records done q) :
    Settling records (done ++ [record]) (processRecord now record q).2 := by
  have gets := processRecord_gets now mem q
  refine ⟨fun domain got => ?_, fun conflict => ?_, ?_⟩
  · exact (processRecord_has now record q domain).mpr (.inl (state.served _ ((gets _).mp got)))
  · exact state.consistent ((conflict_congr gets).mp conflict)
  have names : ∀ domain, record.Names q domain → q.Has domain :=
    fun domain named => state.served domain (.inr ⟨record, mem, named⟩)
  rcases processRecord_served now names with ⟨domain, ttl, port, srvDomain, rfl⟩ | quiet
  · exact processSRV_settled mem part state
  · rw [settled_congr (processRecord_quiet quiet)]
    intro domain ttl port srvDomain inDone valid answer finds
    rw [List.mem_append, List.mem_singleton] at inDone
    rcases inDone with before | rfl
    · exact state.settled _ _ _ _ before valid answer finds
    · exact srv_quiet valid quiet (congrArg (Option.map Answer.key) finds)

theorem round_settling {records : List RRAnswer} : ∀ (rest done : List RRAnswer)
    (clock : Nat → UInt32) (q : ServiceQuery), (∀ record ∈ done ++ rest, record ∈ records) →
    Settling records done q → Settling records (done ++ rest) (round clock rest q).2 := by
  intro rest
  induction rest with
  | nil =>
    intro done clock q _ state
    rwa [List.append_nil]
  | cons record rest ih =>
    intro done clock q part state
    have mem := part record (by simp)
    have next := processRecord_settling (clock 0) mem
      (fun other inDone => part other (List.mem_append_left _ inDone)) state
    have shift : done ++ record :: rest = done ++ [record] ++ rest := by simp
    rw [shift] at part ⊢
    exact ih _ _ _ part next

/-- Behind a round in which the query was served it is settled. -/
theorem round_settled (clock : Nat → UInt32) {records : List RRAnswer} {q : ServiceQuery}
    (served : Served records q) (consistent : ¬ Conflict records q) :
    Settling records records (round clock records q).2 := by
  have start : Settling records [] q :=
    ⟨served, consistent, fun _ _ _ _ mem => absurd mem List.not_mem_nil⟩
  exact round_settling records [] clock q (fun _ mem => mem) start

/-- With a settled query a round finds nothing new. -/
theorem round_ends {records : List RRAnswer} : ∀ (rest : List RRAnswer) (clock : Nat → UInt32)
    (q : ServiceQuery), (∀ record ∈ rest, record ∈ records) → Settling records records q →
    (round clock rest q).1 = false := by
  intro rest
  induction rest with
  | nil => intro clock q _ _; rfl
  | cons record rest ih =>
    intro clock q part state
    have mem := part record List.mem_cons_self
    have names : ∀ domain, record.Names q domain → q.Has domain :=
      fun domain named => state.served domain (.inr ⟨record, mem, named⟩)
    have quiet : (processRecord (clock 0) record q).1 = false := by
      rcases processRecord_served (clock 0) names with
        ⟨domain, ttl, port, srvDomain, rfl⟩ | quiet
      · rw [processRecord, processSRVAnswer_fst, Bool.and_eq_false_iff]
        by_cases valid : ttl ≠ 0
        · right
          rw [Option.any_eq_false]
          intro answer finds
          exact Answer.differs_eq_false.mpr (state.settled _ _ _ _ mem valid answer finds)
        · left
          simpa using valid
      · exact quiet
    have keys := processRecord_quiet quiet
    have gets := processRecord_gets (clock 0) mem q
    have next : Settling records records (processRecord (clock 0) record q).2 :=
      ⟨fun domain got => (has_of_keys keys domain).mpr (state.served domain ((gets domain).mp got)),
        fun conflict => state.consistent ((conflict_congr gets).mp conflict),
        (settled_congr keys).mpr state.settled⟩
    rw [round]
    dsimp only
    rw [quiet, Bool.false_or]
    exact ih _ _ (fun other later => part other (List.mem_cons_of_mem _ later)) next

theorem processAnswers_step (clock : Nat → UInt32) (records : List RRAnswer) (fuel : Nat)
    (queries : List ServiceQuery) :
    (processAnswers clock records (fuel + 1) queries).isSome ↔
      (queries.any fun q => (round clock records q).1) = false ∨
      (processAnswers (fun n => clock (n + records.length)) records fuel
        (queries.map fun q => (round clock records q).2)).isSome := by
  rw [processAnswers, processAll_eq]
  dsimp only
  split
  · rename_i news
    simp [news]
  · rename_i quiet
    simp [Bool.eq_false_iff.mpr quiet]

/-- Without a conflict three rounds suffice. -/
theorem processAnswers_three (clock : Nat → UInt32) (records : List RRAnswer)
    (queries : List ServiceQuery) (consistent : ∀ q ∈ queries, ¬ Conflict records q) :
    (processAnswers clock records 3 queries).isSome := by
  rw [processAnswers_step]
  right
  rw [processAnswers_step]
  right
  rw [processAnswers_step]
  left
  rw [List.map_map, List.any_map, List.any_eq_false]
  intro q mem
  rw [Bool.not_eq_true]
  have second := round_settled (fun n => clock (n + records.length))
    (round_served clock records q)
    (fun conflict => consistent q mem ((conflict_congr (round_gets clock records q)).mp conflict))
  exact round_ends records _ _ (fun _ mem => mem) second

/-- The loop over the answers of a response ends exactly if no two service records with a time to
live contradict each other about a service domain that has, or gets, an answer. -/
theorem answers_processed (clock : Nat → UInt32) (records : List RRAnswer)
    (queries : List ServiceQuery) :
    (∃ fuel, (processAnswers clock records fuel queries).isSome) ↔
      ¬ ∃ q ∈ queries, Conflict records q := by
  constructor
  · rintro ⟨fuel, ends⟩ conflict
    rw [processAnswers_conflict records fuel clock queries conflict] at ends
    cases ends
  · intro consistent
    exact ⟨3, processAnswers_three clock records queries
      fun q mem conflict => consistent ⟨q, mem, conflict⟩⟩

/-- One host announces an instance of `_h` with two ports, and the loop does not end. -/
theorem answers_alternate :
    let type : Name := [⟨ofString "_h", by decide⟩]
    let instanceDomain : Name := [⟨ofString "x", by decide⟩, ⟨ofString "_h", by decide⟩]
    let host : Name := [⟨ofString "host", by decide⟩]
    let query : ServiceQuery := ⟨type, false, 0, .reset 0 0xffffffff, true, []⟩
    ¬ ∃ fuel, (processAnswers (fun _ => 0) [.ptr type 120 instanceDomain,
      .srv instanceDomain 120 80 host, .srv instanceDomain 120 81 host] fuel [query]).isSome := by
  rintro type instanceDomain host query ⟨fuel, ends⟩
  have conflict : Conflict [.ptr type 120 instanceDomain, .srv instanceDomain 120 80 host,
      .srv instanceDomain 120 81 host] query := by
    refine ⟨.srv instanceDomain 120 80 host, by simp, .srv instanceDomain 120 81 host, by simp,
      ⟨by decide, by decide, RRDomain.compare_refl _, fun same => absurd same.2 (by decide)⟩,
      .inr ⟨.ptr type 120 instanceDomain, by simp, by decide, rfl, RRDomain.compare_refl _,
        RRDomain.compare_refl _⟩⟩
  rw [processAnswers_conflict _ fuel _ _ ⟨query, by simp, conflict⟩] at ends
  cases ends

end Esp8266.Source.Mdns
