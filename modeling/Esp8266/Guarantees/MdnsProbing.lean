import Esp8266.Lib.Runs
import Esp8266.Source.MdnsResponder

/-!
# Names and probes of MDNSResponder

A name whose probing is done was asked for by three probes since it was set, and no answer and no
tiebreak spoke against it while it was probed, as long as no name takes over the count of the
messages that were sent for the one before.
-/
set_option autoImplicit false

namespace Esp8266.Source.Mdns
open Esp8266.Lib.Runs

/-! ## What a log says of a name -/

/-- The name that was set last. -/
def nameIn (o : Owner) : List Event → Option RRDomain
  | [] => none
  | .named o' domain _ :: rest => if o' = o then domain else nameIn o rest
  | _ :: rest => nameIn o rest

/-- A message is a probe for a name. -/
def Message.probes (domain : RRDomain) (m : Message) : Bool :=
  !m.response && m.questions.any fun question =>
    question.header.domain = domain && question.header.type = typeANY

/-- The probes for a name since it was set. -/
def probesIn (o : Owner) (domain : RRDomain) : List Event → Nat
  | [] => 0
  | .named o' _ _ :: rest => if o' = o then 0 else probesIn o domain rest
  | .sent m :: rest => probesIn o domain rest + if m.probes domain then 1 else 0
  | _ :: rest => probesIn o domain rest

/-- A record conflicts with a name that is probed. -/
def conflicts (o : Owner) (domain : RRDomain) (record : ResourceRecord) : Bool :=
  (match o with
    | .host => Responder.isAddress record
    | .service _ => Responder.isInstance record) && record.header.domain.compare domain

/-- An answer or a tiebreak speaks against a name since its probing started. -/
def contestedIn (o : Owner) (domain : RRDomain) : List Event → Bool
  | [] => false
  | .named o' _ _ :: rest => if o' = o then false else contestedIn o domain rest
  | .started o' :: rest => if o' = o then false else contestedIn o domain rest
  | .lost o' :: rest => o' = o || contestedIn o domain rest
  | .answer record :: rest => conflicts o domain record || contestedIn o domain rest
  | _ :: rest => contestedIn o domain rest

/-- The probing is done since the name was set. -/
def doneIn (o : Owner) : List Event → Bool
  | [] => false
  | .named o' _ _ :: rest => if o' = o then false else doneIn o rest
  | .done o' :: rest => o' = o || doneIn o rest
  | _ :: rest => doneIn o rest

/-- Each time probing is done, there were three probes for the name and nothing against it. -/
def Law (log : List Event) : Prop :=
  ∀ o rest, .done o :: rest <:+ log → ∃ domain, nameIn o rest = some domain ∧
    3 ≤ probesIn o domain rest ∧ contestedIn o domain rest = false

/-- No name takes over a count. -/
def Careful (log : List Event) : Prop :=
  ∀ o domain carried, .named o domain carried ∈ log → carried = 0

theorem Careful.tail {e : Event} {log : List Event} (careful : Careful (e :: log)) : Careful log :=
  fun o domain carried member => careful o domain carried (List.mem_cons_of_mem _ member)

/-- An event that says nothing about a name. -/
def Apart (o : Owner) (domain : Option RRDomain) : Event → Prop
  | .named o' _ _ | .started o' | .lost o' | .done o' => o' ≠ o
  | .answer record => ∀ d, domain = some d → conflicts o d record = false
  | .sent _ | .cancelled _ => True

def Event.carried : Event → UInt8
  | .named _ _ carried => carried
  | _ => 0

theorem careful_iff (log : List Event) : Careful log ↔ ∀ e ∈ log, e.carried = 0 := by
  refine ⟨fun careful e member => ?_, fun each o domain carried member => each _ member⟩
  cases e with
  | named o domain carried => exact careful o domain carried member
  | _ => rfl

instance (log : List Event) : Decidable (Careful log) :=
  decidable_of_iff (∀ e ∈ log, e.carried = 0) (careful_iff log).symm

theorem law_cons {e : Event} {log : List Event} (other : ∀ o, e ≠ .done o) (law : Law log) :
    Law (e :: log) := by
  intro o rest found
  rcases List.suffix_cons_iff.1 found with here | before
  · exact absurd (List.cons.inj here).1.symm (other o)
  · exact law o rest before

/-! ## The standing of a name -/

/-- What is known of a name; its count does not matter while its own callback says that probing is
done. Where there is slack, an answer may still speak against it. -/
structure Standing (slack : RRDomain → Bool) (finishing : Bool) (o : Owner)
    (probe : ProbeInformation) (domain : Option RRDomain) (log : List Event) : Prop where
  named : nameIn o log = domain
  counted : finishing = false →
    probe.probingStatus = .readyToStart ∨ probe.probingStatus = .inProgress →
      probe.sentCount.toNat ≤ (domain.map fun d => probesIn o d log).getD 0
  uncontested : probe.probingStatus = .inProgress → finishing = false ∧
    ∀ d, domain = some d → contestedIn o d log = true → slack d = true
  confirmed : probe.probingStatus = .done → domain ≠ none → doneIn o log = true

variable {slack : RRDomain → Bool} {finishing : Bool} {o : Owner} {probe : ProbeInformation}
  {domain : Option RRDomain} {log : List Event}

theorem apart_same {e : Event} (log : List Event) (apart : Apart o domain e) :
    nameIn o (e :: log) = nameIn o log ∧ (doneIn o (e :: log) = doneIn o log) ∧
      ∀ d, domain = some d → probesIn o d log ≤ probesIn o d (e :: log) ∧
        contestedIn o d (e :: log) = contestedIn o d log := by
  cases e with
  | named o' d c => simp only [Apart] at apart; simp [nameIn, doneIn, probesIn, contestedIn, apart]
  | started o' => simp only [Apart] at apart; simp [nameIn, doneIn, probesIn, contestedIn, apart]
  | lost o' => simp only [Apart] at apart; simp [nameIn, doneIn, probesIn, contestedIn, apart]
  | done o' => simp only [Apart] at apart; simp [nameIn, doneIn, probesIn, contestedIn, apart]
  | answer record =>
    refine ⟨rfl, rfl, fun d known => ⟨Nat.le_refl _, ?_⟩⟩
    rw [contestedIn, apart d known, Bool.false_or]
  | sent m => exact ⟨rfl, rfl, fun d _ => ⟨Nat.le_add_right _ _, rfl⟩⟩
  | cancelled o' => exact ⟨rfl, rfl, fun d _ => ⟨Nat.le_refl _, rfl⟩⟩

theorem Standing.cons {e : Event} (apart : Apart o domain e)
    (standing : Standing slack finishing o probe domain log) :
    Standing slack finishing o probe domain (e :: log) := by
  obtain ⟨name, done, counts⟩ := apart_same log apart
  refine ⟨name.trans standing.named, fun behind active => ?_, fun active => ?_, fun status known =>
    done.trans (standing.confirmed status known)⟩
  · refine (standing.counted behind active).trans ?_
    cases domain with
    | none => exact Nat.le_refl _
    | some d => exact (counts d rfl).1
  · obtain ⟨behind, against⟩ := standing.uncontested active
    exact ⟨behind, fun d known contested =>
      against d known (((counts d known).2).symm.trans contested)⟩

theorem Standing.mono {slack' : RRDomain → Bool} (more : ∀ d, slack d = true → slack' d = true)
    (standing : Standing slack finishing o probe domain log) :
    Standing slack' finishing o probe domain log :=
  ⟨standing.named, standing.counted, fun active =>
    ⟨(standing.uncontested active).1, fun d known contested =>
      more d ((standing.uncontested active).2 d known contested)⟩, standing.confirmed⟩

/-- Only the status and the count matter. -/
theorem Standing.congr {probe' : ProbeInformation}
    (standing : Standing slack finishing o probe domain log)
    (status : probe'.probingStatus = probe.probingStatus)
    (count : probe'.sentCount = probe.sentCount) :
    Standing slack finishing o probe' domain log := by
  refine ⟨standing.named, ?_, ?_, ?_⟩
  · rw [status, count]
    exact standing.counted
  · rw [status]
    exact standing.uncontested
  · rw [status]
    exact standing.confirmed

/-- A name that waits for data. -/
theorem Standing.waiting (named : nameIn o log = domain)
    (status : probe.probingStatus = .waitingForData) :
    Standing slack finishing o probe domain log := by
  refine ⟨named, fun _ active => ?_, fun active => ?_, fun done => ?_⟩
  · rw [status] at active
    exact absurd active (by simp)
  · rw [status] at active
    exact absurd active (by simp)
  · rw [status] at done
    exact absurd done (by simp)

/-- A name that was just set. -/
theorem Standing.fresh {carried : UInt8} (count : finishing = false → probe.sentCount = 0)
    (status : probe.probingStatus = .readyToStart ∨
      domain = none ∧ (probe.probingStatus = .inProgress → finishing = false)) :
    Standing slack finishing o probe domain (.named o domain carried :: log) := by
  refine ⟨by simp [nameIn], fun behind _ => ?_, fun active => ?_, fun done known => ?_⟩
  · rw [count behind]
    exact Nat.zero_le _
  · rcases status with ready | ⟨none, behind⟩
    · rw [ready] at active
      exact absurd active (by simp)
    · exact ⟨behind active, fun d known contested => by simp [contestedIn] at contested⟩
  · rcases status with ready | ⟨none, _⟩
    · rw [ready] at done
      exact absurd done (by simp)
    · exact absurd none known

/-! ## The standing of all names -/

namespace Responder

def probeOf (o : Owner) (r : Responder) : Option ProbeInformation :=
  match o with
  | .host => some r.hostProbe
  | .service i => (r.services[i]?).map fun s => s.probe

def domainOf (o : Owner) (r : Responder) : Option RRDomain :=
  match o with
  | .host => r.hostDomain
  | .service i => (r.services[i]?).map fun s => s.buildDomain true

/-- Every name stands, if no name took over a count. -/
def Stands (slack : Owner → RRDomain → Bool) (finishing : Option Owner) (r : Responder) : Prop :=
  Careful r.log → Law r.log ∧ ∀ o probe, r.probeOf o = some probe →
    Standing (slack o) (decide (finishing = some o)) o probe (r.domainOf o) r.log

/-- A change of one probe. -/
def modifyOwner (o : Owner) (f : ProbeInformation → ProbeInformation) (r : Responder) : Responder :=
  match o with
  | .host => r.modifyHostProbe f
  | .service i => r.modifyProbe i f

theorem modifyOwner_log (o : Owner) (f : ProbeInformation → ProbeInformation) (r : Responder) :
    (r.modifyOwner o f).log = r.log := by
  cases o <;> rfl

theorem probeOf_modifyOwner (f : ProbeInformation → ProbeInformation) (r : Responder)
    (o k : Owner) : (r.modifyOwner o f).probeOf k =
      if o = k then (r.probeOf k).map f else r.probeOf k := by
  cases o with
  | host => cases k <;> rfl
  | service i =>
    cases k with
    | host => rfl
    | service k =>
      simp only [Owner.service.injEq]
      rw [probeOf, probeOf, modifyOwner, modifyProbe, getElem?_modifyService]
      split
      · rw [Option.map_map, Option.map_map]
        rfl
      · rfl

theorem domainOf_modifyOwner (f : ProbeInformation → ProbeInformation) (r : Responder)
    (o k : Owner) : (r.modifyOwner o f).domainOf k = r.domainOf k := by
  cases o with
  | host => cases k <;> rfl
  | service i =>
    cases k with
    | host => rfl
    | service k =>
      rw [domainOf, domainOf, modifyOwner, modifyProbe, getElem?_modifyService]
      split
      · rw [Option.map_map]
        rfl
      · rfl

/-- A change of one probe that leaves the others alone. -/
theorem Stands.modifyOwner {slack slack' : Owner → RRDomain → Bool} {o o' : Option Owner}
    {r : Responder} {f : ProbeInformation → ProbeInformation} (own : Owner)
    (stands : Stands slack o r) (others : ∀ k, k ≠ own → (o' = some k ↔ o = some k))
    (slacks : ∀ k, k ≠ own → ∀ d, slack k d = true → slack' k d = true)
    (here : ∀ probe, r.probeOf own = some probe →
      Standing (slack own) (decide (o = some own)) own probe (r.domainOf own) r.log →
      Standing (slack' own) (decide (o' = some own)) own (f probe) (r.domainOf own) r.log) :
    Stands slack' o' (r.modifyOwner own f) := by
  intro careful
  rw [modifyOwner_log] at careful ⊢
  obtain ⟨law, each⟩ := stands careful
  refine ⟨law, fun k probe found => ?_⟩
  rw [probeOf_modifyOwner] at found
  rw [domainOf_modifyOwner]
  split at found
  · rename_i same
    subst same
    obtain ⟨before, known, rfl⟩ := Option.map_eq_some_iff.1 found
    exact here before known (each own before known)
  · rename_i other
    have differ : k ≠ own := fun same => other same.symm
    have same := each k probe found
    rw [decide_eq_decide.2 (others k differ)]
    exact same.mono (slacks k differ)

/-- Slack matters only for a name that is probed. -/
theorem Stands.narrow {slack slack' : Owner → RRDomain → Bool} {o : Option Owner} {r : Responder}
    (stands : Stands slack o r)
    (narrow : ∀ k probe d, r.probeOf k = some probe → probe.probingStatus = .inProgress →
      r.domainOf k = some d → slack k d = true → slack' k d = true) : Stands slack' o r := by
  intro careful
  obtain ⟨law, each⟩ := stands careful
  refine ⟨law, fun k probe found => ?_⟩
  obtain ⟨named, counted, uncontested, confirmed⟩ := each k probe found
  exact ⟨named, counted, fun active => ⟨(uncontested active).1, fun d known contested =>
    narrow k probe d found active known ((uncontested active).2 d known contested)⟩, confirmed⟩

/-- An event of one owner that changes its probe. -/
theorem Stands.step {slack : Owner → RRDomain → Bool} {o o' : Option Owner} {r : Responder}
    {f : ProbeInformation → ProbeInformation} {e : Event} (own : Owner)
    (stands : Stands slack o r) (others : ∀ k, k ≠ own → (o' = some k ↔ o = some k))
    (apart : ∀ k, k ≠ own → Apart k (r.domainOf k) e)
    (here : ∀ probe, r.probeOf own = some probe → Law r.log →
      Standing (slack own) (decide (o = some own)) own probe (r.domainOf own) r.log →
      Law (e :: r.log) ∧ Standing (slack own) (decide (o' = some own)) own (f probe)
        (r.domainOf own) (e :: r.log))
    {probe : ProbeInformation} (owned : r.probeOf own = some probe) :
    Stands slack o' ((r.event e).modifyOwner own f) := by
  intro careful
  rw [modifyOwner_log] at careful ⊢
  obtain ⟨law, each⟩ := stands careful.tail
  obtain ⟨law', standing⟩ := here probe owned law (each own probe owned)
  refine ⟨law', fun k probe' found => ?_⟩
  rw [probeOf_modifyOwner] at found
  rw [domainOf_modifyOwner]
  split at found
  · rename_i same
    subst same
    obtain ⟨before, known, rfl⟩ := Option.map_eq_some_iff.1 found
    obtain rfl := Option.some.inj (owned.symm.trans known)
    exact standing
  · rename_i other
    have differ : k ≠ own := fun same => other same.symm
    rw [decide_eq_decide.2 (others k differ)]
    exact (each k probe' found).cons (apart k differ)

/-- An event that says nothing about any name. -/
theorem Stands.event {slack : Owner → RRDomain → Bool} {o : Option Owner} {r : Responder}
    {e : Event} (stands : Stands slack o r) (other : ∀ o, e ≠ .done o)
    (apart : ∀ k probe, r.probeOf k = some probe → Apart k (r.domainOf k) e) :
    Stands slack o (r.event e) := by
  intro careful
  obtain ⟨law, each⟩ := stands careful.tail
  exact ⟨law_cons other law, fun k probe found =>
    (each k probe found).cons (apart k probe found)⟩

theorem closed_stands (slack : Owner → RRDomain → Bool) : Closed (Stands slack) where
  oracles _ _ stands := stands
  hostNamed := fun {o r} name stands careful => by
    obtain ⟨law, each⟩ := stands careful.tail
    have carried := careful _ _ _ List.mem_cons_self
    refine ⟨law_cons (by simp) law, fun k probe found => ?_⟩
    cases k with
    | host =>
      obtain rfl := Option.some.inj found
      have before := each .host r.hostProbe rfl
      refine Standing.fresh (fun behind => ?_) ?_
      · rw [Responder.carried, if_neg (of_decide_eq_false behind)] at carried
        rw [renameHost]
        split
        · exact carried
        · exact carried
      · rw [renameHost]
        cases hostname? name with
        | none => exact Or.inr ⟨rfl, fun active => (before.uncontested active).1⟩
        | some hostname => exact Or.inl rfl
    | service k => exact (each (.service k) probe found).cons (by simp [Apart])
  serviceNamed := fun {o r} name i s found stands careful => by
    obtain ⟨law, each⟩ := stands careful.tail
    have carried := careful _ _ _ List.mem_cons_self
    refine ⟨law_cons (by simp) law, fun k probe known => ?_⟩
    cases k with
    | host => exact (each .host probe known).cons (by simp [Apart])
    | service k =>
      rw [renameService, probeOf, getElem?_modifyService] at known
      rw [renameService, domainOf, getElem?_modifyService]
      by_cases same : i = k
      · subst same
        rw [if_pos rfl] at known ⊢
        change ((r.services[i]?).map _).map _ = some probe at known
        change Standing _ _ _ _ (((r.services[i]?).map _).map _) _
        rw [found] at known ⊢
        obtain rfl := Option.some.inj known
        refine Standing.fresh (fun behind => ?_) (Or.inl rfl)
        rw [Responder.carried, if_neg (of_decide_eq_false behind)] at carried
        exact carried
      · rw [if_neg same] at known ⊢
        exact (each (.service k) probe known).cons (fun h => same (Owner.service.inj h))
  added := fun {o r} s mask probe stands careful => by
    obtain ⟨law, each⟩ := stands careful.tail
    refine ⟨law_cons (by simp) law, fun k probe' known => ?_⟩
    cases k with
    | host => exact (each .host probe' known).cons (by simp [Apart])
    | service k =>
      simp only [append, probeOf] at known
      simp only [append, domainOf]
      rcases Nat.lt_trichotomy k r.services.length with before | here | behind
      · rw [List.getElem?_append_left before] at known ⊢
        refine (each (.service k) probe' known).cons fun h => ?_
        rw [Owner.service.inj h] at before
        exact absurd before (Nat.lt_irrefl _)
      · subst here
        rw [List.getElem?_concat_length] at known ⊢
        obtain rfl := Option.some.inj known
        refine Standing.fresh (fun _ => ?_) (Or.inl ?_)
        · exact congrArg ProbeInformation.sentCount probe
        · exact congrArg ProbeInformation.probingStatus probe
      · rw [List.getElem?_eq_none (by simp; omega)] at known
        exact absurd known (by simp)
  hostTold set stands := stands.modifyOwner .host (fun _ _ => Iff.rfl) (fun _ _ _ more => more)
    fun probe _ standing => standing.congr rfl rfl
  serviceTold i set stands := stands.modifyOwner (.service i) (fun _ _ => Iff.rfl)
    (fun _ _ _ more => more)
    fun probe _ standing => standing.congr rfl rfl

/-! ### Probing that is cancelled -/

/-- No answer and no tiebreak may speak against any name. -/
def noSlack : Owner → RRDomain → Bool := fun _ _ => false

/-- A lost tiebreak speaks against the name. -/
theorem Stands.lost {o : Option Owner} {r : Responder} (against : Owner)
    (stands : Stands noSlack o r) :
    Stands (fun k _ => decide (against = k)) o (r.event (.lost against)) := by
  intro careful
  obtain ⟨law, each⟩ := stands careful.tail
  refine ⟨law_cons (by simp) law, fun k probe found => ?_⟩
  obtain ⟨named, counted, uncontested, confirmed⟩ := each k probe found
  refine ⟨named, counted, fun active => ⟨(uncontested active).1, fun d known contested => ?_⟩,
    confirmed⟩
  rw [Responder.event, contestedIn, Bool.or_eq_true] at contested
  rcases contested with here | before
  · exact here
  · exact absurd ((uncontested active).2 d known before) (by simp [noSlack])

/-- An answer speaks against the names that it conflicts with. -/
theorem Stands.answer {o : Option Owner} {r : Responder} (record : ResourceRecord)
    (stands : Stands noSlack o r) :
    Stands (fun k d => conflicts k d record) o (r.event (.answer record)) := by
  intro careful
  obtain ⟨law, each⟩ := stands careful.tail
  refine ⟨law_cons (by simp) law, fun k probe found => ?_⟩
  obtain ⟨named, counted, uncontested, confirmed⟩ := each k probe found
  refine ⟨named, counted, fun active => ⟨(uncontested active).1, fun d known contested => ?_⟩,
    confirmed⟩
  rw [Responder.event, contestedIn, Bool.or_eq_true] at contested
  rcases contested with here | before
  · exact here
  · exact absurd ((uncontested active).2 d known before) (by simp [noSlack])

theorem Stands.clearHost {slack slack' : Owner → RRDomain → Bool} {r : Responder}
    (stands : Stands slack none r)
    (slacks : ∀ k, k ≠ .host → ∀ d, slack k d = true → slack' k d = true) :
    Stands slack' none r.clearHost :=
  (stands.event (e := .cancelled .host) (by simp) fun _ _ _ => trivial).modifyOwner .host
    (fun _ _ => Iff.rfl) slacks fun _ _ standing => .waiting standing.named rfl

theorem Stands.clearService {slack slack' : Owner → RRDomain → Bool} {r : Responder} (i : Nat)
    (stands : Stands slack none r)
    (slacks : ∀ k, k ≠ .service i → ∀ d, slack k d = true → slack' k d = true) :
    Stands slack' none (r.clearService i) :=
  (stands.event (e := .cancelled (.service i)) (by simp) fun _ _ _ => trivial).modifyOwner
    (.service i) (fun _ _ => Iff.rfl) slacks fun _ _ standing => .waiting standing.named rfl

theorem Stands.cancelHost {slack slack' : Owner → RRDomain → Bool} {r : Responder}
    (stands : Stands slack none r)
    (slacks : ∀ k, k ≠ .host → ∀ d, slack k d = true → slack' k d = true) :
    Stands slack' none r.cancelProbingForHost :=
  (closed_stands slack').cancelProbingForHost
    (fun i stands => stands.clearService i fun _ _ _ more => more) (stands.clearHost slacks)

theorem Stands.cancelService {slack slack' : Owner → RRDomain → Bool} {r : Responder} (i : Nat)
    (s : Service) (stands : Stands slack none r)
    (slacks : ∀ k, k ≠ .service i → ∀ d, slack k d = true → slack' k d = true) :
    Stands slack' none (r.cancelProbingForService i s).2 :=
  (closed_stands slack').cancelProbingForService i s (stands.clearService i slacks)

/-! ### What does not change the names -/

def statusOf (o : Owner) (r : Responder) : Option (ProbingStatus × UInt8) :=
  (r.probeOf o).map fun probe => (probe.probingStatus, probe.sentCount)

/-- The names are the same, and nothing is logged. -/
def SameNames (r r' : Responder) : Prop :=
  r'.log = r.log ∧ ∀ o, r'.statusOf o = r.statusOf o ∧ r'.domainOf o = r.domainOf o

theorem Stands.sameNames {slack : Owner → RRDomain → Bool} {o : Option Owner} {r r' : Responder}
    (same : SameNames r r') (stands : Stands slack o r) : Stands slack o r' := by
  intro careful
  rw [same.1] at careful ⊢
  obtain ⟨law, each⟩ := stands careful
  refine ⟨law, fun k probe found => ?_⟩
  obtain ⟨status, domain⟩ := same.2 k
  rw [statusOf, found, statusOf] at status
  obtain ⟨before, known, both⟩ := Option.map_eq_some_iff.1 status.symm
  rw [domain]
  exact (each k before known).congr (congrArg Prod.fst both).symm (congrArg Prod.snd both).symm

/-- A change of the services that keeps their names. -/
theorem sameNames_services {r : Responder} {services : List Service}
    (same : ∀ k : Nat, (services[k]?).map (fun s =>
        (s.probe.probingStatus, s.probe.sentCount, s.buildDomain true)) =
      (r.services[k]?).map fun s =>
        (s.probe.probingStatus, s.probe.sentCount, s.buildDomain true)) :
    SameNames r { r with services := services } := by
  refine ⟨rfl, fun o => ?_⟩
  cases o with
  | host => exact ⟨rfl, rfl⟩
  | service k =>
    have here := same k
    constructor
    · have status := congrArg (Option.map fun x => (x.1, x.2.1)) here
      rw [Option.map_map, Option.map_map] at status
      rw [statusOf, statusOf, probeOf, probeOf, Option.map_map, Option.map_map]
      exact status
    · have domain := congrArg (Option.map fun x => x.2.2) here
      rw [Option.map_map, Option.map_map] at domain
      exact domain

theorem sameNames_modifyService (r : Responder) (i : Nat) {f : Service → Service}
    (same : ∀ s, (f s).probe.probingStatus = s.probe.probingStatus ∧
      (f s).probe.sentCount = s.probe.sentCount ∧ (f s).buildDomain true = s.buildDomain true) :
    SameNames r (r.modifyService i f) := by
  refine sameNames_services fun k => ?_
  have there := getElem?_modifyService r f i k
  rw [modifyService] at there
  rw [there]
  split
  · rw [Option.map_map]
    congr 1
    exact funext fun s => by
      rw [Function.comp_apply, (same s).1, (same s).2.1, (same s).2.2]
  · rfl

theorem sameNames_map (r : Responder) {f : Service → Service}
    (same : ∀ s, (f s).probe.probingStatus = s.probe.probingStatus ∧
      (f s).probe.sentCount = s.probe.sentCount ∧ (f s).buildDomain true = s.buildDomain true) :
    SameNames r { r with services := r.services.map f } := by
  refine sameNames_services fun k => ?_
  rw [List.getElem?_map, Option.map_map]
  congr 1
  exact funext fun s => by
    rw [Function.comp_apply, (same s).1, (same s).2.1, (same s).2.2]

theorem SameNames.trans {r r' r'' : Responder} (first : SameNames r r')
    (second : SameNames r' r'') :
    SameNames r r'' :=
  ⟨second.1.trans first.1, fun o => ⟨(second.2 o).1.trans (first.2 o).1,
    (second.2 o).2.trans (first.2 o).2⟩⟩

theorem SameNames.event {r r' : Responder} (e : Event) (names : SameNames r r') :
    SameNames (r.event e) (r'.event e) := by
  refine ⟨congrArg (e :: ·) names.1, fun o => ?_⟩
  cases o with
  | host => exact names.2 .host
  | service k => exact names.2 (.service k)

theorem sameNames_hostProbe (r : Responder) {f : ProbeInformation → ProbeInformation}
    (status : (f r.hostProbe).probingStatus = r.hostProbe.probingStatus)
    (count : (f r.hostProbe).sentCount = r.hostProbe.sentCount) :
    SameNames r (r.modifyHostProbe f) := by
  refine ⟨rfl, fun o => ?_⟩
  cases o with
  | host =>
    refine ⟨?_, rfl⟩
    rw [statusOf, statusOf, probeOf, probeOf, Option.map_some, Option.map_some]
    exact congrArg some (Prod.ext status count)
  | service k => exact ⟨rfl, rfl⟩

theorem statusOf_modifyOwner (f : ProbeInformation → ProbeInformation) (r : Responder)
    (o k : Owner) : (r.modifyOwner o f).statusOf k = if o = k then
      (r.probeOf k).map fun probe => ((f probe).probingStatus, (f probe).sentCount)
    else r.statusOf k := by
  rw [statusOf, probeOf_modifyOwner]
  split
  · rw [Option.map_map]
    rfl
  · rfl

/-- The same change of the status and the count. -/
theorem SameNames.modifyOwner {r r' : Responder} {f : ProbeInformation → ProbeInformation}
    {g : ProbingStatus × UInt8 → ProbingStatus × UInt8} (names : SameNames r r') (o : Owner)
    (depends : ∀ probe, ((f probe).probingStatus, (f probe).sentCount) =
      g (probe.probingStatus, probe.sentCount)) :
    SameNames (r.modifyOwner o f) (r'.modifyOwner o f) := by
  have status : ∀ k (r : Responder), ((r.probeOf k).map fun probe =>
      ((f probe).probingStatus, (f probe).sentCount)) = (r.statusOf k).map g := by
    intro k r
    rw [statusOf, Option.map_map]
    congr 1
    exact funext depends
  refine ⟨?_, fun k => ⟨?_, ?_⟩⟩
  · rw [modifyOwner_log, modifyOwner_log, names.1]
  · rw [statusOf_modifyOwner, statusOf_modifyOwner, status, status, (names.2 k).1]
  · rw [domainOf_modifyOwner, domainOf_modifyOwner, (names.2 k).2]

theorem sameNames_clearReplyMasks (r : Responder) : SameNames r r.clearReplyMasks :=
  sameNames_map r fun _ => ⟨rfl, rfl, rfl⟩

/-- A message that is sent says nothing about the names, apart from being sent. -/
theorem sendMDNSMessage_names (r : Responder) (p : SendParameter) :
    (∃ m, (r.sendMDNSMessage p).1 = some m ∧ r.prepareMDNSMessage p = some m ∧
      SameNames (r.event (.sent m)) (r.sendMDNSMessage p).2) ∨
    (r.sendMDNSMessage p).1 = none ∧ SameNames r (r.sendMDNSMessage p).2 := by
  rw [sendMDNSMessage]
  split
  · exact Or.inr ⟨rfl, sameNames_clearReplyMasks r⟩
  · rename_i m prepared
    split
    · exact Or.inl ⟨m, rfl, prepared,
        sameNames_clearReplyMasks (event (.sent m) { r with sends := r.sends.tail })⟩
    · exact Or.inr ⟨rfl, sameNames_clearReplyMasks { r with sends := r.sends.tail }⟩

theorem Stands.send {slack : Owner → RRDomain → Bool} {o : Option Owner} {r : Responder}
    (p : SendParameter) (stands : Stands slack o r) :
    Stands slack o (r.sendMDNSMessage p).2 := by
  rcases sendMDNSMessage_names r p with ⟨m, -, -, names⟩ | ⟨-, names⟩
  · exact (stands.event (e := .sent m) (by simp) fun _ _ _ => trivial).sameNames names
  · exact stands.sameNames names

/-! ### Probing -/

theorem Stands.start {r : Responder} {probe : ProbeInformation} (own : Owner) (now delay : UInt32)
    (owned : r.probeOf own = some probe) (ready : probe.probingStatus = .readyToStart)
    (stands : Stands noSlack none r) :
    Stands noSlack none ((r.event (.started own)).modifyOwner own (.start now delay)) := by
  refine stands.step own (fun _ _ => Iff.rfl) (fun k other => other.symm) ?_ owned
  intro probe' found law standing
  obtain rfl := Option.some.inj (owned.symm.trans found)
  refine ⟨law_cons (by simp) law, standing.named, fun behind _ => ?_, fun _ => ⟨rfl, ?_⟩,
    fun done => absurd done (by simp [ProbeInformation.start])⟩
  · exact standing.counted behind (Or.inl ready)
  · intro d _ contested
    simp [contestedIn] at contested

/-- A probe that was sent is counted. -/
theorem Stands.probed {r r' : Responder} {probe : ProbeInformation} {domain : RRDomain}
    {m : Message} (own : Owner) (now : UInt32) (owned : r.probeOf own = some probe)
    (active : probe.probingStatus = .inProgress)
    (few : probe.sentCount < ProbeInformation.probeCount)
    (known : r.domainOf own = some domain) (hit : m.probes domain = true)
    (names : SameNames (r.event (.sent m)) r') (stands : Stands noSlack none r) :
    Stands noSlack none (r'.modifyOwner own (.probed now)) := by
  have counted : Stands noSlack none ((r.event (.sent m)).modifyOwner own (.probed now)) := by
    refine stands.step own (fun _ _ => Iff.rfl) (fun _ _ => trivial) ?_ owned
    intro probe' found law standing
    obtain rfl := Option.some.inj (owned.symm.trans found)
    refine ⟨law_cons (by simp) law, standing.named, fun behind _ => ?_, fun _ => ?_,
      fun done => absurd (active.symm.trans done) (by simp)⟩
    · have before := standing.counted behind (Or.inr active)
      rw [known] at before ⊢
      have more : (probe.sentCount + 1).toNat = probe.sentCount.toNat + 1 := by
        have small : probe.sentCount.toNat < 3 := few
        rw [UInt8.toNat_add]
        exact Nat.mod_eq_of_lt (by change probe.sentCount.toNat + 1 < 256; omega)
      change (probe.sentCount + 1).toNat ≤
        probesIn own domain r.log + if m.probes domain then 1 else 0
      rw [more, hit]
      exact Nat.succ_le_succ before
    · exact standing.uncontested active
  exact counted.sameNames
    (names.modifyOwner (g := fun x => (x.1, x.2 + 1)) own fun _ => rfl)

/-- Probing is done behind three probes. -/
theorem Stands.finish {r : Responder} {probe : ProbeInformation} (own : Owner)
    (owned : r.probeOf own = some probe) (active : probe.probingStatus = .inProgress)
    (enough : ¬probe.sentCount < ProbeInformation.probeCount) (stands : Stands noSlack none r) :
    Stands noSlack (some own) ((r.event (.done own)).modifyOwner own .finish) := by
  refine stands.step own (fun k other => ?_) (fun k other => other.symm) ?_ owned
  · exact ⟨fun same => absurd (Option.some.inj same).symm other, fun none => absurd none (by simp)⟩
  intro probe' found law standing
  obtain rfl := Option.some.inj (owned.symm.trans found)
  refine ⟨fun o rest suffix => ?_, standing.named, fun behind _ => ?_, fun active => ?_,
    fun _ _ => ?_⟩
  · rcases List.suffix_cons_iff.1 suffix with here | before
    · obtain ⟨same, rfl⟩ := List.cons.inj here
      obtain rfl := Event.done.inj same
      have three : 3 ≤ probe.sentCount.toNat := Nat.not_lt.1 enough
      have counted := standing.counted rfl (Or.inr active)
      cases known : r.domainOf o with
      | none =>
        rw [known] at counted
        exact absurd (three.trans counted) (by simp)
      | some domain =>
        rw [known] at counted
        refine ⟨domain, standing.named.trans known, three.trans counted, ?_⟩
        refine Bool.eq_false_iff.2 fun contested => ?_
        exact absurd ((standing.uncontested active).2 domain known contested) (by simp [noSlack])
    · exact law o rest before
  · exact absurd behind (by simp)
  · exact absurd active (by simp [ProbeInformation.finish])
  · simp [doneIn]

/-- Behind the callback the count starts again. -/
theorem Stands.prepare {r : Responder} (own : Owner) (now : UInt32)
    (stands : Stands noSlack (some own) r) :
    Stands noSlack none (r.modifyOwner own (.prepare now)) := by
  refine stands.modifyOwner own (fun k other => ?_) (fun _ _ _ more => more) ?_
  · exact ⟨fun none => absurd none (by simp), fun same => absurd (Option.some.inj same).symm other⟩
  intro probe _ standing
  refine ⟨standing.named, fun _ _ => Nat.zero_le _, fun active => ?_, standing.confirmed⟩
  exact absurd (standing.uncontested active).1 (by simp)

/-- The count does not matter when probing is done. -/
theorem Stands.announced {r : Responder} {c : UInt8} (own : Owner) (now : UInt32)
    (done : r.statusOf own = some (.done, c)) (stands : Stands noSlack none r) :
    Stands noSlack none (r.modifyOwner own (.announced now)) := by
  refine stands.modifyOwner own (fun _ _ => Iff.rfl) (fun _ _ _ more => more) ?_
  intro probe owned standing
  rw [statusOf, owned] at done
  have status : probe.probingStatus = .done := congrArg Prod.fst (Option.some.inj done)
  refine ⟨standing.named, fun _ active => ?_, fun active => ?_, standing.confirmed⟩
  · rcases active with ready | active
    · exact absurd (status.symm.trans ready) (by simp)
    · exact absurd (status.symm.trans active) (by simp)
  · exact absurd (status.symm.trans active) (by simp)

theorem prepareMDNSMessage_header {r : Responder} {p : SendParameter} {m : Message}
    (prepared : r.prepareMDNSMessage p = some m) :
    m.response = p.response ∧ m.questions = p.questions := by
  rw [prepareMDNSMessage] at prepared
  simp only [Option.bind_eq_bind, Option.pure_def, Option.bind_eq_some_iff] at prepared
  obtain ⟨answers, -, additional, -, same⟩ := prepared
  obtain rfl := Option.some.inj same
  exact ⟨rfl, rfl⟩

/-- A message with the question of a probe. -/
theorem probes_of_question {r : Responder} {p : SendParameter} {m : Message} {domain : RRDomain}
    {unicast : Bool} (prepared : r.prepareMDNSMessage p = some m) (response : p.response = false)
    (questions : p.questions = [probeQuestion domain unicast]) : m.probes domain = true := by
  obtain ⟨same, asked⟩ := prepareMDNSMessage_header prepared
  rw [Message.probes, same, asked, response, questions]
  simp [probeQuestion]

theorem statusOf_sendMDNSMessage (r : Responder) (p : SendParameter) (o : Owner) :
    (r.sendMDNSMessage p).2.statusOf o = r.statusOf o := by
  rcases sendMDNSMessage_names r p with ⟨m, -, -, names⟩ | ⟨-, names⟩
  · exact (names.2 o).1.trans (by cases o <;> rfl)
  · exact (names.2 o).1

theorem sameNames_maskService (r : Responder) (i : Nat) (mask : ServiceReplyMask) :
    SameNames r (r.maskService i mask) :=
  sameNames_modifyService r i fun _ => ⟨rfl, rfl, rfl⟩

/-- A probe that is sent carries the name. -/
def ProbeSent (own : Owner) (r : Responder) (sent : Option Message × Responder) : Prop :=
  (∃ m domain, sent.1 = some m ∧ r.domainOf own = some domain ∧ m.probes domain = true ∧
    SameNames (r.event (.sent m)) sent.2) ∨ sent.1 = none ∧ SameNames r sent.2

theorem sendHostProbe_sent (r : Responder) : ProbeSent .host r r.sendHostProbe := by
  rw [sendHostProbe]
  cases domain : r.hostDomain with
  | none => exact Or.inr ⟨rfl, rfl, fun _ => ⟨rfl, rfl⟩⟩
  | some host =>
    rcases sendMDNSMessage_names r (hostProbeParameter host) with
      ⟨m, found, prepared, names⟩ | ⟨found, names⟩
    · exact Or.inl ⟨m, host, found, domain, probes_of_question prepared rfl rfl, names⟩
    · exact Or.inr ⟨found, names⟩

theorem sendServiceProbe_sent {i : Nat} {s : Service} {r : Responder}
    (found : r.services[i]? = some s) : ProbeSent (.service i) r (r.sendServiceProbe i s) := by
  have masked := sameNames_maskService r i ⟨false, true, false, true⟩
  rw [sendServiceProbe]
  rcases sendMDNSMessage_names (r.maskService i ⟨false, true, false, true⟩)
    (serviceProbeParameter (s.buildDomain true)) with ⟨m, sent, prepared, names⟩ | ⟨sent, names⟩
  · refine Or.inl ⟨m, s.buildDomain true, sent, ?_, probes_of_question prepared rfl rfl, ?_⟩
    · rw [domainOf, found]
      rfl
    · exact (masked.event (.sent m)).trans names
  · exact Or.inr ⟨sent, masked.trans names⟩

/-- The next probe. -/
theorem Stands.nextProbe {r : Responder} {probe : ProbeInformation} (own : Owner) (now : UInt32)
    (owned : r.probeOf own = some probe) (active : probe.probingStatus = .inProgress)
    (few : probe.sentCount < ProbeInformation.probeCount) {sent : Option Message × Responder}
    (carries : ProbeSent own r sent) (stands : Stands noSlack none r) :
    Stands noSlack none
      (if sent.1.isSome then sent.2.modifyOwner own (.probed now) else sent.2) := by
  rcases carries with ⟨m, domain, some, known, hit, names⟩ | ⟨none, names⟩
  · rw [some]
    exact stands.probed own now owned active few known hit names
  · rw [none]
    exact stands.sameNames names

/-- The next announcement. -/
theorem Stands.nextAnnouncement {r : Responder} {probe : ProbeInformation} (own : Owner)
    (now : UInt32) (sent : Option Message × Responder) (owned : r.probeOf own = some probe)
    (done : probe.probingStatus = .done) (status : sent.2.statusOf own = r.statusOf own)
    (stands : Stands noSlack none sent.2) :
    Stands noSlack none
      (if sent.1.isSome then sent.2.modifyOwner own (.announced now) else sent.2) := by
  split
  · refine stands.announced (c := probe.sentCount) own now ?_
    rw [status, statusOf, owned, Option.map_some, done]
  · exact stands

theorem Stands.updateHost {r : Responder} (now random : UInt32) (stands : Stands noSlack none r) :
    Stands noSlack none (r.updateHost now random).2 := by
  rw [Responder.updateHost]
  split
  · rename_i ready
    exact stands.start .host now _ rfl ready.1
  · split
    · rename_i active
      split
      · rename_i few
        have next := stands.nextProbe .host now rfl active.1 few (sendHostProbe_sent r)
        split <;> rename_i sent <;> rw [sent] at next <;> exact next
      · rename_i enough
        have finished := stands.finish .host rfl active.1 enough
        refine Stands.prepare .host now ?_
        rw [Responder.finishHost]
        split
        · exact (closed_stands noSlack).callback finished
        · exact finished
    · split
      · rename_i done
        have sends : Stands noSlack none r.announce.2 := by
          rw [Responder.announce, if_pos done.1]
          exact stands.send _
        have status : r.announce.2.statusOf .host = r.statusOf .host := by
          rw [Responder.announce, if_pos done.1]
          exact statusOf_sendMDNSMessage r _ _
        have next := sends.nextAnnouncement .host now r.announce rfl done.1 status
        split <;> rename_i sent <;> rw [sent] at next <;> exact next
      · exact stands

theorem Stands.updateService {r : Responder} (now : UInt32) {i : Nat} {s : Service}
    (found : r.services[i]? = some s) (stands : Stands noSlack none r) :
    Stands noSlack none (r.updateService now i s).2 := by
  have owned : r.probeOf (.service i) = some s.probe := by
    rw [probeOf, found]
    rfl
  rw [Responder.updateService]
  split
  · rename_i ready
    exact stands.start (.service i) now _ owned ready
  · split
    · rename_i active
      split
      · rename_i few
        have next := stands.nextProbe (.service i) now owned active.1 few
          (sendServiceProbe_sent found)
        split <;> rename_i sent <;> rw [sent] at next <;> exact next
      · rename_i enough
        have finished := stands.finish (.service i) owned active.1 enough
        refine Stands.prepare (.service i) now ?_
        rw [Responder.finishService]
        split
        · exact (closed_stands noSlack).callback finished
        · exact finished
    · split
      · rename_i done
        have masked := sameNames_maskService r i ⟨true, true, true, true⟩
        have sends : Stands noSlack none (r.announceService i s).2 := by
          rw [announceService, if_pos done.1]
          exact (stands.sameNames masked).send _
        have status : (r.announceService i s).2.statusOf (.service i) =
            r.statusOf (.service i) := by
          rw [announceService, if_pos done.1]
          exact (statusOf_sendMDNSMessage _ _ _).trans (masked.2 _).1
        have next := sends.nextAnnouncement (.service i) now _ owned done.1 status
        split <;> rename_i sent <;> rw [sent] at next <;> exact next
      · exact stands

theorem Stands.updateServices (now : UInt32) (services : List Nat) :
    ∀ {r : Responder}, Stands noSlack none r →
      Stands noSlack none (updateServices now services r) := by
  induction services with
  | nil => intro r stands; exact stands
  | cons i rest ih =>
    intro r stands
    rw [Responder.updateServices]
    cases found : r.services[i]? with
    | none => exact ih stands
    | some s =>
      have updated := stands.updateService now found
      simp only
      split
      · exact ih updated
      · exact updated

theorem Stands.updateProbeStatus {r : Responder} (now random : UInt32)
    (stands : Stands noSlack none r) : Stands noSlack none (r.updateProbeStatus now random) := by
  have updated := stands.updateHost now random
  rw [Responder.updateProbeStatus]
  simp only
  split
  · exact Stands.updateServices now _ updated
  · exact updated

/-! ### Queries -/

theorem sameNames_modifyProbe (r : Responder) (i : Nat)
    {f : ProbeInformation → ProbeInformation}
    (same : ∀ probe, (f probe).probingStatus = probe.probingStatus ∧
      (f probe).sentCount = probe.sentCount) : SameNames r (r.modifyProbe i f) :=
  sameNames_modifyService r i fun s => ⟨(same s.probe).1, (same s.probe).2, rfl⟩

theorem sameNames_resolveHost (r : Responder) : SameNames r r.resolveHost :=
  sameNames_hostProbe r rfl rfl

theorem sameNames_resolveService (r : Responder) (i : Nat) : SameNames r (r.resolveService i) :=
  sameNames_modifyProbe r i fun _ => ⟨rfl, rfl⟩

theorem sameNames_question (q : Query) (question : RRQuestion) (p : SendParameter)
    (r : Responder) : SameNames r (parseQuestion q question p r).2.2 :=
  SameNames.trans (sameNames_hostProbe r (f := fun _ => (r.hostTiebreakNeed question).hostProbe)
      rfl rfl)
    (sameNames_map (r.hostTiebreakNeed question) fun _ => ⟨rfl, rfl, rfl⟩)

theorem Stands.questions (q : Query) (count : Nat) :
    ∀ (questions : List RRQuestion) (p : SendParameter) {r : Responder}, Stands noSlack none r →
      Stands noSlack none (parseQuestions q count questions p r).2.2 := by
  induction count with
  | zero => intro questions p r stands; exact stands
  | succ count ih =>
    intro questions p r stands
    cases questions with
    | nil => exact stands
    | cons question questions =>
      have planned := stands.sameNames (sameNames_question q question p r)
      rw [parseQuestions]
      simp only
      split
      · exact ih questions _ planned
      · exact planned

/-- The lost tiebreak of a name whose probing is cancelled. -/
theorem lost_apart {own : Owner} (k : Owner) (other : k ≠ own) (d : RRDomain)
    (more : decide (own = k) = true) : noSlack k d = true :=
  absurd (of_decide_eq_true more).symm other

theorem Stands.hostTiebreak {r : Responder} (record : ResourceRecord)
    (stands : Stands noSlack none r) : Stands noSlack none (r.hostTiebreak record) := by
  rw [Responder.hostTiebreak]
  split
  · split
    · split
      · split
        · exact ((stands.lost .host).cancelHost lost_apart).sameNames (sameNames_resolveHost _)
        · exact stands.sameNames (sameNames_resolveHost r)
      · exact stands
    · exact stands
  · exact stands

theorem Stands.serviceTiebreak {r : Responder} (record : ResourceRecord) (i : Nat) (s : Service)
    (stands : Stands noSlack none r) :
    Stands noSlack none (r.serviceTiebreak record i s) := by
  rw [Responder.serviceTiebreak]
  split
  · split
    · split
      · exact stands.sameNames (sameNames_resolveService r i)
      · split
        · exact ((stands.lost (.service i)).cancelService i s lost_apart).sameNames
            (sameNames_resolveService _ i)
        · exact stands.sameNames (sameNames_resolveService r i)
    · exact stands
  · exact stands

theorem knownServiceAnswer_names (r : Responder) (record : ResourceRecord) (s : Service) :
    (knownServiceAnswer r record s).probe = s.probe ∧
      (knownServiceAnswer r record s).buildDomain true = s.buildDomain true := by
  rw [knownServiceAnswer]
  simp only
  split
  · split
    · exact ⟨rfl, rfl⟩
    · split <;> exact ⟨rfl, rfl⟩
    · split <;> exact ⟨rfl, rfl⟩
    · exact ⟨rfl, rfl⟩
  · exact ⟨rfl, rfl⟩

theorem Stands.record {r : Responder} (record : ResourceRecord) (p : SendParameter)
    (stands : Stands noSlack none r) : Stands noSlack none (parseRecord record p r).2 := by
  rw [parseRecord]
  split
  · refine forServices_keeps (P := Stands noSlack none) (fun i r stands => ?_)
      (stands.hostTiebreak record)
    have known : SameNames r (r.modifyService i (knownServiceAnswer r record)) := by
      refine sameNames_modifyService r i fun s => ?_
      obtain ⟨probe, domain⟩ := knownServiceAnswer_names r record s
      exact ⟨congrArg _ probe, congrArg _ probe, domain⟩
    exact withService_keeps (P := Stands noSlack none)
      (fun s _ stands => stands.serviceTiebreak record i s) (stands.sameNames known)
  · exact stands

theorem Stands.records (count : Nat) :
    ∀ (records : List ResourceRecord) (p : SendParameter) {r : Responder},
      Stands noSlack none r → Stands noSlack none (parseRecords count records p r).2.2 := by
  induction count with
  | zero => intro records p r stands; exact stands
  | succ count ih =>
    intro records p r stands
    cases records with
    | nil => exact stands
    | cons record records => exact ih records _ (stands.record record p)

theorem sameNames_resetTiebreaks (r : Responder) : SameNames r r.resetTiebreaks :=
  SameNames.trans (sameNames_resolveHost r)
    (sameNames_map r.resolveHost fun _ => ⟨rfl, rfl, rfl⟩)

theorem Stands.query {r : Responder} (q : Query) (stands : Stands noSlack none r) :
    Stands noSlack none (r.parseQuery q).2 := by
  rw [parseQuery]
  refine Stands.sameNames (sameNames_resetTiebreaks _) ?_
  have asked := stands.questions q q.questionCount q.questions .new
  have replied : ∀ (read : Bool) (p : SendParameter) {r : Responder}, Stands noSlack none r →
      Stands noSlack none (if read then r.replyTo p else (none, r)).2 := by
    intro read p r stands
    split
    · rw [replyTo]
      split
      · exact stands.send _
      · exact stands
    · exact stands
  refine replied _ _ ?_
  split
  · exact asked.records q.recordCount q.records _
  · exact asked

/-! ### Responses -/

/-- The answer may still speak against these names. -/
def pending (owners : Owner → Bool) (record : ResourceRecord) (o : Owner) (d : RRDomain) : Bool :=
  owners o && conflicts o d record

/-- A name that an answer speaks against gives up. -/
theorem Stands.hostConflict {r : Responder} (record : ResourceRecord)
    (stands : Stands (fun k d => conflicts k d record) none r) :
    Stands (pending (fun k => decide (k ≠ .host)) record) none (r.hostConflict record) := by
  have others : ∀ k : Owner, k ≠ .host → ∀ d, conflicts k d record = true →
      pending (fun k => decide (k ≠ .host)) record k d = true := by
    intro k other d conflict
    rw [pending, conflict, decide_eq_true other]
    rfl
  have stays : (∀ host, r.hostDomain = some host → r.hostProbe.probingStatus = .inProgress →
      conflicts .host host record = false) →
      Stands (pending (fun k => decide (k ≠ .host)) record) none r := by
    intro harmless
    refine stands.narrow fun k probe d found active known conflict => ?_
    by_cases host : k = .host
    · subst host
      obtain rfl := Option.some.inj found
      exact absurd conflict (by rw [harmless d known active]; simp)
    · exact others k host d conflict
  rw [Responder.hostConflict]
  split
  · rename_i host domain
    split
    · exact stands.cancelHost others
    · rename_i apart
      refine stays fun host' known active => Bool.eq_false_iff.2 fun conflict => apart ?_
      obtain rfl := Option.some.inj (domain.symm.trans known)
      rw [conflicts, Bool.and_eq_true] at conflict
      exact ⟨active, conflict⟩
  · rename_i domain
    exact stays fun host known => absurd (domain.symm.trans known) (by simp)

/-- The services from an index on are settled. -/
def below (n : Nat) : Owner → Bool
  | .host => false
  | .service i => decide (i < n)

theorem Stands.serviceConflict {r : Responder} (record : ResourceRecord) (n : Nat)
    (stands : Stands (pending (below (n + 1)) record) none r) :
    Stands (pending (below n) record) none
      (r.withService n (Responder.serviceConflict record n)) := by
  have others : ∀ k : Owner, k ≠ .service n → ∀ d, pending (below (n + 1)) record k d = true →
      pending (below n) record k d = true := by
    intro k other d more
    rw [pending, Bool.and_eq_true] at more ⊢
    refine ⟨?_, more.2⟩
    cases k with
    | host => exact more.1
    | service i =>
      have least : i < n + 1 := of_decide_eq_true more.1
      have differ : i ≠ n := fun same => other (congrArg _ same)
      exact decide_eq_true (by omega)
  have stays : (∀ probe d, r.probeOf (.service n) = some probe →
      probe.probingStatus = .inProgress → r.domainOf (.service n) = some d →
      conflicts (.service n) d record = false) → Stands (pending (below n) record) none r := by
    intro harmless
    refine stands.narrow fun k probe d found active known more => ?_
    by_cases here : k = .service n
    · subst here
      rw [pending, Bool.and_eq_true] at more
      exact absurd more.2 (by rw [harmless probe d found active known]; simp)
    · exact others k here d more
  rw [withService]
  cases found : r.services[n]? with
  | none =>
    refine stays fun probe d owned => ?_
    rw [probeOf, found] at owned
    exact absurd owned (by simp)
  | some s =>
    simp only
    rw [Responder.serviceConflict]
    split
    · exact stands.cancelService n s others
    · rename_i apart
      refine stays fun probe d owned active known => Bool.eq_false_iff.2 fun conflict => apart ?_
      rw [probeOf, found] at owned
      rw [domainOf, found] at known
      obtain rfl := Option.some.inj owned
      obtain rfl := Option.some.inj known
      rw [conflicts, Bool.and_eq_true] at conflict
      exact ⟨active, conflict⟩

theorem Stands.services (record : ResourceRecord) (n : Nat) :
    ∀ {r : Responder}, Stands (pending (below n) record) none r →
      Stands noSlack none ((List.range n).foldr
        (fun i => withService i (Responder.serviceConflict record i)) r) := by
  induction n with
  | zero =>
    intro r stands
    refine stands.narrow fun k probe d _ _ _ more => ?_
    rw [pending, Bool.and_eq_true] at more
    cases k with
    | host => exact absurd more.1 (by simp [below])
    | service i => exact absurd more.1 (by simp [below])
  | succ n ih =>
    intro r stands
    rw [List.range_succ, List.foldr_append]
    exact ih (stands.serviceConflict record n)

theorem Stands.processAnswer {r : Responder} (record : ResourceRecord)
    (stands : Stands noSlack none r) : Stands noSlack none (processAnswer record r) := by
  rw [Responder.processAnswer, forServices]
  refine Stands.services record _ ?_
  refine ((stands.answer record).hostConflict record).narrow
    fun k probe d found _ _ more => ?_
  rw [pending, Bool.and_eq_true] at more ⊢
  refine ⟨?_, more.2⟩
  cases k with
  | host => exact absurd (of_decide_eq_true more.1) (by simp)
  | service i =>
    rw [probeOf] at found
    obtain ⟨s, there, -⟩ := Option.map_eq_some_iff.1 found
    exact decide_eq_true (List.getElem?_eq_some_iff.1 there).1

theorem Stands.processAnswers (records : List ResourceRecord) (rounds : Nat) :
    ∀ {r : Responder}, Stands noSlack none r →
      Stands noSlack none (processAnswers records rounds r) := by
  have round : ∀ (records : List ResourceRecord) {r : Responder}, Stands noSlack none r →
      Stands noSlack none (records.foldl (fun r record => Responder.processAnswer record r) r) := by
    intro records
    induction records with
    | nil => intro r stands; exact stands
    | cons record rest ih => intro r stands; exact ih (stands.processAnswer record)
  induction rounds with
  | zero => intro r stands; exact stands
  | succ rounds ih => intro r stands; exact ih (round records stands)

/-! ## Runs -/

def tick (now : UInt32) : Request := ⟨.update now 0, [], []⟩

end Responder

end Esp8266.Source.Mdns
