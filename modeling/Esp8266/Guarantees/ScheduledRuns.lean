import Esp8266.Lib.Chain
import Esp8266.Lib.Runs
import Esp8266.Source.Schedule

/-!
# What a pass runs

The nodes in use form two chains, that of the queue and that of the recycled nodes. A pass stops
behind the node that was the last one when it began, and that node stays in the queue until its
function has been called. Where the queue was empty there is no such node: a function accepted
before the pass first looks at the queue starts it, and nothing stops it.
-/
set_option autoImplicit false

namespace Esp8266.Source.Schedule
open Esp8266.Lib

variable {α : Type*}

namespace Queue

def next (s : Queue α) (a : Addr) : Option Addr := (s.node a).mNext

/-- The queue `q` with the functions `fns`, and the recycled nodes `u`. -/
structure Holds (s : Queue α) (q u : List Addr) (fns : List α) : Prop where
  first : Chain s.next s.sFirst q
  last : s.sLast = q.getLast?
  unused : Chain s.next s.sUnused u
  apart : (q ++ u).Nodup
  count : q.length + u.length = s.sCount
  most : s.sCount ≤ scheduledFnMaxCount
  live : ∀ a ∈ q ++ u, a ∈ s.allocated
  funcs : q.map (fun a => (s.node a).mFunc) = fns.map some

theorem empty_holds : (empty : Queue α).Holds [] [] [] where
  first := rfl
  last := rfl
  unused := rfl
  apart := List.nodup_nil
  count := rfl
  most := Nat.zero_le _
  live := fun _ member => absurd member List.not_mem_nil
  funcs := rfl

/-- A node is free to be used: it belongs to neither chain. -/
structure Free (s : Queue α) (item : Addr) (q u : List Addr) (fns : List α) : Prop where
  first : Chain s.next s.sFirst q
  last : s.sLast = q.getLast?
  unused : Chain s.next s.sUnused u
  apart : (item :: (q ++ u)).Nodup
  count : q.length + u.length + 1 = s.sCount
  most : s.sCount ≤ scheduledFnMaxCount
  live : ∀ a ∈ item :: (q ++ u), a ∈ s.allocated
  funcs : q.map (fun a => (s.node a).mFunc) = fns.map some

/-- A call that gets no node changes nothing. -/
theorem getFnUnsafe_cases {s : Queue α} {q u : List Addr} {fns : List α} (holds : s.Holds q u fns)
    (offer : Option Addr) : s.getFnUnsafe offer = (none, s) ∨
      ∃ item s' u', s.getFnUnsafe offer = (some item, s') ∧ s'.Free item q u' fns := by
  unfold getFnUnsafe
  cases unused : s.sUnused with
  | some item =>
    right
    have chain := holds.unused
    rw [unused] at chain
    cases u with
    | nil => exact absurd chain (by simp [Chain])
    | cons a u =>
      obtain ⟨same, rest⟩ := chain
      obtain rfl : item = a := Option.some.inj same
      have swapped : (q ++ item :: u).Perm (item :: (q ++ u)) := List.perm_middle
      refine ⟨item, _, u, rfl, ?_⟩
      exact {
        first := holds.first
        last := holds.last
        unused := rest
        apart := swapped.nodup_iff.1 holds.apart
        count := holds.count
        most := holds.most
        live := fun a member => holds.live a (swapped.mem_iff.2 member)
        funcs := holds.funcs }
  | none =>
    dsimp only
    split
    · rename_i room
      unfold new
      cases offer with
      | none => exact Or.inl rfl
      | some item =>
        dsimp only
        by_cases used : item ∈ s.allocated
        · rw [if_pos used]
          exact Or.inl rfl
        · rw [if_neg used]
          right
          have fresh : item ∉ q ++ u := fun member => used (holds.live item member)
          have other : ∀ a ∈ q ++ u, a ≠ item := fun a member same => fresh (same ▸ member)
          have same : ∀ a ∈ q ++ u, (s.set item ⟨none, none⟩).node a = s.node a :=
            fun a member => if_neg (other a member)
          have links : ∀ a ∈ q ++ u, (s.set item ⟨none, none⟩).next a = s.next a :=
            fun a member => congrArg ScheduledFn.mNext (same a member)
          refine ⟨item, _, u, rfl, ?_⟩
          exact {
            first := holds.first.frame fun a member => links a (List.mem_append_left u member)
            last := holds.last
            unused := holds.unused.frame fun a member => links a (List.mem_append_right q member)
            apart := List.nodup_cons.2 ⟨fresh, holds.apart⟩
            count := congrArg (· + 1) holds.count
            most := room
            live := by
              intro a member
              rcases List.mem_cons.1 member with rfl | later
              · exact List.mem_cons_self
              · exact List.mem_cons_of_mem item (holds.live a later)
            funcs := by
              rw [← holds.funcs]
              exact List.map_congr_left fun a member =>
                congrArg ScheduledFn.mFunc (same a (List.mem_append_left u member)) }
    · exact Or.inl rfl

/-- The node that was free is filled and becomes the last one. -/
theorem link_holds {s : Queue α} {item : Addr} {q u : List Addr} {fns : List α}
    (free : s.Free item q u fns) (f : α) : ∃ s',
      (s.set item ⟨none, some f⟩).link item = some s' ∧
        s'.Holds (q ++ [item]) u (fns ++ [f]) := by
  have fresh := (List.nodup_cons.1 free.apart).1
  have both := (List.nodup_cons.1 free.apart).2
  have other : ∀ a ∈ q ++ u, a ≠ item := fun a member same => fresh (same ▸ member)
  have chains : (q ++ [item] ++ u).Perm (item :: (q ++ u)) := by
    rw [List.append_assoc]
    exact List.perm_middle
  have apart := chains.nodup_iff.2 free.apart
  have live : ∀ a ∈ q ++ [item] ++ u, a ∈ s.allocated :=
    fun a member => free.live a (chains.mem_iff.1 member)
  have count : (q ++ [item]).length + u.length = s.sCount := by
    rw [List.length_append, List.length_singleton, ← free.count, Nat.add_right_comm]
  have self : (s.set item ⟨none, some f⟩).node item = ⟨none, some f⟩ := if_pos rfl
  have same : ∀ a ∈ q ++ u, (s.set item ⟨none, some f⟩).node a = s.node a :=
    fun a member => if_neg (other a member)
  rcases q.eq_nil_or_concat' with rfl | ⟨q, last, rfl⟩
  · have empty : (s.set item ⟨none, some f⟩).sFirst = none := free.first
    have links : ∀ a ∈ u, (s.set item ⟨none, some f⟩).next a = s.next a :=
      fun a member => congrArg ScheduledFn.mNext (same a member)
    refine ⟨_, by rw [link, empty], ?_⟩
    exact {
      first := ⟨rfl, congrArg ScheduledFn.mNext self⟩
      last := rfl
      unused := free.unused.frame links
      apart := apart
      count := count
      most := free.most
      live := live
      funcs := by
        have none : fns.map some = [] := free.funcs.symm
        rw [List.map_eq_nil_iff.1 none]
        exact congrArg (fun x => [x]) (congrArg ScheduledFn.mFunc self) }
  · have some' : ∃ a, (s.set item ⟨none, some f⟩).sFirst = some a := by
      refine Option.isSome_iff_exists.1 ?_
      change s.sFirst.isSome = true
      rw [free.first.head]
      cases q <;> rfl
    have last' : (s.set item ⟨none, some f⟩).sLast = some last :=
      free.last.trans List.getLast?_concat
    obtain ⟨a, first⟩ := some'
    have inside : last ∈ q ++ [last] := List.mem_append_right q List.mem_cons_self
    have once : (q ++ [last]).Nodup := (List.nodup_append.1 both).1
    have before : ∀ a ∈ q, a ≠ last := fun a member =>
      (List.nodup_append.1 once).2.2 a member last List.mem_cons_self
    have recycled : ∀ a ∈ u, a ≠ last := fun a member same =>
      (List.nodup_append.1 both).2.2 last inside a member same.symm
    have neither : item ≠ last := fun same => other last (List.mem_append_left u inside) same.symm
    generalize result : ({ (s.set item ⟨none, some f⟩).set last
      ⟨some item, ((s.set item ⟨none, some f⟩).node last).mFunc⟩ with
        sLast := some item } : Queue α) = r
    have stored : ∀ a, r.node a = if a = last then
        ⟨some item, ((s.set item ⟨none, some f⟩).node last).mFunc⟩
        else (s.set item ⟨none, some f⟩).node a := by
      intro a
      rw [← result]
      rfl
    have kept : ∀ a, a ≠ last → a ≠ item → r.node a = s.node a := by
      intro a notLast notItem
      rw [stored, if_neg notLast]
      exact if_neg notItem
    have filled : r.node item = ⟨none, some f⟩ := by
      rw [stored, if_neg neither, self]
    have linked : r.node last = ⟨some item, (s.node last).mFunc⟩ := by
      rw [stored, if_pos rfl, same last (List.mem_append_left u inside)]
    have first' : r.sFirst = s.sFirst := by rw [← result]; rfl
    have unused' : r.sUnused = s.sUnused := by rw [← result]; rfl
    have count' : r.sCount = s.sCount := by rw [← result]; rfl
    have live' : r.allocated = s.allocated := by rw [← result]; rfl
    refine ⟨r, by rw [link, first, last', ← result], ?_⟩
    exact {
      first := by
        rw [first']
        exact free.first.concat
          (fun a member => congrArg ScheduledFn.mNext (kept a (before a member)
            (other a (List.mem_append_left u (List.mem_append_left [last] member)))))
          (congrArg ScheduledFn.mNext linked) (congrArg ScheduledFn.mNext filled)
      last := by
        rw [← result]
        exact List.getLast?_concat.symm
      unused := by
        rw [unused']
        exact free.unused.frame fun a member => congrArg ScheduledFn.mNext
          (kept a (recycled a member) (other a (List.mem_append_right (q ++ [last]) member)))
      apart := apart
      count := count.trans count'.symm
      most := count'.symm ▸ free.most
      live := live'.symm ▸ live
      funcs := by
        have functions : ∀ a ∈ q ++ [last], (r.node a).mFunc = (s.node a).mFunc := by
          intro a member
          by_cases final : a = last
          · rw [final, linked]
          · rw [kept a final (other a (List.mem_append_left u member))]
        rw [List.map_append, List.map_congr_left functions, free.funcs, List.map_append,
          List.map_singleton, filled]
        rfl }

/-- An accepted function is the last one of the queue; a rejected call leaves the queue. -/
theorem scheduleFunction_holds {s : Queue α} {q u : List Addr} {fns : List α}
    (holds : s.Holds q u fns) (fn : Option α) (offer : Option Addr) :
    s.scheduleFunction fn offer = some (false, s) ∨
      ∃ f item s' u', fn = some f ∧ s.scheduleFunction fn offer = some (true, s') ∧
        s'.Holds (q ++ [item]) u' (fns ++ [f]) := by
  cases fn with
  | none => exact Or.inl rfl
  | some f =>
    unfold scheduleFunction
    dsimp only
    rcases getFnUnsafe_cases holds offer with rejected | ⟨item, t, u', got, free⟩
    · rw [rejected]
      exact Or.inl rfl
    · obtain ⟨s', linked, holds'⟩ := link_holds free f
      rw [got]
      refine Or.inr ⟨f, item, s', u', rfl, ?_, holds'⟩
      dsimp only
      rw [linked]
      rfl

theorem removeFirst_eq {s : Queue α} {a : Addr} (first : s.sFirst = some a) :
    s.removeFirst = some {
      node := fun b => if b = a then ⟨s.sUnused, none⟩ else s.node b
      sFirst := (s.node a).mNext
      sLast := if s.sLast = some a then none else s.sLast
      sUnused := some a
      sCount := s.sCount
      allocated := s.allocated } := by
  unfold removeFirst
  rw [first]
  dsimp only
  split <;> rfl

/-- The first node of the queue is the first of the recycled ones then. -/
theorem removeFirst_holds {s : Queue α} {a : Addr} {q u : List Addr} {f : α} {fns : List α}
    (holds : s.Holds (a :: q) u (f :: fns)) :
    ∃ s', s.removeFirst = some s' ∧ s'.Holds q (a :: u) fns := by
  have chains : (q ++ a :: u).Perm (a :: q ++ u) := List.perm_middle
  have fresh := (List.nodup_cons.1 holds.apart).1
  have other : ∀ b ∈ q ++ u, b ≠ a := fun b member same => fresh (same ▸ member)
  refine ⟨_, removeFirst_eq holds.first.1, ?_⟩
  exact {
    first := holds.first.2.frame fun b member =>
      congrArg ScheduledFn.mNext (if_neg (other b (List.mem_append_left u member)))
    last := by
      dsimp only
      rw [holds.last]
      cases q with
      | nil => exact if_pos rfl
      | cons b q =>
        rw [List.getLast?_cons_cons, if_neg]
        intro same
        have final := List.mem_of_getLast? same
        exact other a (List.mem_append_left u final) rfl
    unused := by
      refine ⟨rfl, ?_⟩
      change Chain _ (if a = a then (⟨s.sUnused, none⟩ : ScheduledFn α) else s.node a).mNext u
      rw [if_pos rfl]
      exact holds.unused.frame fun b member =>
        congrArg ScheduledFn.mNext (if_neg (other b (List.mem_append_right q member)))
    apart := chains.nodup_iff.2 holds.apart
    count := by
      rw [← holds.count, List.length_cons, List.length_cons]
      omega
    most := holds.most
    live := fun b member => holds.live b (chains.mem_iff.1 member)
    funcs := by
      have tail := congrArg List.tail holds.funcs
      refine Eq.trans (List.map_congr_left fun b member => ?_) tail
      exact congrArg ScheduledFn.mFunc (if_neg (other b (List.mem_append_left u member))) }

theorem Holds.length {s : Queue α} {q u : List Addr} {fns : List α} (holds : s.Holds q u fns) :
    q.length = fns.length := by
  have lengths := congrArg List.length holds.funcs
  rwa [List.length_map, List.length_map] at lengths

end Queue

/-! ## Runs -/

namespace System

/-- The stop node is the one with number `k` in the queue. -/
def Stops (stop : Addr) (q : List Addr) (k : Nat) : Prop := q[k]? = some stop

theorem Stops.concat {stop : Addr} {q : List Addr} {k : Nat} (stops : Stops stop q k)
    (item : Addr) : Stops stop (q ++ [item]) k := by
  have inside := (List.getElem?_eq_some_iff.1 stops).1
  rw [Stops, List.getElem?_append_left inside]
  exact stops

theorem Stops.lt {stop : Addr} {q : List Addr} {k : Nat} (stops : Stops stop q k) :
    k < q.length :=
  (List.getElem?_eq_some_iff.1 stops).1

/-- The pass has come to its stop node when that is the first one. -/
theorem Stops.first {stop : Addr} {q : List Addr} {k : Nat} (stops : Stops stop q k)
    (once : q.Nodup) : q.head? = some stop ↔ k = 0 := by
  cases q with
  | nil => exact absurd stops.lt (Nat.not_lt_zero k)
  | cons a q =>
    cases k with
    | zero => exact iff_of_true stops rfl
    | succ k =>
      refine iff_of_false ?_ (Nat.succ_ne_zero k)
      intro first
      have same : a = stop := Option.some.inj first
      have later : stop ∈ q := List.mem_of_getElem? stops
      exact (List.nodup_cons.1 once).1 (same ▸ later)

/-- What a pass has still to call, when the functions `fns` wait in the queue `q`. -/
def InPass (s : System α) (q : List Addr) (fns : List α) : Pass → Prop
  | .idle => s.accepted = s.executed ++ fns
  | .test none done => done = false ∧ fns = [] ∧ s.accepted = s.executed ∧ s.entered = s.executed
  | .test (some _) true => s.accepted = s.executed ++ fns ∧ s.entered = s.executed
  | .test (some stop) false | .mark (some stop) => s.accepted = s.executed ++ fns ∧
      ∃ k, Stops stop q k ∧ s.entered = s.executed ++ fns.take (k + 1)
  | .call (some stop) done => s.accepted = s.executed ++ fns ∧
      ∃ k, Stops stop q k ∧ s.entered = s.executed ++ fns.take (k + 1) ∧ (done = true ↔ k = 0)
  | .remove (some stop) done => ∃ f rest, fns = f :: rest ∧ s.accepted = s.executed ++ rest ∧
      ∃ k, Stops stop q k ∧ s.entered = s.executed ++ rest.take k ∧ (done = true ↔ k = 0)
  | .mark none | .call none _ | .remove none _ => False

def Inv (s : System α) : Prop :=
  ∃ q u fns, s.queue.Holds q u fns ∧ s.InPass q fns s.pass ∧
    ∀ e ∈ s.ended, e.executed = e.entered

theorem start_inv : (start : System α).Inv :=
  ⟨[], [], [], Queue.empty_holds, rfl, fun _ member => absurd member List.not_mem_nil⟩

/-- No function is accepted between the start of a pass that finds the queue empty and its first
look at the queue. -/
def Timely (action : Action α) (s : System α) : Prop :=
  match action with
  | .schedule _ _ => s.pass = .test none false → (step action s).1 ≠ some true
  | .advance => True

/-- A function that is accepted waits behind those that a pass has still to call. -/
theorem InPass.concat {s : System α} {queue : Queue α} {q : List Addr} {fns : List α}
    (inPass : s.InPass q fns s.pass) (same : q.length = fns.length) (item : Addr) (f : α)
    (timely : s.pass ≠ .test none false) :
    InPass { s with queue := queue, accepted := s.accepted ++ [f] } (q ++ [item]) (fns ++ [f])
      s.pass := by
  have more : s.accepted = s.executed ++ fns →
      s.accepted ++ [f] = s.executed ++ (fns ++ [f]) := by
    intro accepted
    rw [accepted, List.append_assoc]
  have taken : ∀ k, k < q.length → (fns ++ [f]).take (k + 1) = fns.take (k + 1) := by
    intro k inside
    rw [List.take_append_of_le_length (by omega)]
  cases pass : s.pass with
  | idle =>
    rw [pass] at inPass
    exact more inPass
  | test stop done =>
    rw [pass] at inPass timely
    cases stop with
    | none =>
      obtain ⟨rfl, _⟩ := inPass
      exact absurd rfl timely
    | some stop =>
      cases done with
      | true => exact ⟨more inPass.1, inPass.2⟩
      | false =>
        obtain ⟨accepted, k, stops, entered⟩ := inPass
        exact ⟨more accepted, k, stops.concat item, by rw [taken k stops.lt]; exact entered⟩
  | mark stop =>
    rw [pass] at inPass
    cases stop with
    | none => exact inPass
    | some stop =>
      obtain ⟨accepted, k, stops, entered⟩ := inPass
      exact ⟨more accepted, k, stops.concat item, by rw [taken k stops.lt]; exact entered⟩
  | call stop done =>
    rw [pass] at inPass
    cases stop with
    | none => exact inPass
    | some stop =>
      obtain ⟨accepted, k, stops, entered, final⟩ := inPass
      exact ⟨more accepted, k, stops.concat item, by rw [taken k stops.lt]; exact entered, final⟩
  | remove stop done =>
    rw [pass] at inPass
    cases stop with
    | none => exact inPass
    | some stop =>
      obtain ⟨g, rest, rfl, accepted, k, stops, entered, final⟩ := inPass
      refine ⟨g, rest ++ [f], rfl, ?_, k, stops.concat item, ?_, final⟩
      · change s.accepted ++ [f] = _
        rw [accepted, List.append_assoc]
      · have inside := stops.lt
        rw [List.length_cons] at same
        rw [List.take_append_of_le_length (by omega)]
        exact entered

/-- A call of `schedule_function` in any state of the invariant. -/
theorem schedule_inv {s : System α} (inv : s.Inv) (fn : Option α) (offer : Option Addr) :
    step (.schedule fn offer) s = (some false, s) ∨
      ∃ f queue, fn = some f ∧ step (.schedule fn offer) s = (some true,
          { s with queue := queue, accepted := s.accepted ++ [f] }) ∧
        (s.pass ≠ .test none false →
          Inv { s with queue := queue, accepted := s.accepted ++ [f] }) := by
  obtain ⟨q, u, fns, holds, inPass, passes⟩ := inv
  rcases Queue.scheduleFunction_holds holds fn offer with
    rejected | ⟨f, item, queue, u', rfl, accepted, holds'⟩
  · left
    rw [step, rejected]
    rfl
  · right
    refine ⟨f, queue, rfl, ?_, fun timely => ?_⟩
    · rw [step, accepted]
      rfl
    · exact ⟨q ++ [item], u', fns ++ [f], holds', inPass.concat holds.length item f timely, passes⟩

/-- The steps from here to the next call, in a pass that comes to it or with `again` more. -/
def phase (again : Nat) : Pass → Nat
  | .idle => 4
  | .test _ _ => 3 + again
  | .mark _ => 2 + again
  | .call _ _ => 1 + again
  | .remove _ _ => 4 + again

theorem phase_le {again : Nat} (few : again ≤ 2) (pass : Pass) : phase again pass ≤ 6 := by
  cases pass <;> rw [phase] <;> omega

/-- How many steps of passes it takes at most until `n` functions have been called. -/
def awaited (n : Nat) (s : System α) : Nat :=
  if n ≤ s.executed.length then 0
  else 4 * (n - s.executed.length) + phase (if s.entered.length < n then 2 else 0) s.pass

/-- A step of a pass leads nowhere but to the next state of the invariant, and is progress. -/
structure Advances (s s' : System α) : Prop where
  inv : s'.Inv
  accepted : s'.accepted = s.accepted
  progress : ∀ n, n ≤ s.accepted.length → s'.awaited n ≤ s.awaited n - 1

theorem advance_idle {s : System α} (inv : s.Inv) (pass : s.pass = .idle) :
    ∃ s', s.advance = some s' ∧ s.Advances s' := by
  obtain ⟨q, u, fns, holds, inPass, passes⟩ := inv
  rw [pass] at inPass
  have result : s.advance = some { s with
      pass := .test s.queue.sLast false, entered := s.accepted } := by
    rw [advance, pass]
  refine ⟨_, result, ⟨q, u, fns, holds, ?_, passes⟩, rfl, ?_⟩
  · have accepted : s.accepted = s.executed ++ fns := inPass
    have length := holds.length
    dsimp only
    rw [holds.last]
    rcases q.eq_nil_or_concat' with rfl | ⟨q, last, rfl⟩
    · have none : fns = [] := List.eq_nil_of_length_eq_zero length.symm
      rw [none, List.append_nil] at accepted
      exact ⟨rfl, none, accepted, accepted⟩
    · rw [List.getLast?_concat]
      refine ⟨accepted, q.length, ?_, ?_⟩
      · rw [Stops, List.getElem?_append_right (Nat.le_refl _), Nat.sub_self]
        rfl
      · rw [List.length_append, List.length_singleton] at length
        rw [length, List.take_length]
        exact accepted
  · intro n reach
    simp only [awaited, pass, phase]
    split
    · exact Nat.zero_le _
    · rw [if_neg (Nat.not_lt.2 reach)]
      omega

theorem advance_test {s : System α} (inv : s.Inv) {stop : Option Addr} {done : Bool}
    (pass : s.pass = .test stop done) : ∃ s', s.advance = some s' ∧ s.Advances s' := by
  obtain ⟨q, u, fns, holds, inPass, passes⟩ := inv
  have first := holds.first.head
  have length := holds.length
  rw [pass] at inPass
  -- The pass ends where it has called what was accepted before it.
  have finish : s.entered = s.executed → s.accepted = s.executed ++ fns →
      (s.queue.sFirst.isSome && !done) = false → ∃ s', s.advance = some s' ∧ s.Advances s' := by
    intro entered accepted ends
    have result : s.advance = some { s with
        pass := .idle, ended := ⟨s.entered, s.executed⟩ :: s.ended } := by
      rw [advance, pass]
      dsimp only
      rw [ends]
      rfl
    refine ⟨_, result, ⟨q, u, fns, holds, accepted, ?_⟩, rfl, ?_⟩
    · intro e member
      rcases List.mem_cons.1 member with rfl | before
      · exact entered.symm
      · exact passes e before
    · intro n reach
      simp only [awaited, pass, phase]
      split
      · exact Nat.zero_le _
      · rename_i missing
        rw [entered, if_pos (Nat.lt_of_not_le missing)]
        omega
  cases stop with
  | none =>
    obtain ⟨rfl, rfl, accepted, entered⟩ := inPass
    refine finish entered (by rw [accepted, List.append_nil]) ?_
    rw [first, List.eq_nil_of_length_eq_zero length]
    rfl
  | some stop =>
    cases done with
    | true => exact finish inPass.2 inPass.1 (Bool.and_false _)
    | false =>
      obtain ⟨accepted, k, stops, entered⟩ := inPass
      have more : (s.queue.sFirst.isSome && !false) = true := by
        rw [first]
        cases q with
        | nil => exact absurd stops.lt (Nat.not_lt_zero k)
        | cons a q => rfl
      have result : s.advance = some { s with pass := .mark (some stop) } := by
        rw [advance, pass]
        dsimp only
        rw [more]
        rfl
      refine ⟨_, result, ⟨q, u, fns, holds, ⟨accepted, k, stops, entered⟩, passes⟩, rfl, ?_⟩
      intro n reach
      simp only [awaited, pass, phase]
      split <;> omega

theorem advance_mark {s : System α} (inv : s.Inv) {stop : Option Addr}
    (pass : s.pass = .mark stop) : ∃ s', s.advance = some s' ∧ s.Advances s' := by
  obtain ⟨q, u, fns, holds, inPass, passes⟩ := inv
  rw [pass] at inPass
  cases stop with
  | none => exact inPass.elim
  | some stop =>
    obtain ⟨accepted, k, stops, entered⟩ := inPass
    have once : q.Nodup := (List.nodup_append.1 holds.apart).1
    have final : decide (s.queue.sFirst = some stop) = true ↔ k = 0 := by
      rw [decide_eq_true_iff, holds.first.head]
      exact stops.first once
    have result : s.advance = some { s with
        pass := .call (some stop) (s.queue.sFirst = some stop) } := by
      rw [advance, pass]
    refine ⟨_, result,
      ⟨q, u, fns, holds, ⟨accepted, k, stops, entered, final⟩, passes⟩, rfl, ?_⟩
    intro n reach
    simp only [awaited, pass, phase]
    split <;> omega

theorem advance_call {s : System α} (inv : s.Inv) {stop : Option Addr} {done : Bool}
    (pass : s.pass = .call stop done) : ∃ s', s.advance = some s' ∧ s.Advances s' := by
  obtain ⟨q, u, fns, holds, inPass, passes⟩ := inv
  rw [pass] at inPass
  cases stop with
  | none => exact inPass.elim
  | some stop =>
    obtain ⟨accepted, k, stops, entered, final⟩ := inPass
    have length := holds.length
    cases q with
    | nil => exact absurd stops.lt (Nat.not_lt_zero k)
    | cons a q =>
      cases fns with
      | nil => exact absurd length (Nat.succ_ne_zero _)
      | cons f rest =>
        have first : s.queue.sFirst = some a := holds.first.1
        have function : (s.queue.node a).mFunc = some f := (List.cons.inj holds.funcs).1
        have result : s.advance = some { s with
            pass := .remove (some stop) done, executed := s.executed ++ [f] } := by
          rw [advance, pass]
          dsimp only
          rw [first]
          dsimp only
          rw [function]
        refine ⟨_, result,
          ⟨a :: q, u, f :: rest, holds, ⟨f, rest, rfl, ?_, k, stops, ?_, final⟩, passes⟩, rfl, ?_⟩
        · rw [accepted, List.append_assoc]
          rfl
        · rw [entered, List.take_succ_cons, List.append_assoc]
          rfl
        · intro n reach
          simp only [awaited, pass, phase, List.length_append, List.length_singleton]
          by_cases near : n ≤ s.executed.length + 1
          · rw [if_pos near]
            exact Nat.zero_le _
          · rw [if_neg near, if_neg (show ¬n ≤ s.executed.length by omega)]
            omega

theorem advance_remove {s : System α} (inv : s.Inv) {stop : Option Addr} {done : Bool}
    (pass : s.pass = .remove stop done) : ∃ s', s.advance = some s' ∧ s.Advances s' := by
  obtain ⟨q, u, fns, holds, inPass, passes⟩ := inv
  rw [pass] at inPass
  cases stop with
  | none => exact inPass.elim
  | some stop =>
    obtain ⟨f, rest, rfl, accepted, k, stops, entered, final⟩ := inPass
    cases q with
    | nil => exact absurd stops.lt (Nat.not_lt_zero k)
    | cons a q =>
      obtain ⟨queue, removed, holds'⟩ := Queue.removeFirst_holds holds
      have result : s.advance = some { s with
          queue := queue, pass := .test (some stop) done } := by
        rw [advance, pass]
        dsimp only
        rw [removed]
      refine ⟨_, result, ⟨q, a :: u, rest, holds', ?_, passes⟩, rfl, ?_⟩
      · dsimp only
        cases done with
        | true =>
          have last : k = 0 := final.1 rfl
          rw [last, List.take_zero, List.append_nil] at entered
          exact ⟨accepted, entered⟩
        | false =>
          cases k with
          | zero => exact absurd (final.2 rfl) Bool.false_ne_true
          | succ k => exact ⟨accepted, k, stops, entered⟩
      · intro n reach
        simp only [awaited, pass, phase]
        split <;> omega

theorem advance_inv {s : System α} (inv : s.Inv) : ∃ s', s.advance = some s' ∧ s.Advances s' := by
  cases pass : s.pass with
  | idle => exact advance_idle inv pass
  | test stop done => exact advance_test inv pass
  | mark stop => exact advance_mark inv pass
  | call stop done => exact advance_call inv pass
  | remove stop done => exact advance_remove inv pass

/-- What holds of every state: the nodes of the two chains are those counted; functions are called
in the order of acceptance, each once; a pass that has ended called what was accepted before it
began and not called yet, and one under way goes no further; no null pointer is followed; and a
rejected call changes nothing. -/
structure Sound (s : System α) : Prop where
  nodes : ∃ q u, Chain s.queue.next s.queue.sFirst q ∧ Chain s.queue.next s.queue.sUnused u ∧
    (q ++ u).Nodup ∧ q.length + u.length = s.queue.sCount ∧ s.queue.sCount ≤ scheduledFnMaxCount
  order : s.executed <+: s.accepted
  passes : ∀ e ∈ s.ended, e.executed = e.entered
  underway : s.pass ≠ .idle → s.executed <+: s.entered
  follows : ∀ action, (step action s).1 ≠ none
  rejects : ∀ fn offer, (step (.schedule fn offer) s).1 = some false →
    (step (.schedule fn offer) s).2 = s

theorem InPass.order {s : System α} {q : List Addr} {fns : List α}
    (inPass : s.InPass q fns s.pass) : ∃ waiting, waiting.length ≤ fns.length ∧
      s.accepted = s.executed ++ waiting := by
  cases pass : s.pass with
  | idle =>
    rw [pass] at inPass
    exact ⟨fns, Nat.le_refl _, inPass⟩
  | test stop done =>
    rw [pass] at inPass
    cases stop with
    | none => exact ⟨[], Nat.zero_le _, by rw [List.append_nil]; exact inPass.2.2.1⟩
    | some stop =>
      cases done with
      | true => exact ⟨fns, Nat.le_refl _, inPass.1⟩
      | false => exact ⟨fns, Nat.le_refl _, inPass.1⟩
  | mark stop =>
    rw [pass] at inPass
    cases stop with
    | none => exact inPass.elim
    | some stop => exact ⟨fns, Nat.le_refl _, inPass.1⟩
  | call stop done =>
    rw [pass] at inPass
    cases stop with
    | none => exact inPass.elim
    | some stop => exact ⟨fns, Nat.le_refl _, inPass.1⟩
  | remove stop done =>
    rw [pass] at inPass
    cases stop with
    | none => exact inPass.elim
    | some stop =>
      obtain ⟨f, rest, rfl, accepted, _⟩ := inPass
      exact ⟨rest, Nat.le_succ _, accepted⟩

theorem InPass.underway {s : System α} {q : List Addr} {fns : List α}
    (inPass : s.InPass q fns s.pass) (pass' : s.pass ≠ .idle) : s.executed <+: s.entered := by
  cases pass : s.pass with
  | idle => exact absurd pass pass'
  | test stop done =>
    rw [pass] at inPass
    cases stop with
    | none => exact ⟨[], by rw [List.append_nil]; exact inPass.2.2.2.symm⟩
    | some stop =>
      cases done with
      | true => exact ⟨[], by rw [List.append_nil]; exact inPass.2.symm⟩
      | false =>
        obtain ⟨_, k, _, entered⟩ := inPass
        exact ⟨_, entered.symm⟩
  | mark stop =>
    rw [pass] at inPass
    cases stop with
    | none => exact inPass.elim
    | some stop =>
      obtain ⟨_, k, _, entered⟩ := inPass
      exact ⟨_, entered.symm⟩
  | call stop done =>
    rw [pass] at inPass
    cases stop with
    | none => exact inPass.elim
    | some stop =>
      obtain ⟨_, k, _, entered, _⟩ := inPass
      exact ⟨_, entered.symm⟩
  | remove stop done =>
    rw [pass] at inPass
    cases stop with
    | none => exact inPass.elim
    | some stop =>
      obtain ⟨f, rest, _, _, k, _, entered, _⟩ := inPass
      exact ⟨_, entered.symm⟩

theorem Inv.sound {s : System α} (inv : s.Inv) : s.Sound := by
  have advances := advance_inv inv
  have schedules := schedule_inv inv
  obtain ⟨q, u, fns, holds, inPass, passes⟩ := inv
  obtain ⟨waiting, _, accepted⟩ := inPass.order
  exact {
    nodes := ⟨q, u, holds.first, holds.unused, holds.apart, holds.count, holds.most⟩
    order := ⟨waiting, accepted.symm⟩
    passes := passes
    underway := inPass.underway
    follows := by
      intro action
      cases action with
      | schedule fn offer =>
        rcases schedules fn offer with rejected | ⟨f, queue, _, accepted, _⟩
        · rw [rejected]
          exact Option.some_ne_none _
        · rw [accepted]
          exact Option.some_ne_none _
      | advance =>
        obtain ⟨s', result, _⟩ := advances
        rw [step, result]
        exact Option.some_ne_none _
    rejects := by
      intro fn offer rejected
      rcases schedules fn offer with same | ⟨f, queue, _, accepted, _⟩
      · rw [same]
      · rw [accepted] at rejected
        exact absurd rejected (by simp) }

theorem step_inv (action : Action α) (s : System α) (timely : Timely action s) (inv : s.Inv) :
    (step action s).2.Inv := by
  cases action with
  | schedule fn offer =>
    rcases schedule_inv inv fn offer with rejected | ⟨f, queue, _, accepted, inv'⟩
    · rw [rejected]
      exact inv
    · rw [accepted]
      refine inv' fun pass => ?_
      have refused := timely pass
      rw [accepted] at refused
      exact refused rfl
  | advance =>
    obtain ⟨s', result, advances⟩ := advance_inv inv
    rw [step, result]
    exact advances.inv

/-- How many steps are made by passes. -/
def advances : List (Action α) → Nat
  | [] => 0
  | .schedule _ _ :: rest => advances rest
  | .advance :: rest => advances rest + 1

/-- A step makes the wait shorter, if it is one of a pass, and forgets no function. -/
theorem step_awaited {action : Action α} {s : System α} (inv : s.Inv) (n : Nat)
    (reach : n ≤ s.accepted.length) :
    (step action s).2.awaited n ≤ s.awaited n - advances [action] ∧
      s.accepted <+: (step action s).2.accepted := by
  cases action with
  | schedule fn offer =>
    rcases schedule_inv inv fn offer with rejected | ⟨f, queue, _, accepted, _⟩
    · rw [rejected]
      exact ⟨Nat.le_refl _, List.prefix_refl _⟩
    · rw [accepted]
      exact ⟨Nat.le_refl _, List.prefix_append _ _⟩
  | advance =>
    obtain ⟨s', result, advances⟩ := advance_inv inv
    rw [step, result]
    exact ⟨advances.progress n reach, [], by rw [List.append_nil, advances.accepted]⟩

theorem after_awaited {later : List (Action α)} (n : Nat) : ∀ {s : System α}, s.Inv →
    Runs.Admits step Timely later s → n ≤ s.accepted.length →
      (Runs.after step later s).awaited n ≤ s.awaited n - advances later ∧
        s.accepted <+: (Runs.after step later s).accepted := by
  induction later with
  | nil => intro s _ _ _; exact ⟨Nat.le_refl _, List.prefix_refl _⟩
  | cons action rest ih =>
    intro s inv admits reach
    obtain ⟨less, kept⟩ := @step_awaited _ action _ inv n reach
    obtain ⟨less', kept'⟩ := ih (step_inv action s admits.1 inv) admits.2
      (Nat.le_trans reach kept.length_le)
    refine ⟨?_, kept.trans kept'⟩
    have steps : advances (action :: rest) = advances [action] + advances rest := by
      cases action with
      | schedule fn offer => exact (Nat.zero_add _).symm
      | advance => exact Nat.add_comm _ _
    rw [Runs.after_cons, steps]
    omega

/-- The wait is never longer than this. -/
theorem awaited_le {s : System α} (inv : s.Inv) :
    s.awaited s.accepted.length ≤ 4 * scheduledFnMaxCount + 6 := by
  obtain ⟨q, u, fns, holds, inPass, _⟩ := inv
  obtain ⟨waiting, few, accepted⟩ := inPass.order
  have length := congrArg List.length accepted
  have same := holds.length
  have count := holds.count
  have most := holds.most
  rw [List.length_append] at length
  have again : (if s.entered.length < s.accepted.length then 2 else 0) ≤ 2 := by
    split <;> omega
  have steps := phase_le again s.pass
  rw [awaited]
  split
  · exact Nat.zero_le _
  · omega

/-- In every run without an acceptance between the start of a pass that finds the queue empty and
its first look at the queue, and what was accepted has been called as soon as passes have made
enough steps. -/
theorem scheduled_once (actions : List (Action α))
    (timely : Runs.Admits step Timely actions (start : System α)) :
    (Runs.after step actions (start : System α)).Sound ∧
      ∀ later, Runs.Admits step Timely later (Runs.after step actions start) →
        4 * scheduledFnMaxCount + 6 ≤ advances later →
          (Runs.after step actions start).accepted <+:
            (Runs.after step later (Runs.after step actions start)).executed := by
  have inv := Runs.after_invariant step_inv actions start timely start_inv
  refine ⟨inv.sound, fun later timely' enough => ?_⟩
  have inv' := Runs.after_invariant step_inv later _ timely' inv
  obtain ⟨less, kept⟩ := after_awaited _ inv timely' (Nat.le_refl _)
  have most := awaited_le inv
  have none : (Runs.after step later (Runs.after step actions start)).awaited
      (Runs.after step actions (start : System α)).accepted.length = 0 := by
    omega
  refine List.prefix_of_prefix_length_le kept inv'.sound.order ?_
  by_contra missing
  rw [awaited, if_neg missing] at none
  omega

/-- Two functions, the second accepted during the pass that calls the first. -/
theorem scheduled_once_two : (Runs.after step [.schedule (some 7) (some 0), .advance,
    .schedule (some 8) (some 1), .advance, .advance, .advance, .advance, .advance]
      (start : System Nat)).Sound :=
  (scheduled_once [.schedule (some 7) (some 0), .advance, .schedule (some 8) (some 1), .advance,
    .advance, .advance, .advance, .advance] ⟨fun pass => (nomatch pass), trivial,
      fun pass => (nomatch pass), trivial, trivial, trivial, trivial, trivial, trivial⟩).1

/-- A pass that begins with an empty queue calls a function that an interrupt schedules before it
looks at the queue. -/
theorem scheduled_too_early : ((Runs.after step [.advance, .schedule (some 7) (some 0), .advance,
    .advance, .advance, .advance, .advance] (start : System Nat)).ended.map fun e =>
      (e.entered, e.executed)) = [([], [7])] := by
  decide

end System

end Esp8266.Source.Schedule
