import Esp8266.Lib.Chain
import Esp8266.Source.RecurrentSchedule

/-!
# A pass over the recurrent functions

The nodes form one chain from `rFirst` to `rLast`. Callbacks let it grow at its end. At every
visit it consists of the nodes kept so far, of which `prev` is the last, of those that the pass
has yet to visit, of which `stop` is the last, and of those registered since the pass began.
-/
set_option autoImplicit false

namespace Esp8266.Source.Recurrent
open Esp8266.Lib

variable {α : Type*}

namespace Functions

def next (s : Functions α) (a : Addr) : Option Addr := (s.node a).bind RecurrentFn.mNext

def entry (s : Functions α) (a : Addr) : Option (Registered α) :=
  (s.node a).map fun fn => ⟨fn.mFunc, fn.alarm⟩

theorem next_of_node {s : Functions α} {a : Addr} {fn : RecurrentFn α}
    (found : s.node a = some fn) : s.next a = fn.mNext := by
  rw [next, found]
  rfl

theorem entry_of_node {s : Functions α} {a : Addr} {fn : RecurrentFn α}
    (found : s.node a = some fn) : s.entry a = some ⟨fn.mFunc, fn.alarm⟩ := by
  rw [entry, found]
  rfl

/-- The list of the functions `entries`, in the nodes `cells`. -/
structure Holds (s : Functions α) (cells : List Addr) (entries : List (Registered α)) : Prop where
  first : Chain s.next s.rFirst cells
  last : s.rLast = cells.getLast?
  apart : cells.Nodup
  stored : cells.map s.entry = entries.map some

theorem start_holds : (start : Functions α).Holds [] [] := ⟨rfl, rfl, List.nodup_nil, rfl⟩

section Nodes

variable {s : Functions α} {cells : List Addr} {entries : List (Registered α)}

theorem Holds.node (holds : s.Holds cells entries) {a : Addr} (inside : a ∈ cells) :
    ∃ fn, s.node a = some fn := by
  have member : s.entry a ∈ entries.map some := holds.stored ▸ List.mem_map_of_mem inside
  obtain ⟨e, -, same⟩ := List.mem_map.1 member
  obtain ⟨fn, found, -⟩ := Option.map_eq_some_iff.1 same.symm
  exact ⟨fn, found⟩

theorem Holds.fresh (holds : s.Holds cells entries) {item : Addr} (unused : s.node item = none) :
    ∀ a ∈ cells, a ≠ item := by
  rintro a inside rfl
  obtain ⟨fn, found⟩ := holds.node inside
  exact absurd (found.symm.trans unused) (Option.some_ne_none fn)

theorem store_self (a : Addr) (fn : Option (RecurrentFn α)) (s : Functions α) :
    (s.store a fn).node a = fn := Function.update_self ..

theorem store_other {a b : Addr} (other : b ≠ a) (fn : Option (RecurrentFn α))
    (s : Functions α) : (s.store a fn).node b = s.node b := Function.update_of_ne other ..

end Nodes

/-! ## Registering -/

/-- Calls only let the list grow at its end. -/
def Extends (s s' : Functions α) (cells : List Addr) (entries : List (Registered α)) : Prop :=
  ∃ newCells news, s'.Holds (cells ++ newCells) (entries ++ news) ∧
    s'.accepted = s.accepted ++ news ∧ s'.visited = s.visited ∧ s'.fence = s.fence

theorem Holds.extends {s : Functions α} {cells : List Addr} {entries : List (Registered α)}
    (holds : s.Holds cells entries) : s.Extends s cells entries :=
  ⟨[], [], by rwa [List.append_nil, List.append_nil], (List.append_nil _).symm, rfl, rfl⟩

/-- A new node on its own. -/
theorem link_first {s : Functions α} {entries : List (Registered α)} (holds : s.Holds [] entries)
    (item : Addr) (f : α) (alarm : Option α) :
    ∃ s', (s.store item (some ⟨none, f, alarm⟩)).link item = some s' ∧
      s'.Holds [item] (entries ++ [⟨f, alarm⟩]) ∧
      s'.accepted = s.accepted ∧ s'.visited = s.visited ∧ s'.fence = s.fence := by
  obtain rfl : entries = [] := List.map_eq_nil_iff.1 holds.stored.symm
  have self : (s.store item (some ⟨none, f, alarm⟩)).node item = some ⟨none, f, alarm⟩ :=
    store_self ..
  refine ⟨{ s.store item (some ⟨none, f, alarm⟩) with rFirst := some item, rLast := some item },
    ?_, ?_, rfl, rfl, rfl⟩
  · rw [link, show (s.store item (some ⟨none, f, alarm⟩)).rLast = none from holds.last]
  · exact {
      first := ⟨rfl, next_of_node self⟩
      last := rfl
      apart := List.nodup_cons.2 ⟨List.not_mem_nil, List.nodup_nil⟩
      stored := congrArg (fun e => [e]) (entry_of_node self) }

/-- A new node behind the last one. -/
theorem link_behind {s : Functions α} {q : List Addr} {last item : Addr}
    {entries : List (Registered α)} (holds : s.Holds (q ++ [last]) entries)
    (unused : s.node item = none) (f : α) (alarm : Option α) :
    ∃ s', (s.store item (some ⟨none, f, alarm⟩)).link item = some s' ∧
      s'.Holds (q ++ [last] ++ [item]) (entries ++ [⟨f, alarm⟩]) ∧
      s'.accepted = s.accepted ∧ s'.visited = s.visited ∧ s'.fence = s.fence := by
  have other := holds.fresh unused
  have inside : last ∈ q ++ [last] := List.mem_append_right q List.mem_cons_self
  obtain ⟨fn, found⟩ := holds.node inside
  have before : ∀ a ∈ q, a ≠ last := fun a member =>
    (List.nodup_append.1 holds.apart).2.2 a member last List.mem_cons_self
  refine ⟨{ (s.store item (some ⟨none, f, alarm⟩)).store last
    (some { fn with mNext := some item }) with rLast := some item }, ?_, ?_, rfl, rfl, rfl⟩
  · rw [link, show (s.store item (some ⟨none, f, alarm⟩)).rLast = some last from
      holds.last.trans List.getLast?_concat]
    dsimp only
    rw [store_other (other last inside), found]
    rfl
  · generalize linked : ({ (s.store item (some ⟨none, f, alarm⟩)).store last
      (some { fn with mNext := some item }) with rLast := some item } : Functions α) = u
    have uLast : u.node last = some { fn with mNext := some item } := linked ▸ store_self ..
    have uItem : u.node item = some ⟨none, f, alarm⟩ :=
      linked ▸ (store_other (other last inside).symm ..).trans (store_self ..)
    have uOther : ∀ a ∈ q, u.node a = s.node a := fun a member =>
      linked ▸ (store_other (before a member) ..).trans
        (store_other (other a (List.mem_append_left _ member)) ..)
    have uFirst : u.rFirst = s.rFirst := linked ▸ rfl
    have uRLast : u.rLast = some item := linked ▸ rfl
    have same : (q ++ [last]).map u.entry = (q ++ [last]).map s.entry := by
      refine List.map_congr_left fun a member => ?_
      rcases List.mem_append.1 member with early | final
      · exact congrArg (Option.map _) (uOther a early)
      · rw [List.mem_singleton.1 final, entry_of_node uLast, entry_of_node found]
    exact {
      first := by
        rw [uFirst]
        exact holds.first.concat
          (fun a member => congrArg (·.bind RecurrentFn.mNext) (uOther a member))
          (next_of_node uLast) (next_of_node uItem)
      last := uRLast.trans List.getLast?_concat.symm
      apart := List.nodup_append.2 ⟨holds.apart,
        List.nodup_cons.2 ⟨List.not_mem_nil, List.nodup_nil⟩, fun a member b final => by
          rw [List.mem_singleton.1 final]
          exact other a member⟩
      stored := by
        rw [List.map_append, same, holds.stored, List.map_append, List.map_singleton,
          entry_of_node uItem, List.map_singleton] }

/-- The new node becomes the last one. -/
theorem link_holds {s : Functions α} {cells : List Addr} {entries : List (Registered α)}
    (holds : s.Holds cells entries) {item : Addr} (unused : s.node item = none) (f : α)
    (alarm : Option α) :
    ∃ s', (s.store item (some ⟨none, f, alarm⟩)).link item = some s' ∧
      s'.Holds (cells ++ [item]) (entries ++ [⟨f, alarm⟩]) ∧
      s'.accepted = s.accepted ∧ s'.visited = s.visited ∧ s'.fence = s.fence := by
  rcases cells.eq_nil_or_concat' with rfl | ⟨q, last, rfl⟩
  · exact link_first holds item f alarm
  · exact link_behind holds unused f alarm

/-- A registration that is accepted makes the list longer. -/
theorem schedule_extends {s : Functions α} {cells : List Addr} {entries : List (Registered α)}
    (holds : s.Holds cells entries) (fn alarm : Option α) (offer : Option Addr) :
    ∃ ok s', s.scheduleRecurrentFunctionUs fn alarm offer = some (ok, s') ∧
      s.Extends s' cells entries := by
  match fn, offer with
  | none, _ => exact ⟨false, s, rfl, holds.extends⟩
  | some _, none => exact ⟨false, s, rfl, holds.extends⟩
  | some f, some item =>
    unfold scheduleRecurrentFunctionUs
    dsimp only
    cases unused : s.node item with
    | some _ => exact ⟨false, s, rfl, holds.extends⟩
    | none =>
      obtain ⟨s', linked, holds', accepted, visited, fence⟩ := link_holds holds unused f alarm
      rw [linked]
      exact ⟨true, _, rfl, [item], [⟨f, alarm⟩],
        ⟨holds'.first, holds'.last, holds'.apart, holds'.stored⟩,
        congrArg (· ++ _) accepted, visited, fence⟩

theorem Extends.trans {s s' s'' : Functions α} {cells newCells : List Addr}
    {entries news : List (Registered α)}
    (accepted : s'.accepted = s.accepted ++ news) (visited : s'.visited = s.visited)
    (fence : s'.fence = s.fence)
    (later : s'.Extends s'' (cells ++ newCells) (entries ++ news)) :
    s.Extends s'' cells entries := by
  obtain ⟨newCells', news', holds, accepted', visited', fence'⟩ := later
  refine ⟨newCells ++ newCells', news ++ news', ?_, ?_, visited'.trans visited,
    fence'.trans fence⟩
  · rwa [List.append_assoc, List.append_assoc] at holds
  · rw [accepted', accepted, List.append_assoc]

/-- All calls that a callback makes; none of them starts another pass. -/
theorem calls_extends (l : List (Call α)) {s : Functions α} {cells : List Addr}
    {entries : List (Registered α)} (holds : s.Holds cells entries) (fence : s.fence = true) :
    ∃ s', s.calls l = some s' ∧ s.Extends s' cells entries := by
  induction l generalizing s cells entries with
  | nil => exact ⟨s, rfl, holds.extends⟩
  | cons call rest ih =>
    cases call with
    | schedule fn alarm offer =>
      obtain ⟨ok, s', called, newCells, news, holds', accepted, visited, fence'⟩ :=
        schedule_extends holds fn alarm offer
      obtain ⟨s'', called', later⟩ := ih holds' (fence'.trans fence)
      refine ⟨s'', ?_, .trans accepted visited fence' later⟩
      rw [calls, called]
      exact called'
    | run =>
      obtain ⟨s', called, later⟩ := ih holds fence
      refine ⟨s', ?_, later⟩
      rw [calls, runWithin, fence, Bool.or_true]
      exact called

/-- Calls that are made on a condition. -/
theorem callsIf_extends (c : Bool) (l : List (Call α)) {s : Functions α} {cells : List Addr}
    {entries : List (Registered α)} (holds : s.Holds cells entries) (fence : s.fence = true) :
    ∃ s', s.callsIf c l = some s' ∧ s.Extends s' cells entries := by
  cases c with
  | true => exact calls_extends l holds fence
  | false => exact ⟨s, rfl, holds.extends⟩

/-! ## One visit -/

section Visits

variable {s : Functions α} {front back : List Addr} {current : Addr}
  {es bs : List (Registered α)} {e : Registered α}

/-- The parts of a list hold the parts of what is registered. -/
theorem Holds.parts (holds : s.Holds (front ++ current :: back) (es ++ e :: bs))
    (lengths : front.length = es.length) :
    front.map s.entry = es.map some ∧ s.entry current = some e ∧
      back.map s.entry = bs.map some := by
  have stored := holds.stored
  rw [List.map_append, List.map_append, List.map_cons, List.map_cons] at stored
  obtain ⟨left, right⟩ := List.append_inj stored
    (by rw [List.length_map, List.length_map, lengths])
  exact ⟨left, List.cons_eq_cons.1 right⟩

theorem Holds.next_current (holds : s.Holds (front ++ current :: back) (es ++ e :: bs)) :
    s.next current = back.head? := (holds.first.drop front).head

/-- `rLast` without the current node. -/
theorem last_without (apart : (front ++ current :: back).Nodup) :
    (if (front ++ current :: back).getLast? = some current then front.getLast?
      else (front ++ current :: back).getLast?) = (front ++ back).getLast? := by
  cases back with
  | nil => rw [if_pos List.getLast?_concat, List.append_nil]
  | cons b rest =>
    have behind : (front ++ current :: b :: rest).getLast? = (b :: rest).getLast? := by
      rw [List.getLast?_append, List.getLast?_cons_cons, List.getLast?_cons]
      rfl
    have last : (front ++ b :: rest).getLast? = (b :: rest).getLast? := by
      rw [List.getLast?_append, List.getLast?_cons]
      rfl
    have differ : (b :: rest).getLast? ≠ some current := fun same =>
      (List.nodup_cons.1 (List.nodup_append.1 apart).2.1).1 (List.mem_of_getLast? same)
    rw [behind, if_neg differ, last]

/-- What remains of the list without the current node. -/
theorem Holds.without (holds : s.Holds (front ++ current :: back) (es ++ e :: bs))
    (lengths : front.length = es.length) :
    (front ++ back).Nodup ∧ (∀ a ∈ front ++ back, a ≠ current) ∧
      (front ++ back).map s.entry = (es ++ bs).map some ∧
      (if s.rLast = some current then front.getLast? else s.rLast) = (front ++ back).getLast? := by
  have apart := List.nodup_cons.1 (List.perm_middle.nodup_iff.1 holds.apart)
  obtain ⟨left, -, right⟩ := holds.parts lengths
  refine ⟨apart.2, fun a member same => apart.1 (same ▸ member), ?_, ?_⟩
  · rw [List.map_append, List.map_append, left, right]
  · rw [holds.last]
    exact last_without holds.apart

/-- The first node is taken out. -/
theorem ditch_first (holds : s.Holds ([] ++ current :: back) (es ++ e :: bs))
    (lengths : ([] : List Addr).length = es.length) :
    ∃ s', s.ditch none current = some (none, back.head?, s') ∧ s'.Holds ([] ++ back) (es ++ bs) ∧
      s'.accepted = s.accepted ∧ s'.visited = s.visited ∧ s'.fence = s.fence := by
  obtain ⟨apart, other, stored, last⟩ := holds.without lengths
  obtain ⟨fn, found⟩ := holds.node List.mem_cons_self
  have after : fn.mNext = back.head? := (next_of_node found).symm.trans holds.next_current
  generalize shortened : (if s.rLast = some current then _ else s.rLast) = rLast at last
  refine ⟨Functions.store current none { s with rLast, rFirst := fn.mNext }, ?_, ?_, rfl, rfl,
    rfl⟩
  · rw [ditch, show (if s.rLast = some current then none else s.rLast) = rLast from shortened,
      ← after]
    dsimp only
    rw [found]
    rfl
  · have same : ∀ a ∈ back, (Functions.store current none
        { s with rLast, rFirst := fn.mNext }).node a = s.node a := fun a member =>
      store_other (other a member) ..
    exact {
      first := by
        have rest := holds.first.drop []
        rw [next_of_node found] at rest
        exact rest.frame fun a member => congrArg (·.bind RecurrentFn.mNext) (same a member)
      last := last
      apart := apart
      stored := stored ▸ List.map_congr_left fun a member =>
        congrArg (Option.map _) (same a member) }

/-- A node behind another one is taken out. -/
theorem ditch_behind {q : List Addr} {p : Addr}
    (holds : s.Holds (q ++ [p] ++ current :: back) (es ++ e :: bs))
    (lengths : (q ++ [p]).length = es.length) :
    ∃ s', s.ditch (some p) current = some (some p, back.head?, s') ∧
      s'.Holds (q ++ [p] ++ back) (es ++ bs) ∧
      s'.accepted = s.accepted ∧ s'.visited = s.visited ∧ s'.fence = s.fence := by
  obtain ⟨apart, other, stored, last⟩ := holds.without lengths
  obtain ⟨fn, found⟩ := holds.node (List.mem_append_right (q ++ [p]) List.mem_cons_self)
  have after : fn.mNext = back.head? := (next_of_node found).symm.trans holds.next_current
  have pInside : p ∈ q ++ [p] := List.mem_append_right q List.mem_cons_self
  obtain ⟨pn, pFound⟩ := holds.node (List.mem_append_left _ pInside)
  rw [List.getLast?_concat] at last
  generalize shortened : (if s.rLast = some current then some p else s.rLast) = rLast at last
  generalize result : (Functions.store current none (Functions.store p
    (some { pn with mNext := fn.mNext }) { s with rLast })) = t
  have tP : t.node p = some { pn with mNext := fn.mNext } := by
    rw [← result, store_other (other p (List.mem_append_left _ pInside)), store_self]
  have tOther : ∀ a ∈ q ++ [p] ++ back, a ≠ p → t.node a = s.node a := by
    intro a member differ
    rw [← result, store_other (other a member), store_other differ]
  have behind : ∀ a ∈ q ++ back, t.node a = s.node a := by
    intro a member
    have once := List.nodup_append.1 apart
    rcases List.mem_append.1 member with early | late
    · exact tOther a (List.mem_append_left _ (List.mem_append_left _ early)) fun same =>
        (List.nodup_append.1 once.1).2.2 a early p List.mem_cons_self same
    · exact tOther a (List.mem_append_right _ late) fun same =>
        once.2.2 p pInside a late same.symm
  have chain : Chain s.next s.rFirst (q ++ p :: current :: back) := by
    have first := holds.first
    rwa [List.append_assoc] at first
  refine ⟨t, ?_, ?_, result ▸ rfl, result ▸ rfl, result ▸ rfl⟩
  · rw [ditch, shortened, ← after, ← result]
    dsimp only
    rw [found]
    dsimp only [bind, Option.bind, bypass]
    rw [pFound]
  · exact {
      first := by
        rw [List.append_assoc, show t.rFirst = s.rFirst from result ▸ rfl]
        exact chain.bypass q
          (fun a member => congrArg (·.bind RecurrentFn.mNext) (behind a member))
          ((next_of_node tP).trans (next_of_node found).symm)
      last := (show t.rLast = rLast from result ▸ rfl).trans last
      apart := apart
      stored := by
        refine stored ▸ List.map_congr_left fun a member => ?_
        by_cases own : a = p
        · rw [own, entry_of_node tP, entry_of_node pFound]
        · exact congrArg (Option.map _) (tOther a member own) }

/-- The current node is taken out, wherever it is. -/
theorem ditch_holds (holds : s.Holds (front ++ current :: back) (es ++ e :: bs))
    (lengths : front.length = es.length) :
    ∃ s', s.ditch front.getLast? current = some (front.getLast?, back.head?, s') ∧
      s'.Holds (front ++ back) (es ++ bs) ∧
      s'.accepted = s.accepted ∧ s'.visited = s.visited ∧ s'.fence = s.fence := by
  rcases front.eq_nil_or_concat' with rfl | ⟨q, p, rfl⟩
  · exact ditch_first holds lengths
  · rw [List.getLast?_concat]
    exact ditch_behind holds lengths

/-- The pass goes on behind the current node. -/
theorem advance_eq (holds : s.Holds (front ++ current :: back) (es ++ e :: bs)) :
    s.advance false front.getLast? current = some (some current, back.head?, s) := by
  have inside : current ∈ front ++ current :: back :=
    List.mem_append_right front List.mem_cons_self
  obtain ⟨fn, found⟩ := holds.node inside
  have after : fn.mNext = back.head? := (next_of_node found).symm.trans holds.next_current
  rw [advance, found, ← after]
  rfl

end Visits

/-- The function is called, and answers that it is not to be called again. -/
def removes (e : Registered α) (v : Visit α) : Bool :=
  (e.alarm.isSome && v.wakeup || v.callNow) && !v.again

/-- The steps of a visit. -/
theorem visit_eq {v : Visit α} {prev prev' next : Option Addr} {current : Addr}
    {s s₁ s₂ s₃ s₄ : Functions α} {fn : RecurrentFn α} (found : s.node current = some fn)
    (alarm : callsIf fn.alarm.isSome v.alarmCalls
      { s with visited := s.visited ++ [⟨fn.mFunc, fn.alarm⟩] } = some s₁)
    (func : s₁.callsIf (fn.alarm.isSome && v.wakeup || v.callNow) v.funcCalls = some s₂)
    (moved : s₂.advance ((fn.alarm.isSome && v.wakeup || v.callNow) && !v.again) prev current =
      some (prev', next, s₃))
    (yielded : s₃.calls v.yieldCalls = some s₄) :
    s.visit v prev current = some (prev', next, s₄) := by
  rw [visit, found]
  dsimp only [bind, Option.bind]
  rw [alarm]
  dsimp only
  rw [func]
  dsimp only
  rw [moved]
  dsimp only
  rw [yielded]

/-- One visit: the current node is kept or not, and all calls register behind the others. -/
theorem visit_spec {s : Functions α} {front back : List Addr} {current : Addr}
    {es bs : List (Registered α)} {e : Registered α} (v : Visit α)
    (holds : s.Holds (front ++ current :: back) (es ++ e :: bs))
    (lengths : front.length = es.length) (fence : s.fence = true) :
    ∃ next s' newCells news,
      s.visit v front.getLast? current =
        some ((front ++ if removes e v then [] else [current]).getLast?, next, s') ∧
      (∀ b, back.head? = some b → next = some b) ∧
      s'.Holds ((front ++ if removes e v then [] else [current]) ++ (back ++ newCells))
        ((es ++ if removes e v then [] else [e]) ++ (bs ++ news)) ∧
      s'.accepted = s.accepted ++ news ∧ s'.visited = s.visited ++ [e] ∧ s'.fence = true := by
  have inside : current ∈ front ++ current :: back :=
    List.mem_append_right front List.mem_cons_self
  obtain ⟨fn, found⟩ := holds.node inside
  have own : (⟨fn.mFunc, fn.alarm⟩ : Registered α) = e :=
    Option.some.inj ((entry_of_node found).symm.trans (holds.parts lengths).2.1)
  subst own
  -- The calls of the alarm and of the function.
  obtain ⟨s₁, called₁, cells₁, news₁, holds₁, accepted₁, visited₁, fence₁⟩ :=
    callsIf_extends fn.alarm.isSome v.alarmCalls
      (s := { s with visited := s.visited ++ [⟨fn.mFunc, fn.alarm⟩] })
      ⟨holds.first, holds.last, holds.apart, holds.stored⟩ fence
  obtain ⟨s₂, called₂, cells₂, news₂, holds₂, accepted₂, visited₂, fence₂⟩ :=
    callsIf_extends (fn.alarm.isSome && v.wakeup || v.callNow) v.funcCalls holds₁
      (fence₁.trans fence)
  rw [List.append_assoc, List.append_assoc, List.append_assoc, List.append_assoc, List.cons_append,
    List.cons_append] at holds₂
  -- The current node is removed or passed by.
  generalize choice : removes ⟨fn.mFunc, fn.alarm⟩ v = remove
  have removed : ((fn.alarm.isSome && v.wakeup || v.callNow) && !v.again) = remove := choice
  obtain ⟨s₃, moved, holds₃, accepted₃, visited₃, fence₃⟩ : ∃ s₃,
      s₂.advance remove front.getLast? current =
        some ((front ++ if remove then [] else [current]).getLast?,
          (back ++ (cells₁ ++ cells₂)).head?, s₃) ∧
      s₃.Holds ((front ++ if remove then [] else [current]) ++ (back ++ (cells₁ ++ cells₂)))
        ((es ++ if remove then [] else [⟨fn.mFunc, fn.alarm⟩]) ++ (bs ++ (news₁ ++ news₂))) ∧
      s₃.accepted = s₂.accepted ∧ s₃.visited = s₂.visited ∧ s₃.fence = s₂.fence := by
    cases remove with
    | true =>
      obtain ⟨s₃, ditched, holds₃, same⟩ := ditch_holds holds₂ lengths
      rw [if_pos rfl, if_pos rfl, List.append_nil, List.append_nil]
      exact ⟨s₃, ditched, holds₃, same⟩
    | false =>
      rw [if_neg Bool.false_ne_true, if_neg Bool.false_ne_true, List.getLast?_concat,
        List.append_assoc, List.append_assoc]
      exact ⟨s₂, advance_eq holds₂, holds₂, rfl, rfl, rfl⟩
  obtain ⟨s₄, called₄, cells₄, news₄, holds₄, accepted₄, visited₄, fence₄⟩ :=
    calls_extends v.yieldCalls holds₃ (fence₃.trans (fence₂.trans (fence₁.trans fence)))
  refine ⟨_, s₄, cells₁ ++ cells₂ ++ cells₄, news₁ ++ news₂ ++ news₄,
    visit_eq found called₁ called₂ (by rw [removed, moved]) called₄, ?_, ?_, ?_, ?_, ?_⟩
  · intro b first
    rw [List.head?_append, first]
    rfl
  · simp only [List.append_assoc] at holds₄ ⊢
    exact holds₄
  · rw [accepted₄, accepted₃, accepted₂, accepted₁, List.append_assoc, List.append_assoc,
      List.append_assoc]
  · rw [visited₄, visited₃, visited₂, visited₁]
  · rw [fence₄, fence₃, fence₂, fence₁, fence]

/-- What a pass keeps of functions that it visits from the `i`th visit on. -/
def kept (visits : Nat → Visit α) : Nat → List (Registered α) → List (Registered α)
  | _, [] => []
  | i, e :: es => (if removes e (visits i) then [] else [e]) ++ kept visits (i + 1) es

/-- The nodes that are left, of which `stop` is the last, are visited one after the other. -/
theorem passLoop_spec (visits : Nat → Visit α) (olds : List Addr) {i : Nat} {s : Functions α}
    {front added : List Addr} {current : Addr} {es os ns : List (Registered α)} {e : Registered α}
    (holds : s.Holds (front ++ current :: (olds ++ added)) (es ++ e :: (os ++ ns)))
    (lengths : front.length = es.length) (lengths' : olds.length = os.length)
    (fence : s.fence = true) :
    ∃ s' cells news,
      (∀ fuel, olds.length < fuel →
        passLoop visits (current :: olds).getLast? fuel i front.getLast? current s = some s') ∧
      s'.Holds cells (es ++ kept visits i (e :: os) ++ (ns ++ news)) ∧
      s'.accepted = s.accepted ++ news ∧ s'.visited = s.visited ++ e :: os := by
  induction olds generalizing i s front added current es os ns e with
  | nil =>
    have none_left : os = [] := List.length_eq_zero_iff.1 lengths'.symm
    subst none_left
    obtain ⟨next, s', newCells, news, visit, -, holds', accepted, visited, -⟩ :=
      visit_spec (visits i) holds lengths fence
    have result : s'.Holds ((front ++ if removes e (visits i) then [] else [current]) ++
        (added ++ newCells)) (es ++ kept visits i [e] ++ (ns ++ news)) := by
      rw [kept, kept, List.append_nil]
      exact holds'
    refine ⟨s', _, news, fun fuel enough => ?_, result, accepted, visited⟩
    obtain ⟨fuel, rfl⟩ := Nat.exists_eq_add_one_of_ne_zero (Nat.ne_of_gt enough)
    rw [passLoop, visit]
    cases next with
    | none => rfl
    | some next => exact if_pos (decide_eq_true rfl)
  | cons old rest ih =>
    cases os with
    | nil => exact absurd lengths' (Nat.succ_ne_zero _)
    | cons o os =>
      obtain ⟨next, s', newCells, news, visit, later, holds', accepted, visited, fence'⟩ :=
        visit_spec (visits i) holds lengths fence
      obtain rfl : next = some old := later old rfl
      have differ : ¬ some current = (current :: old :: rest).getLast? := by
        intro same
        rw [List.getLast?_cons_cons] at same
        have again : current ∈ old :: rest ++ added :=
          List.mem_append_left _ (List.mem_of_getLast? same.symm)
        exact (List.nodup_cons.1 (List.nodup_append.1 holds.apart).2.1).1 again
      have lengths₂ : (front ++ if removes e (visits i) then [] else [current]).length =
          (es ++ if removes e (visits i) then [] else [e]).length := by
        rw [List.length_append, List.length_append, lengths]
        cases removes e (visits i) <;> rfl
      have holds₂ : s'.Holds ((front ++ if removes e (visits i) then [] else [current]) ++
          old :: (rest ++ (added ++ newCells)))
          ((es ++ if removes e (visits i) then [] else [e]) ++ o :: (os ++ (ns ++ news))) := by
        simp only [List.append_assoc] at holds' ⊢
        exact holds'
      obtain ⟨s'', cells, news', passed, holds'', accepted', visited'⟩ :=
        ih holds₂ lengths₂ (Nat.succ.inj lengths') fence'
      refine ⟨s'', cells, news ++ news', fun fuel enough => ?_, ?_, ?_, ?_⟩
      · obtain ⟨fuel, rfl⟩ :=
          Nat.exists_eq_add_one_of_ne_zero (Nat.ne_of_gt (Nat.zero_lt_of_lt enough))
        rw [passLoop, visit]
        have goes_on : decide (some current = (current :: old :: rest).getLast?) = false :=
          decide_eq_false differ
        refine Eq.trans (if_neg ?_) (passed fuel (Nat.lt_of_succ_lt_succ enough))
        rw [goes_on]
        exact Bool.false_ne_true
      · rw [kept]
        simp only [List.append_assoc] at holds'' ⊢
        exact holds''
      · rw [accepted', accepted, List.append_assoc]
      · rw [visited', visited, List.append_assoc]
        rfl

/-! ## Whole passes -/

/-- A pass visits all functions, removes those that are to be, and ends with a list. -/
theorem pass_spec (visits : Nat → Visit α) {s : Functions α} {cells : List Addr}
    {entries : List (Registered α)} (holds : s.Holds cells entries) (fence : s.fence = false) :
    ∃ s' cells' news,
      (∀ fuel, entries.length ≤ fuel →
        s.runScheduledRecurrentFunctions visits fuel = some s') ∧
      s'.Holds cells' (kept visits 0 entries ++ news) ∧ s'.accepted = s.accepted ++ news ∧
      s'.visited = s.visited ++ entries ∧ s'.fence = false := by
  have lengths : cells.length = entries.length := by
    have same := congrArg List.length holds.stored
    rwa [List.length_map, List.length_map] at same
  cases cells with
  | nil =>
    have none_left : entries = [] := List.length_eq_zero_iff.1 lengths.symm
    subst none_left
    have first : s.rFirst = none := holds.first
    refine ⟨s, [], [], fun fuel _ => ?_, holds, (List.append_nil _).symm, (List.append_nil _).symm,
      fence⟩
    rw [runScheduledRecurrentFunctions, first]
  | cons current olds =>
    cases entries with
    | nil => exact absurd lengths (Nat.succ_ne_zero _)
    | cons e os =>
      have within : Holds { s with fence := true } ([] ++ current :: (olds ++ []))
          ([] ++ e :: (os ++ [])) := by
        rw [List.append_nil, List.append_nil]
        exact ⟨holds.first, holds.last, holds.apart, holds.stored⟩
      obtain ⟨s', cells', news, passed, holds', accepted, visited⟩ :=
        passLoop_spec visits olds (i := 0) within rfl (Nat.succ.inj lengths) rfl
      refine ⟨{ s' with fence := false }, cells', news, fun fuel enough => ?_,
        ⟨holds'.first, holds'.last, holds'.apart, holds'.stored⟩, accepted, visited, rfl⟩
      have loop := passed fuel (by
        rw [List.length_cons, ← Nat.succ.inj lengths] at enough
        exact enough)
      rw [← holds.last] at loop
      unfold runScheduledRecurrentFunctions
      split
      · rename_i empty
        exact absurd (empty.symm.trans holds.first.1) (Option.some_ne_none current).symm
      · rename_i first some_first
        obtain rfl : first = current := Option.some.inj (some_first.symm.trans holds.first.1)
        rw [fence, if_neg Bool.false_ne_true]
        exact congrArg (·.bind fun s => some { s with fence := false }) loop

/-- A pass that has ended ends the same way with more fuel. -/
theorem passLoop_mono {visits : Nat → Visit α} {stop : Option Addr} {fuel i : Nat}
    {prev : Option Addr} {current : Addr} {s s' : Functions α}
    (ended : passLoop visits stop fuel i prev current s = some s') (more : Nat) :
    passLoop visits stop (fuel + more) i prev current s = some s' := by
  induction fuel generalizing i prev current s with
  | zero => exact absurd ended.symm (Option.some_ne_none _)
  | succ fuel ih =>
    rw [Nat.add_right_comm]
    unfold passLoop at ended ⊢
    dsimp only [bind] at ended ⊢
    obtain ⟨⟨prev', next, s₁⟩, visit, rest⟩ := Option.bind_eq_some_iff.1 ended
    rw [visit]
    cases next with
    | none => exact rest
    | some next =>
      by_cases ended_ : some current = stop
      · exact (if_pos (decide_eq_true ended_)).trans
          ((if_pos (decide_eq_true ended_)).symm.trans rest)
      · have goes_on : ¬ decide (some current = stop) = true := mt of_decide_eq_true ended_
        exact (if_neg goes_on).trans (ih ((if_neg goes_on).symm.trans rest))

theorem run_mono {visits : Nat → Visit α} {fuel : Nat} {s s' : Functions α}
    (ended : s.runScheduledRecurrentFunctions visits fuel = some s') (more : Nat) :
    s.runScheduledRecurrentFunctions visits (fuel + more) = some s' := by
  unfold runScheduledRecurrentFunctions at ended ⊢
  cases first : s.rFirst with
  | none =>
    rw [first] at ended
    exact ended
  | some current =>
    rw [first] at ended
    dsimp only at ended ⊢
    by_cases fence : s.fence = true
    · rw [if_pos fence] at ended ⊢
      exact ended
    · rw [if_neg fence] at ended ⊢
      obtain ⟨t, passed, rest⟩ := Option.bind_eq_some_iff.1 ended
      exact Option.bind_eq_some_iff.2 ⟨t, passLoop_mono passed more, rest⟩

/-- Between the calls of a program there is a list, and no pass is going on. -/
theorem Reachable.holds {s : Functions α} (reached : s.Reachable) :
    s.fence = false ∧ ∃ cells entries, s.Holds cells entries := by
  induction reached with
  | start => exact ⟨rfl, [], [], start_holds⟩
  | schedule fn alarm offer _ called ih =>
    obtain ⟨fence, cells, entries, holds⟩ := ih
    obtain ⟨ok, s', called', newCells, news, holds', -, -, fence'⟩ :=
      schedule_extends holds fn alarm offer
    obtain ⟨-, rfl⟩ := Prod.mk.inj (Option.some.inj (called'.symm.trans called))
    exact ⟨fence'.trans fence, _, _, holds'⟩
  | run visits fuel _ called ih =>
    obtain ⟨fence, cells, entries, holds⟩ := ih
    obtain ⟨s', cells', news, passed, holds', -, -, fence'⟩ := pass_spec visits holds fence
    have same := (passed (fuel + entries.length) (Nat.le_add_left _ _)).symm.trans
      (run_mono called _)
    obtain rfl := Option.some.inj same
    exact ⟨fence', _, _, holds'⟩

/-- In every state that a program reaches, a pass visits the functions of the list once and in
their order, removes those that were called and answered that they are done, and keeps the others
in their order, before the functions that were registered in the meantime. -/
theorem pass_of_reachable {s : Functions α} (reached : s.Reachable) (visits : Nat → Visit α) :
    ∃ cells entries, s.Holds cells entries ∧ ∃ s' cells' news,
      (∀ fuel, entries.length ≤ fuel →
        s.runScheduledRecurrentFunctions visits fuel = some s') ∧
      s'.visited = s.visited ++ entries ∧ s'.accepted = s.accepted ++ news ∧
      s'.Holds cells' (kept visits 0 entries ++ news) := by
  obtain ⟨fence, cells, entries, holds⟩ := reached.holds
  obtain ⟨s', cells', news, passed, holds', accepted, visited, -⟩ :=
    pass_spec visits holds fence
  exact ⟨cells, entries, holds, s', cells', news, passed, visited, accepted, holds'⟩

/-- The function 7, registered in the node 0. -/
def single : Functions Nat :=
  { start.store 0 (some ⟨none, 7, none⟩) with
    rFirst := some 0
    rLast := some 0
    accepted := [⟨7, none⟩] }

/-- The function is called, registers the function 8, and is done. -/
theorem pass_of_single :
    ∃ cells entries, single.Holds cells entries ∧ ∃ s' cells' news,
      (∀ fuel, entries.length ≤ fuel → single.runScheduledRecurrentFunctions
        (fun _ => ⟨false, [], true, false, [.schedule (some 8) none (some 1)], []⟩) fuel =
          some s') ∧
      s'.visited = single.visited ++ entries ∧ s'.accepted = single.accepted ++ news ∧
      s'.Holds cells' (kept
        (fun _ => ⟨false, [], true, false, [.schedule (some 8) none (some 1)], []⟩) 0 entries ++
          news) :=
  pass_of_reachable (.schedule (some 7) none (some 0) .start rfl)
    fun _ => ⟨false, [], true, false, [.schedule (some 8) none (some 1)], []⟩

end Functions

end Esp8266.Source.Recurrent
