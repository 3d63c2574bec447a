import Esp8266.Lib.Runs
import Esp8266.Source.Bridge

/-!
# The streams of the UART/TCP bridge

Over whole runs, what a client gets is a concatenation of blocks that were read from the UART, and
what goes to the UART is the beginning of what the client sent. In each iteration the block is no
larger than any room that was sampled, so that every client with room gets it.
-/
set_option autoImplicit false

namespace Esp8266.Source.Bridge
open Esp8266.Lib.Runs

/-! ## The size of the block -/

/-- The room of a slot as the loop samples it; a slot that is not asked has none. -/
def sampledRoom (rooms : Nat → Nat) (entry : Slot × Nat) : Nat :=
  if entry.1.toBool then entry.1.availableForWrite (rooms entry.2) else 0

/-- The smaller of two rooms, where 0 is no room at all. -/
def joinRoom (max room : Nat) : Nat :=
  if room = 0 then max else if max = 0 then room else min max room

theorem takeRoom_eq (rooms : Nat → Nat) (max : Nat) (entry : Slot × Nat) :
    takeRoom rooms max entry = joinRoom max (sampledRoom rooms entry) := by
  rw [takeRoom, joinRoom, sampledRoom]
  by_cases asked : entry.1.toBool = true
  · simp only [if_pos asked]
    by_cases none : entry.1.availableForWrite (rooms entry.2) = 0 <;> simp [none]
  · simp only [if_neg asked, if_true]

/-- The rooms that are not zero bound the result; without any it is zero. -/
theorem foldl_joinRoom (sizes : List Nat) : ∀ max : Nat,
    (sizes.foldl joinRoom max ≠ 0 → max ≠ 0 ∨ ∃ room ∈ sizes, room ≠ 0) ∧
    (max ≠ 0 → sizes.foldl joinRoom max ≤ max) ∧
    ∀ room ∈ sizes, room ≠ 0 → sizes.foldl joinRoom max ≤ room := by
  induction sizes with
  | nil => intro max; simp
  | cons first sizes ih =>
    intro max
    rw [List.foldl_cons]
    obtain ⟨some, below, each⟩ := ih (joinRoom max first)
    by_cases none : first = 0
    · have same : joinRoom max first = max := if_pos none
      rw [same] at some below each ⊢
      refine ⟨fun positive => ?_, below, ?_⟩
      · rcases some positive with start | ⟨room, mem, room_ne⟩
        · exact .inl start
        · exact .inr ⟨room, List.mem_cons_of_mem _ mem, room_ne⟩
      · intro room mem room_ne
        rcases List.mem_cons.mp mem with rfl | later
        · exact absurd none room_ne
        · exact each room later room_ne
    · have positive : joinRoom max first ≠ 0 := by
        simp only [joinRoom]
        split_ifs
        all_goals omega
      have le_first : joinRoom max first ≤ first := by
        simp only [joinRoom]
        split_ifs <;> omega
      have le_max (start : max ≠ 0) : joinRoom max first ≤ max := by
        rw [joinRoom, if_neg none, if_neg start]
        omega
      refine ⟨fun _ => .inr ⟨first, List.mem_cons_self, none⟩, fun start => ?_, ?_⟩
      · exact Nat.le_trans (below positive) (le_max start)
      · intro room mem room_ne
        rcases List.mem_cons.mp mem with rfl | later
        · exact Nat.le_trans (below positive) le_first
        · exact each room later room_ne

/-- The room that slot `i` is sampled with. -/
def sampled (rooms : Nat → Nat) (slots : List Slot) (i : Nat) : Nat :=
  match slots[i]? with
  | some slot => sampledRoom rooms (slot, i)
  | none => 0

theorem maxToTcp_eq (rooms : Nat → Nat) (slots : List Slot) :
    maxToTcp rooms slots = (slots.zipIdx.map (sampledRoom rooms)).foldl joinRoom 0 := by
  rw [maxToTcp, List.foldl_map]
  congr 1
  funext max entry
  exact takeRoom_eq rooms max entry

theorem mem_sampled {rooms : Nat → Nat} {slots : List Slot} {i : Nat}
    (positive : sampled rooms slots i ≠ 0) :
    sampled rooms slots i ∈ slots.zipIdx.map (sampledRoom rooms) := by
  cases place : slots[i]? with
  | none =>
    simp only [sampled, place] at positive
    exact absurd rfl positive
  | some slot =>
    simp only [sampled, place]
    exact List.mem_map_of_mem (List.mem_zipIdx_iff_getElem?.mpr place)

theorem maxToTcp_le {rooms : Nat → Nat} {slots : List Slot} {i : Nat}
    (positive : sampled rooms slots i ≠ 0) : maxToTcp rooms slots ≤ sampled rooms slots i := by
  rw [maxToTcp_eq]
  exact (foldl_joinRoom _ 0).2.2 _ (mem_sampled positive) positive

theorem exists_sampled {rooms : Nat → Nat} {slots : List Slot} (some : maxToTcp rooms slots ≠ 0) :
    ∃ i, sampled rooms slots i ≠ 0 := by
  rw [maxToTcp_eq] at some
  obtain start | ⟨room, mem, positive⟩ := (foldl_joinRoom _ 0).1 some
  · exact absurd rfl start
  · obtain ⟨⟨slot, i⟩, place, rfl⟩ := List.mem_map.mp mem
    rw [List.mem_zipIdx_iff_getElem?] at place
    refine ⟨i, ?_⟩
    simp only [sampled, place]
    exact positive

/-! ## One iteration -/

/-- A new client is stored only in a slot that is not connected and has nothing unread. -/
theorem accept_slot (s : Bridge) (i : Nat) :
    s.accept.serverClients[i]? = s.serverClients[i]? ∨
    ∃ slot c, s.serverClients[i]? = some slot ∧ slot.connected = false ∧ slot.available = 0 ∧
      s.unclaimed.head? = some c ∧ s.accept.serverClients[i]? = some (some c) := by
  cases waiting : s.unclaimed with
  | nil => left; simp only [accept, waiting]
  | cons c unclaimed =>
    cases free : s.serverClients.findIdx? fun slot => !slot.toBool with
    | none => left; simp only [accept, waiting, free]
    | some j =>
      have stored : s.accept.serverClients = s.serverClients.set j (some c) := by
        simp only [accept, waiting, free]
      obtain ⟨inside, unused, _⟩ := List.findIdx?_eq_some_iff_getElem.mp free
      by_cases here : j = i
      · subst here
        right
        have off : (s.serverClients[j]).toBool = false := by simpa using unused
        rw [Slot.toBool, Bool.or_eq_false_iff, decide_eq_false_iff_not] at off
        refine ⟨s.serverClients[j], c, List.getElem?_eq_getElem inside, off.2, by omega, rfl, ?_⟩
        rw [stored, List.getElem?_set_self inside]
      · left
        rw [stored, List.getElem?_set_ne here]

theorem accept_uartRx (s : Bridge) : s.accept.uartRx = s.uartRx := by
  rw [accept]
  split
  · rfl
  · split
    · rfl
    · rfl

/-- The block that is taken from the UART. -/
def block (p : Pass) (s : Bridge) : List UInt8 :=
  s.uartRx.take
    (min (min (min s.uartRx.length (maxToTcp p.rooms s.serverClients)) stackProtector) p.got)

theorem block_length_le (p : Pass) (s : Bridge) :
    (block p s).length ≤ maxToTcp p.rooms s.serverClients ∧
    (block p s).length ≤ stackProtector := by
  simp only [block, List.length_take]
  omega

theorem fromUart_cases (p : Pass) (s : Bridge) :
    (block p s = [] ∧ s.fromUart p = s) ∨
    s.fromUart p =
      { s with
        uartRx := s.uartRx.drop (block p s).length
        serverClients := push p.later (block p s) s.serverClients
        blocks := s.blocks ++ [block p s] } := by
  by_cases none : min (min s.uartRx.length (maxToTcp p.rooms s.serverClients)) stackProtector = 0
  · left
    refine ⟨?_, if_neg (not_not_intro none)⟩
    rw [block, none, Nat.zero_min, List.take_zero]
  · exact .inr (if_pos none)

/-- The block is what leaves the receive buffer. -/
theorem fromUart_uartRx (p : Pass) (s : Bridge) :
    s.uartRx = block p s ++ (s.fromUart p).uartRx := by
  have front : block p s = s.uartRx.take (block p s).length := by
    rw [block, List.length_take, List.take_eq_take_iff]
    omega
  rcases fromUart_cases p s with ⟨none, same⟩ | step
  · rw [none, same, List.nil_append]
  · rw [step]
    conv_lhs => rw [← List.take_append_drop (block p s).length s.uartRx, ← front]

/-- A client gets the block as a whole, or nothing. -/
theorem fromUart_slot (p : Pass) (s : Bridge) {i : Nat} {slot : Slot}
    (place : s.serverClients[i]? = some slot) :
    (s.fromUart p).serverClients[i]? = some slot ∨
      (s.fromUart p).serverClients[i]? = some (slot.write (block p s)) := by
  rcases fromUart_cases p s with ⟨_, same⟩ | step
  · left
    rw [same, place]
  · rw [step]
    simp only [push, List.getElem?_mapIdx, place, Option.map_some]
    by_cases room : (block p s).length ≤ slot.availableForWrite (p.later i)
    · exact .inr (by rw [if_pos room])
    · exact .inl (by rw [if_neg room])

theorem Slot.write_nil (slot : Slot) : slot.write [] = slot := by
  cases slot with
  | none => rfl
  | some c => simp [Slot.write]

/-- A client that was sampled with room gets the block, if its room has not shrunk. -/
theorem fromUart_sampled (p : Pass) (s : Bridge) {i : Nat} {c : Client}
    (place : s.serverClients[i]? = some (some c)) (steady : p.rooms i ≤ p.later i)
    (positive : sampled p.rooms s.serverClients i ≠ 0) :
    (s.fromUart p).serverClients[i]? =
      some (some { c with received := c.received ++ block p s }) := by
  have small := (block_length_le p s).1
  have bound := maxToTcp_le positive
  have room : sampled p.rooms s.serverClients i ≤ p.rooms i := by
    simp only [sampled, place, sampledRoom, Slot.availableForWrite]
    split
    · exact Nat.le_refl _
    · exact Nat.zero_le _
  rcases fromUart_cases p s with ⟨none, same⟩ | step
  · rw [same, place, none, List.append_nil]
  · rw [step]
    simp only [push, List.getElem?_mapIdx, place, Option.map_some]
    have fits : (block p s).length ≤ Slot.availableForWrite (some c) (p.later i) := by
      change _ ≤ p.later i
      omega
    rw [if_pos fits]
    rfl

/-! ## Whole runs -/

/-- What is known of a client: it got whole blocks in order, and what it sent has gone to the
UART as far as it is read. -/
structure ClientSound (blocks : List (List UInt8)) (c : Client) : Prop where
  whole : ∃ sub : List (List UInt8), sub.Sublist blocks ∧ c.received = sub.flatten
  inOrder : c.toUart ++ c.unread = c.sent

/-- The clients that have a slot or had one, and those that wait. -/
structure Streams (s : Bridge) : Prop where
  slots : ∀ c, some c ∈ s.serverClients → ClientSound s.blocks c
  replaced : ∀ c ∈ s.replaced, ClientSound s.blocks c
  unclaimed : ∀ c ∈ s.unclaimed, c.received = [] ∧ c.toUart ++ c.unread = c.sent

theorem ClientSound.more {blocks : List (List UInt8)} {c : Client}
    (sound : ClientSound blocks c) (more : List (List UInt8)) :
    ClientSound (blocks ++ more) c := by
  obtain ⟨sub, sublist, received⟩ := sound.whole
  exact ⟨⟨sub, sublist.trans (List.sublist_append_left _ _), received⟩, sound.inOrder⟩

theorem ClientSound.new {blocks : List (List UInt8)} {c : Client} (none : c.received = [])
    (inOrder : c.toUart ++ c.unread = c.sent) : ClientSound blocks c :=
  ⟨⟨[], List.nil_sublist _, none⟩, inOrder⟩

theorem Streams.accept {s : Bridge} (streams : s.Streams) : s.accept.Streams := by
  cases waiting : s.unclaimed with
  | nil =>
    have same : s.accept = s := by simp only [Bridge.accept, waiting]
    rw [same]
    exact streams
  | cons c unclaimed =>
    have first := streams.unclaimed c (by rw [waiting]; exact List.mem_cons_self)
    have others : ∀ c' ∈ unclaimed, c'.received = [] ∧ c'.toUart ++ c'.unread = c'.sent := by
      intro c' mem
      exact streams.unclaimed c' (by rw [waiting]; exact List.mem_cons_of_mem _ mem)
    simp only [Bridge.accept, waiting]
    cases free : s.serverClients.findIdx? fun slot => !slot.toBool with
    | none => exact ⟨streams.slots, streams.replaced, others⟩
    | some i =>
      refine ⟨?_, ?_, others⟩
      · intro c' mem
        rcases List.mem_or_eq_of_mem_set mem with old | new
        · exact streams.slots c' old
        · cases new
          exact .new first.1 first.2
      · intro c' mem
        rcases List.mem_append.mp mem with old | gone
        · exact streams.replaced c' old
        · refine streams.slots c' ?_
          obtain ⟨inside, _⟩ := List.findIdx?_eq_some_iff_getElem.mp free
          rw [List.getD_eq_getElem?_getD, List.getElem?_eq_getElem inside, Option.getD_some,
            Option.mem_toList] at gone
          rw [← gone]
          exact List.getElem_mem inside

theorem drain_prefix (unread : List UInt8) : ∀ txRoom, (drain unread txRoom).1 <+: unread := by
  induction unread with
  | nil => intro txRoom; exact List.nil_prefix
  | cons byte unread ih =>
    intro txRoom
    cases txRoom with
    | nil => exact List.nil_prefix
    | cons room txRoom =>
      rw [drain]
      by_cases some : 0 < room
      · rw [if_pos some]
        exact (List.prefix_cons_inj byte).mpr (ih txRoom)
      · rw [if_neg some]
        exact List.nil_prefix

/-- The way to the UART moves the first unread bytes of a client, and nothing else. -/
theorem mem_drainClients (slots : List Slot) : ∀ (txRoom : List Nat) (c : Client),
    some c ∈ drainClients slots txRoom → ∃ c' taken rest, some c' ∈ slots ∧
      c'.unread = taken ++ rest ∧ c = { c' with unread := rest, toUart := c'.toUart ++ taken } := by
  induction slots with
  | nil => intro txRoom c mem; cases mem
  | cons slot slots ih =>
    intro txRoom c mem
    cases slot with
    | none =>
      rw [drainClients] at mem
      rcases List.mem_cons.mp mem with first | later
      · cases first
      · obtain ⟨c', taken, rest, old, shape⟩ := ih txRoom c later
        exact ⟨c', taken, rest, List.mem_cons_of_mem _ old, shape⟩
    | some c₀ =>
      rw [drainClients] at mem
      rcases List.mem_cons.mp mem with first | later
      · obtain ⟨rest, split⟩ := drain_prefix c₀.unread txRoom
        have behind : c₀.unread.drop (drain c₀.unread txRoom).1.length = rest :=
          calc c₀.unread.drop (drain c₀.unread txRoom).1.length
              = ((drain c₀.unread txRoom).1 ++ rest).drop (drain c₀.unread txRoom).1.length := by
                rw [split]
            _ = rest := List.drop_left
        refine ⟨c₀, (drain c₀.unread txRoom).1, rest, List.mem_cons_self, split.symm, ?_⟩
        rw [Option.some.inj first, behind]
      · obtain ⟨c', taken, rest, old, shape⟩ := ih _ c later
        exact ⟨c', taken, rest, List.mem_cons_of_mem _ old, shape⟩

theorem Streams.toUart {s : Bridge} (streams : s.Streams) (txRoom : List Nat) :
    (s.toUart txRoom).Streams := by
  refine ⟨?_, streams.replaced, streams.unclaimed⟩
  intro c mem
  obtain ⟨c', taken, rest, old, split, rfl⟩ := mem_drainClients _ txRoom c mem
  have sound := streams.slots c' old
  refine ⟨sound.whole, ?_⟩
  rw [← sound.inOrder, split, List.append_assoc]

theorem ClientSound.write {blocks : List (List UInt8)} {c : Client} (sound : ClientSound blocks c)
    (new : List UInt8) : ClientSound (blocks ++ [new]) { c with received := c.received ++ new } := by
  obtain ⟨sub, sublist, received⟩ := sound.whole
  refine ⟨⟨sub ++ [new], sublist.append_right _, ?_⟩, sound.inOrder⟩
  rw [received, List.flatten_append, List.flatten_singleton]

theorem Streams.fromUart {s : Bridge} (streams : s.Streams) (p : Pass) :
    (s.fromUart p).Streams := by
  rcases fromUart_cases p s with ⟨_, same⟩ | step
  · rw [same]
    exact streams
  · rw [step]
    refine ⟨?_, fun c mem => (streams.replaced c mem).more _, streams.unclaimed⟩
    intro c mem
    obtain ⟨i, inside, place⟩ := List.mem_mapIdx.mp mem
    have old : s.serverClients[i] ∈ s.serverClients := List.getElem_mem inside
    split at place
    · cases slot : s.serverClients[i] with
      | none => rw [slot] at place; cases place
      | some c' =>
        rw [slot] at place old
        rw [← Option.some.inj place]
        exact (streams.slots c' old).write _
    · rw [place] at old
      exact (streams.slots c old).more _

theorem Streams.loop {s : Bridge} (streams : s.Streams) (p : Pass) : (s.loop p).Streams :=
  (streams.accept.toUart p.txRoom).fromUart p

theorem Peer.inOrder (peer : Peer) {c : Client} (inOrder : c.toUart ++ c.unread = c.sent) :
    (peer.apply c).toUart ++ (peer.apply c).unread = (peer.apply c).sent ∧
      (peer.apply c).received = c.received := by
  cases peer with
  | receive bytes =>
    refine ⟨?_, rfl⟩
    change c.toUart ++ (c.unread ++ bytes) = c.sent ++ bytes
    rw [← inOrder, List.append_assoc]
  | become state => exact ⟨inOrder, rfl⟩

theorem mem_modify {α : Type} (f : α → α) {x : α} : ∀ (list : List α) (i : Nat),
    x ∈ list.modify i f → x ∈ list ∨ ∃ y ∈ list, x = f y := by
  intro list
  induction list with
  | nil => intro i mem; simp at mem
  | cons first rest ih =>
    intro i mem
    cases i with
    | zero =>
      rcases List.mem_cons.mp mem with here | later
      · exact .inr ⟨first, List.mem_cons_self, here⟩
      · exact .inl (List.mem_cons_of_mem _ later)
    | succ i =>
      rcases List.mem_cons.mp mem with here | later
      · exact .inl (here ▸ List.mem_cons_self)
      · rcases ih i later with same | ⟨y, old, image⟩
        · exact .inl (List.mem_cons_of_mem _ same)
        · exact .inr ⟨y, List.mem_cons_of_mem _ old, image⟩

theorem Streams.act {s : Bridge} (action : Action) (streams : s.Streams) :
    (Bridge.act action s).Streams := by
  cases action with
  | connect =>
    refine ⟨streams.slots, streams.replaced, fun c mem => ?_⟩
    rcases List.mem_append.mp mem with old | new
    · exact streams.unclaimed c old
    · rw [List.mem_singleton.mp new]
      exact ⟨rfl, rfl⟩
  | client slot peer =>
    refine ⟨fun c mem => ?_, streams.replaced, streams.unclaimed⟩
    rcases mem_modify _ _ slot mem with same | ⟨old, mem, image⟩
    · exact streams.slots c same
    · cases old with
      | none => cases image
      | some c' =>
        have sound := streams.slots c' mem
        obtain ⟨inOrder, received⟩ := peer.inOrder sound.inOrder
        rw [Option.some.inj image]
        exact ⟨by rw [received]; exact sound.whole, inOrder⟩
  | unclaimed index peer =>
    refine ⟨streams.slots, streams.replaced, fun c mem => ?_⟩
    rcases mem_modify _ _ index mem with same | ⟨c', before, rfl⟩
    · exact streams.unclaimed c same
    · have old := streams.unclaimed c' before
      obtain ⟨inOrder, received⟩ := peer.inOrder old.2
      exact ⟨by rw [received]; exact old.1, inOrder⟩
  | uartReceive bytes => exact ⟨streams.slots, streams.replaced, streams.unclaimed⟩
  | uartLose count => exact ⟨streams.slots, streams.replaced, streams.unclaimed⟩
  | loop p => exact streams.loop p

/-- The bridge after a run. -/
def after (actions : List Action) : Bridge := actions.foldl (fun s action => act action s) init

theorem after_streams (actions : List Action) : (after actions).Streams := by
  have run : ∀ s : Bridge, s.Streams →
      (actions.foldl (fun s action => act action s) s).Streams := by
    induction actions with
    | nil => intro s streams; exact streams
    | cons action rest ih => intro s streams; exact ih _ (streams.act action)
  refine run init ⟨fun c mem => ?_, fun c mem => ?_, fun c mem => ?_⟩
  · cases List.eq_of_mem_replicate mem
  · cases mem
  · cases mem

/-- **The UART/TCP bridge.** After any run, one more iteration takes a block from the UART that is
no larger than any room that was sampled; every client that was sampled with room gets it, and
no client a part of it. What a client has got is a concatenation of whole blocks in order, what
has gone to the UART is the beginning of what the client sent, and a new client is stored only
where nothing is connected or unread. -/
theorem bridge_streams (actions : List Action) (p : Pass)
    (steady : ∀ i, p.rooms i ≤ p.later i) :
    let s := after actions
    let drained := s.accept.toUart p.txRoom
    let room := sampled p.rooms drained.serverClients
    let taken := block p drained
    (s.uartRx = taken ++ (s.loop p).uartRx ∧ (taken ≠ [] → ∃ i, room i ≠ 0) ∧
      (∀ i, room i ≠ 0 → taken.length ≤ room i) ∧ taken.length ≤ stackProtector) ∧
    (∀ i c, drained.serverClients[i]? = some (some c) →
      (room i ≠ 0 → (s.loop p).serverClients[i]? =
        some (some { c with received := c.received ++ taken })) ∧
      ((s.loop p).serverClients[i]? = some (some c) ∨ (s.loop p).serverClients[i]? =
        some (some { c with received := c.received ++ taken }))) ∧
    (∀ c, some c ∈ (s.loop p).serverClients ∨ c ∈ (s.loop p).replaced →
      (∃ sub : List (List UInt8), sub.Sublist (s.loop p).blocks ∧ c.received = sub.flatten) ∧
      c.toUart <+: c.sent) ∧
    ∀ i : Nat, s.accept.serverClients[i]? = s.serverClients[i]? ∨
      ∃ (slot : Slot) (c : Client), s.serverClients[i]? = some slot ∧ slot.connected = false ∧
        slot.available = 0 ∧ s.unclaimed.head? = some c ∧
        s.accept.serverClients[i]? = some (some c) := by
  intro s drained room taken
  have streams := (after_streams actions).loop p
  obtain ⟨small, few⟩ := block_length_le p drained
  refine ⟨⟨?_, ?_, ?_, few⟩, ?_, ?_, accept_slot s⟩
  · have rx : drained.uartRx = s.uartRx := accept_uartRx s
    rw [← rx]
    exact fromUart_uartRx p drained
  · intro some
    refine exists_sampled fun none => some (List.eq_nil_of_length_eq_zero ?_)
    exact Nat.eq_zero_of_le_zero (none ▸ small)
  · intro i positive
    exact Nat.le_trans small (maxToTcp_le positive)
  · intro i c place
    exact ⟨fromUart_sampled p drained place (steady i), fromUart_slot p drained place⟩
  · intro c known
    have sound : ClientSound (s.loop p).blocks c := by
      rcases known with slot | replaced
      · exact streams.slots c slot
      · exact streams.replaced c replaced
    exact ⟨sound.whole, _, sound.inOrder⟩

theorem bridge_streams_one :
    let p : Pass := ⟨[1], fun _ => 3, fun _ => 3, 9⟩
    let s := after [.connect, .loop p, .client 0 (.receive [5]), .uartReceive [1, 2, 3, 4]]
    (∀ i, p.rooms i ≤ p.later i) ∧ s.uartRx = [1, 2, 3] ++ (s.loop p).uartRx :=
  ⟨fun _ => Nat.le_refl 3,
    (bridge_streams [.connect, .loop ⟨[1], fun _ => 3, fun _ => 3, 9⟩, .client 0 (.receive [5]),
      .uartReceive [1, 2, 3, 4]] ⟨[1], fun _ => 3, fun _ => 3, 9⟩ fun _ => Nat.le_refl 3).1.1⟩

end Esp8266.Source.Bridge
