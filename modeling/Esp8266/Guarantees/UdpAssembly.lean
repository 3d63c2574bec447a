import Esp8266.Source.UdpTransmit

/-!
# Assembling a UDP datagram

The write position is in the pbuf that holds it, or behind the end of a full one. Its offset there
comes out right as long as the whole datagram ends before the 16 bits of `tot_len` do: when the
chain grows to 2^16 bytes `append` takes it for too small, and copies nothing.
-/
set_option autoImplicit false

namespace Esp8266.Source

namespace TxPbuf

/-- The lengths of a chain that `_reserve` has built. -/
def Built (chain : List TxPbuf) : Prop :=
  ∀ i p, chain[i]? = some p →
    p.len = UdpTransmit.pbufUnitSize ∧ p.totLen = UInt16.ofNat (128 * (chain.length - i))

theorem Built.lens {chain : List TxPbuf} (built : Built chain) : ∀ p ∈ chain, p.len = 128 := by
  intro p member
  obtain ⟨i, inside, rfl⟩ := List.getElem_of_mem member
  exact (built i _ (List.getElem?_eq_getElem inside)).1

theorem length_bytes {chain : List TxPbuf} (lens : ∀ p ∈ chain, p.len = 128) :
    (bytes chain).length = 128 * chain.length := by
  induction chain with
  | nil => rfl
  | cons p rest ih =>
    have head : p.payload.length = 128 := lens p List.mem_cons_self
    have tail := ih fun q member => lens q (List.mem_cons_of_mem p member)
    rw [bytes] at tail
    rw [bytes, List.flatMap_cons, List.length_append, head, List.length_cons, tail]
    omega

theorem alloc_unit {memory : Alloc} {pb : TxPbuf}
    (got : alloc UdpTransmit.pbufUnitSize memory = some pb) :
    pb.len = UdpTransmit.pbufUnitSize ∧ pb.totLen = UInt16.ofNat 128 := by
  obtain ⟨byte, -, rfl⟩ := Option.map_eq_some_iff.1 got
  refine ⟨?_, rfl⟩
  rw [len, List.length_map, List.length_range]
  rfl

theorem bytes_cat (chain : List TxPbuf) (pb : TxPbuf) :
    bytes (cat chain pb) = bytes chain ++ pb.payload := by
  rw [cat, bytes, List.flatMap_append, List.flatMap_map, List.flatMap_singleton]
  rfl

theorem length_cat (chain : List TxPbuf) (pb : TxPbuf) :
    (cat chain pb).length = chain.length + 1 := by
  rw [cat, List.length_append, List.length_map, List.length_singleton]

/-- The lengths of a chain stay right with one more pbuf. -/
theorem Built.cat {chain : List TxPbuf} (built : Built chain) {pb : TxPbuf}
    (unit : pb.len = UdpTransmit.pbufUnitSize ∧ pb.totLen = UInt16.ofNat 128) :
    Built (cat chain pb) := by
  intro i p there
  rw [length_cat]
  rw [TxPbuf.cat, List.getElem?_append, List.length_map] at there
  by_cases old : i < chain.length
  · rw [if_pos old, List.getElem?_map] at there
    obtain ⟨q, same, rfl⟩ := Option.map_eq_some_iff.1 there
    have sum : 128 * (chain.length + 1 - i) = 128 * (chain.length - i) + 128 := by omega
    refine ⟨(built i q same).1, ?_⟩
    rw [sum, UInt16.ofNat_add, ← (built i q same).2, ← unit.2]
  · rw [if_neg old] at there
    obtain ⟨last, same⟩ := List.getElem?_eq_some_iff.1 there
    rw [List.length_singleton] at last
    have i_eq : i = chain.length := by omega
    subst i_eq
    rw [List.getElem_singleton] at same
    rw [← same, Nat.add_sub_cancel_left]
    exact unit

/-- A pbuf with other contents. -/
theorem Built.set {chain : List TxPbuf} (built : Built chain) {i : Nat} {p q : TxPbuf}
    (there : chain[i]? = some p) (len : q.len = p.len) (totLen : q.totLen = p.totLen) :
    Built (chain.set i q) := by
  intro j r found
  rw [List.length_set]
  rw [List.getElem?_set] at found
  by_cases same : i = j
  · subst same
    obtain ⟨inside, -⟩ := List.getElem?_eq_some_iff.1 there
    rw [if_pos rfl, if_pos inside, Option.some_inj] at found
    rw [← found, len, totLen]
    exact built i p there
  · rw [if_neg same] at found
    exact built j r found

theorem store_inside {p : TxPbuf} {position : Nat} {data : List UInt8}
    (room : position + data.length ≤ p.len) :
    ∃ q, store data position p = some q ∧ q.len = p.len ∧ q.totLen = p.totLen := by
  refine ⟨{ p with
    payload := p.payload.take position ++ data ++ p.payload.drop (position + data.length) },
    if_neg (Nat.not_lt.2 room), ?_, rfl⟩
  unfold len at *
  simp only [List.length_append, List.length_take, List.length_drop]
  omega

/-- The bytes in front of a position, then those that are stored there. -/
theorem take_bytes_set {chain : List TxPbuf} (built : Built chain) {i position : Nat}
    {p q : TxPbuf} (there : chain[i]? = some p) {data : List UInt8}
    (stored : store data position p = some q) :
    (bytes (chain.set i q)).take (128 * i + position + data.length) =
      (bytes chain).take (128 * i + position) ++ data := by
  obtain ⟨inside, same⟩ := List.getElem?_eq_some_iff.1 there
  have front : (bytes (chain.take i)).length = 128 * i := by
    rw [length_bytes fun r member => built.lens r (List.mem_of_mem_take member), List.length_take,
      Nat.min_eq_left (Nat.le_of_lt inside)]
  have whole : bytes chain = bytes (chain.take i) ++ (p.payload ++ bytes (chain.drop (i + 1))) := by
    conv_lhs => rw [← List.take_append_drop i chain, ← List.getElem_cons_drop inside, same]
    rw [bytes, List.flatMap_append, List.flatMap_cons]
    rfl
  have changed : bytes (chain.set i q) =
      bytes (chain.take i) ++ (q.payload ++ bytes (chain.drop (i + 1))) := by
    rw [List.set_eq_take_append_cons_drop, if_pos inside, bytes, List.flatMap_append,
      List.flatMap_cons]
    rfl
  rw [store] at stored
  by_cases short : p.len < position + data.length
  · rw [if_pos short] at stored
    exact absurd stored (Option.some_ne_none _).symm
  rw [if_neg short, Option.some_inj] at stored
  have room : position + data.length ≤ p.payload.length := Nat.not_lt.1 short
  have before : (p.payload.take position).length = position := by
    rw [List.length_take]
    omega
  rw [whole, changed, ← stored]
  simp only [List.append_assoc]
  rw [Nat.add_assoc, ← front, List.take_length_add_append, List.take_length_add_append,
    List.take_append_of_le_length (Nat.le_trans (Nat.le_add_right _ _) room), List.append_assoc]
  congr 1
  generalize p.payload.take position = first at *
  obtain rfl := before
  rw [List.take_length_add_append, List.take_left]

/-- What a chain grows to begins with what it was. -/
theorem growLoop_extends (growSize : Nat) (memory : List Alloc) {chain : List TxPbuf}
    (built : Built chain) :
    Built (UdpTransmit.growLoop growSize memory chain) ∧
      chain.length ≤ (UdpTransmit.growLoop growSize memory chain).length ∧
      bytes chain <+: bytes (UdpTransmit.growLoop growSize memory chain) := by
  have more {chain : List TxPbuf} (built : Built chain) {pb : TxPbuf} {memory : Alloc}
      (got : alloc UdpTransmit.pbufUnitSize memory = some pb) :
      Built (cat chain pb) ∧ chain.length ≤ (cat chain pb).length ∧
        bytes chain <+: bytes (cat chain pb) := by
    refine ⟨built.cat (alloc_unit got), ?_, ?_⟩
    · rw [length_cat]
      exact Nat.le_succ _
    · rw [bytes_cat]
      exact List.prefix_append _ _
  induction growSize, memory, chain using UdpTransmit.growLoop.induct with
  | case1 memory chain =>
    rw [UdpTransmit.growLoop, if_pos rfl]
    exact ⟨built, Nat.le_refl _, List.prefix_rfl⟩
  | case2 growSize memory chain some_left failed =>
    rw [UdpTransmit.growLoop, if_neg some_left, failed]
    exact ⟨built, Nat.le_refl _, List.prefix_rfl⟩
  | case3 growSize memory chain some_left pb got last =>
    rw [UdpTransmit.growLoop, if_neg some_left, got]
    simp only [if_pos last]
    exact more built got
  | case4 growSize memory chain some_left pb got further ih =>
    rw [UdpTransmit.growLoop, if_neg some_left, got]
    simp only [if_neg further]
    obtain ⟨built', length, begins⟩ := more built got
    obtain ⟨built'', length', begins'⟩ := ih built'
    exact ⟨built'', Nat.le_trans length length', begins.trans begins'⟩

end TxPbuf

namespace UdpTransmit
open TxPbuf

/-- The bytes that have been appended are the first ones of the chain. -/
structure Pending (u : UdpTransmit) (data : List UInt8) : Prop where
  built : Built u.txBufHead
  offset : u.txBufOffset = data.length
  room : data.length ≤ 128 * u.txBufHead.length
  contents : (bytes u.txBufHead).take data.length = data
  cur : u.txBufHead ≠ [] → u.txBufCur < u.txBufHead.length ∧ 128 * u.txBufCur ≤ data.length ∧
    data.length ≤ 128 * (u.txBufCur + 1)

theorem fresh_pending : Pending fresh [] :=
  ⟨fun _ _ none => absurd none (Option.some_ne_none _).symm, rfl, Nat.le_refl 0, rfl,
    fun some => absurd rfl some⟩

/-- A longer chain, with the pointers as they are. -/
theorem Pending.grow {u : UdpTransmit} {data : List UInt8} (pending : Pending u data)
    (head : u.txBufHead ≠ []) (growSize : Nat) (memory : List Alloc) :
    Pending { u with txBufHead := growLoop growSize memory u.txBufHead } data := by
  obtain ⟨built, length, begins⟩ := growLoop_extends growSize memory pending.built
  obtain ⟨there, low, high⟩ := pending.cur head
  have room := pending.room
  refine ⟨built, pending.offset, ?_, ?_, fun _ => ⟨?_, low, high⟩⟩
  · change data.length ≤ 128 * (growLoop growSize memory u.txBufHead).length
    omega
  · obtain ⟨rest, begins⟩ := begins
    have contents := pending.contents
    change (bytes (growLoop growSize memory u.txBufHead)).take data.length = data
    rw [← begins, List.take_append_of_le_length, contents]
    rw [length_bytes pending.built.lens]
    exact room
  · change u.txBufCur < (growLoop growSize memory u.txBufHead).length
    omega

/-- `_reserve` keeps what is pending, whichever allocation fails. -/
theorem Pending.reserve {u : UdpTransmit} {data : List UInt8} (pending : Pending u data)
    (size : Nat) (memory : List Alloc) : Pending (u.reserve size memory) data := by
  rw [UdpTransmit.reserve]
  by_cases none : u.txBufHead = []
  · have empty : data = [] := by
      have room := pending.room
      rw [none] at room
      exact List.length_eq_zero_iff.1 (Nat.le_zero.1 room)
    subst empty
    simp only [if_pos none]
    cases got : alloc pbufUnitSize memory.head?.join with
    | none => exact pending
    | some head =>
      have first : Pending ⟨[head], 0, 0⟩ [] := by
        have nothing : Built [] := fun _ _ none => absurd none (Option.some_ne_none _).symm
        exact ⟨nothing.cat (alloc_unit got), rfl, Nat.zero_le _, rfl,
          fun _ => ⟨Nat.one_pos, Nat.zero_le _, Nat.zero_le _⟩⟩
      dsimp only
      split
      · exact first
      · exact first.grow (List.cons_ne_nil _ _) _ _
  · simp only [if_neg none]
    split
    · exact pending
    · exact pending.grow none _ _

theorem headTotLen_eq {u : UdpTransmit} (built : Built u.txBufHead) :
    u.headTotLen = 128 * u.txBufHead.length % 2 ^ 16 := by
  rw [headTotLen, List.head?_eq_getElem?]
  cases there : u.txBufHead[0]? with
  | none =>
    rw [List.getElem?_eq_none_iff.1 there |> Nat.le_zero.1]
    rfl
  | some head =>
    rw [Option.elim_some, (built 0 head there).2, UInt16.toNat_ofNat', Nat.sub_zero]

/-- The differences of `append` come out as the position in the current pbuf. -/
theorem usedCur_eq {total cur offset : Nat} {headTotLen curTotLen : Nat}
    (head : headTotLen = 128 * total % 2 ^ 16) (here : curTotLen = 128 * (total - cur) % 2 ^ 16)
    (inside : cur < total) (low : 128 * cur ≤ offset) (fits : offset < headTotLen) :
    sizeSub offset (sizeSub headTotLen curTotLen) = offset - 128 * cur := by
  rw [sizeSub, sizeSub]
  omega

/-- The loop copies all of the data and does not leave the chain. -/
theorem Pending.copyLoop {u : UdpTransmit} {pending : List UInt8} (before : Pending u pending)
    {data : List UInt8} (fits : pending.length + data.length ≤ u.headTotLen) {rounds : Nat}
    (enough : data.length + (u.txBufHead.length - u.txBufCur) < rounds) :
    ∃ u', copyLoop rounds data u = some u' ∧ Pending u' (pending ++ data) := by
  induction rounds generalizing u pending data with
  | zero => exact absurd enough (Nat.not_lt_zero _)
  | succ rounds ih =>
    by_cases none : data.length = 0
    · obtain rfl := List.length_eq_zero_iff.1 none
      exact ⟨u, by rw [UdpTransmit.copyLoop, if_pos none], by rwa [List.append_nil]⟩
    have headTotLen := headTotLen_eq before.built
    have some_head : u.txBufHead ≠ [] := fun empty => by
      rw [empty] at headTotLen
      rw [headTotLen] at fits
      exact none (by simpa using Nat.le_trans (Nat.le_add_left _ _) fits)
    obtain ⟨inside, low, high⟩ := before.cur some_head
    obtain ⟨head, first⟩ : ∃ head, u.txBufHead[0]? = some head :=
      ⟨_, List.getElem?_eq_getElem (List.length_pos_iff.2 some_head)⟩
    obtain ⟨cur, here⟩ : ∃ cur, u.txBufHead[u.txBufCur]? = some cur :=
      ⟨_, List.getElem?_eq_getElem inside⟩
    have head_eq : head.totLen.toNat = u.headTotLen := by
      rw [UdpTransmit.headTotLen, List.head?_eq_getElem?, first]
      rfl
    have used : sizeSub u.txBufOffset (sizeSub head.totLen.toNat cur.totLen.toNat) =
        pending.length - 128 * u.txBufCur := by
      rw [before.offset]
      refine usedCur_eq (head_eq.trans headTotLen) ?_ inside low (by omega)
      rw [(before.built _ cur here).2, UInt16.toNat_ofNat']
    have len : cur.len = 128 := (before.built _ cur here).1
    have free : sizeSub cur.len (pending.length - 128 * u.txBufCur) =
        128 - (pending.length - 128 * u.txBufCur) := by
      rw [len, sizeSub]
      omega
    rw [UdpTransmit.copyLoop, if_neg none, first, here]
    simp only [used, free]
    by_cases full : 128 - (pending.length - 128 * u.txBufCur) = 0
    · -- the current pbuf is full, and there is one behind it
      have next : u.txBufCur + 1 < u.txBufHead.length := by
        rw [headTotLen] at fits
        omega
      have moved : Pending { u with txBufCur := u.txBufCur + 1 } pending :=
        ⟨before.built, before.offset, before.room, before.contents, fun _ => ⟨next, by
          change 128 * (u.txBufCur + 1) ≤ _
          omega, by
          change _ ≤ 128 * (u.txBufCur + 1 + 1)
          omega⟩⟩
      rw [if_pos full]
      refine ih moved fits ?_
      change data.length + (u.txBufHead.length - (u.txBufCur + 1)) < rounds
      omega
    · rw [if_neg full]
      obtain ⟨will, will_eq⟩ : ∃ will,
          will = min data.length (128 - (pending.length - 128 * u.txBufCur)) := ⟨_, rfl⟩
      rw [← will_eq]
      have length : (data.take will).length = will := by
        rw [List.length_take]
        omega
      obtain ⟨stored, done, stored_len, stored_totLen⟩ := store_inside
        (show pending.length - 128 * u.txBufCur + (data.take will).length ≤ cur.len by omega)
      rw [done]
      have position : 128 * u.txBufCur + (pending.length - 128 * u.txBufCur) = pending.length :=
        Nat.add_sub_of_le low
      have moved : Pending { u with
          txBufHead := u.txBufHead.set u.txBufCur stored
          txBufOffset := u.txBufOffset + will } (pending ++ data.take will) := by
        have contents := take_bytes_set before.built here done
        rw [position, before.contents] at contents
        refine ⟨before.built.set here stored_len stored_totLen, ?_, ?_, ?_, fun _ => ⟨?_, ?_, ?_⟩⟩
        · rw [List.length_append, length, before.offset]
        · rw [List.length_append, length, List.length_set]
          omega
        · rw [List.length_append]
          exact contents
        · rwa [List.length_set]
        · rw [List.length_append]
          exact Nat.le_trans low (Nat.le_add_right _ _)
        · rw [List.length_append, length]
          change _ ≤ 128 * (u.txBufCur + 1)
          omega
      have same := headTotLen_eq moved.built
      rw [List.length_set, ← headTotLen] at same
      obtain ⟨u', copied, after⟩ := ih moved (show _ + (data.drop will).length ≤ _ by
        rw [same, List.length_append, length, List.length_drop]
        omega) (by
        rw [List.length_set, List.length_drop]
        change data.length - will + (u.txBufHead.length - u.txBufCur) < rounds
        omega)
      refine ⟨u', copied, ?_⟩
      rwa [List.append_assoc, List.take_append_drop] at after

/-- What `append` does. -/
theorem Pending.append {u : UdpTransmit} {pending : List UInt8} (before : Pending u pending)
    (data : List UInt8) (memory : List Alloc) :
    ∃ size u', u.append data memory = some (size, u') ∧
      ((size = data.length ∧ Pending u' (pending ++ data)) ∨ (size = 0 ∧ Pending u' pending)) := by
  rw [UdpTransmit.append]
  generalize grown : (if u.tooSmall data.length then
    u.reserve (u.txBufOffset + data.length) memory else u) = v
  have kept : Pending v pending := by
    rw [← grown]
    split
    · exact before.reserve _ _
    · exact before
  by_cases small : v.tooSmall data.length = true
  · exact ⟨0, v, by simp only [if_pos small], .inr ⟨rfl, kept⟩⟩
  · have fits : pending.length + data.length ≤ v.headTotLen := by
      rw [tooSmall, Bool.or_eq_true, not_or, decide_eq_true_eq, decide_eq_true_eq, kept.offset] at small
      exact Nat.not_lt.1 small.2
    obtain ⟨u', copied, after⟩ :=
      kept.copyLoop fits (show _ < data.length + v.txBufHead.length + 1 by omega)
    refine ⟨data.length, u', ?_, .inl ⟨rfl, after⟩⟩
    simp only [if_neg small, copied, Option.map_some]

theorem copyOut_eq (n : Nat) (chain : List TxPbuf) : copyOut n chain = (bytes chain).take n := by
  induction chain generalizing n with
  | nil => rw [copyOut, bytes, List.flatMap_nil, List.take_nil]
  | cons p rest ih =>
    have whole : bytes (p :: rest) = p.payload ++ bytes rest := List.flatMap_cons
    have first : p.payload.take (min n p.len) = p.payload.take n := by
      rw [List.take_eq_take_iff, len, Nat.min_assoc, Nat.min_self]
    have left : n - min n p.len = n - p.payload.length := by
      rw [len]
      omega
    rw [copyOut, ih, whole, List.take_append, first, left]

/-- What `send` does. -/
theorem Pending.send {u : UdpTransmit} {pending : List UInt8} (before : Pending u pending)
    (short : pending.length < 2 ^ 16) (memory : Alloc) :
    u.send memory = some (memory.map fun _ => pending, fresh) := by
  rw [UdpTransmit.send, copyOut_eq, before.offset, before.contents]
  cases memory with
  | none => rfl
  | some byte =>
    have length : ((List.range (pending.length % 2 ^ 16)).map byte).length = pending.length := by
      rw [List.length_map, List.length_range, Nat.mod_eq_of_lt short]
    rw [alloc, Option.map_some]
    simp only [store, len, length, Nat.zero_add, Nat.lt_irrefl, if_false, Option.map_some,
      List.take_zero, List.nil_append]
    rw [List.drop_of_length_le (Nat.le_of_eq length), List.append_nil]

/-! ## The calls of a sketch -/

/-- Between two datagrams less than 2^16 bytes are passed to `append`. -/
def Short : Nat → List UdpTxCall → Prop
  | _, [] => True
  | total, .append data _ :: rest =>
    total + data.length < 2 ^ 16 ∧ Short (total + data.length) rest
  | _, .send _ :: rest => Short 0 rest

/-- The answers to calls when some bytes are pending: an append returns its size and adds its data
or returns 0 and does not, and a datagram is what is pending or nothing. -/
def Answers : List UInt8 → List UdpTxCall → List UdpTxAnswer → List UInt8 → Prop
  | pending, [], [], last => last = pending
  | pending, .append data _ :: calls, .appended size :: answers, last =>
    (size = data.length ∧ Answers (pending ++ data) calls answers last) ∨
      (size = 0 ∧ Answers pending calls answers last)
  | pending, .send memory :: calls, .sent datagram :: answers, last =>
    datagram = memory.map (fun _ => pending) ∧ Answers [] calls answers last
  | _, _, _, _ => False

/-- Every call returns as it should, and then the next datagram is what is pending. -/
theorem calls_assemble (requests : List UdpTxCall) (short : Short 0 requests) :
    ∃ answers u pending, calls requests fresh = some (answers, u) ∧
      Answers [] requests answers pending ∧
      ∀ memory, u.send memory = some (memory.map fun _ => pending, fresh) := by
  have runs : ∀ (requests : List UdpTxCall) (total : Nat) (u : UdpTransmit) (pending : List UInt8),
      Pending u pending → pending.length ≤ total → total < 2 ^ 16 → Short total requests →
      ∃ answers u' last, calls requests u = some (answers, u') ∧
        Answers pending requests answers last ∧
        ∀ memory, u'.send memory = some (memory.map fun _ => last, fresh) := by
    intro requests
    induction requests with
    | nil =>
      intro total u pending before few below _
      exact ⟨[], u, pending, rfl, rfl, before.send (Nat.lt_of_le_of_lt few below)⟩
    | cons call rest ih =>
      intro total u pending before few below short
      cases call with
      | append data memory =>
        obtain ⟨size, u₁, appended, outcome⟩ := before.append data memory
        have first : u.step (.append data memory) = some (.appended size, u₁) := by
          rw [step, appended, Option.map_some]
        rcases outcome with ⟨all, after⟩ | ⟨none, after⟩
        · obtain ⟨answers, u', last, done, right, next⟩ := ih _ u₁ _ after (by
            rw [List.length_append]
            exact Nat.add_le_add_right few _) short.1 short.2
          refine ⟨.appended size :: answers, u', last, ?_, .inl ⟨all, right⟩, next⟩
          rw [calls, first, Option.bind_some, done, Option.map_some]
        · obtain ⟨answers, u', last, done, right, next⟩ := ih _ u₁ _ after
            (Nat.le_trans few (Nat.le_add_right _ _)) short.1 short.2
          refine ⟨.appended size :: answers, u', last, ?_, .inr ⟨none, right⟩, next⟩
          rw [calls, first, Option.bind_some, done, Option.map_some]
      | send memory =>
        have sent := before.send (Nat.lt_of_le_of_lt few below) memory
        obtain ⟨answers, u', last, done, right, next⟩ :=
          ih 0 fresh [] fresh_pending (Nat.le_refl 0) (by decide) short
        refine ⟨.sent (memory.map fun _ => pending) :: answers, u', last, ?_, ⟨rfl, right⟩, next⟩
        rw [calls, step, sent, Option.map_some, Option.bind_some, done, Option.map_some]
  exact runs requests 0 fresh [] fresh_pending (Nat.le_refl 0) (by decide) short

/-- Two hundred bytes with memory for one pbuf only, then three bytes. -/
theorem calls_assemble_after_failure : ∃ answers u pending,
    calls [.append (List.replicate 200 7) [some fun _ => 0, none], .append [1, 2, 3] []] fresh =
        some (answers, u) ∧
      Answers [] [.append (List.replicate 200 7) [some fun _ => 0, none], .append [1, 2, 3] []]
        answers pending ∧
      ∀ memory, u.send memory = some (memory.map fun _ => pending, fresh) :=
  calls_assemble _ ⟨by rw [List.length_replicate]; decide, by
    rw [List.length_replicate]
    decide, trivial⟩

end UdpTransmit
end Esp8266.Source
