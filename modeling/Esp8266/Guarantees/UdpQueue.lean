import Esp8266.Source.UdpContext

/-!
# The queue of datagrams

The one chain of a UDP socket holds the datagrams taken and not yet given up, each behind the
first with its helper in front. `next` presents them in the order of arrival, reads stay within
the current one, and a datagram is dropped only at the depth limit or without a helper.
-/
set_option autoImplicit false

namespace Esp8266.Source

variable {A N : Type*}

/-- The bytes of a datagram. -/
def Datagram.payload (d : Datagram A N) : List UInt8 := d.pbufs.flatten

/-- The packet that a datagram is presented as. -/
def Datagram.packet (d : Datagram A N) : Packet A := ⟨d.srcaddr, d.srcport, d.payload⟩

namespace UdpContext

/-- A chain that holds a queue of datagrams. -/
inductive Links : List (Pbuf (AddrHelper A N)) → List (Datagram A N) → Prop
  | nil : Links [] []
  | last (d : Datagram A N) : Links (chain d) [d]
  | cons (d e : Datagram A N) (memory : List UInt8) {tail : List (Pbuf (AddrHelper A N))}
      {rest : List (Datagram A N)} (links : Links tail (e :: rest)) :
      Links (chain d ++ helper memory (addrHelper e) :: tail) (d :: e :: rest)

@[simp] theorem bytes_chain (d : Datagram A N) : Pbuf.bytes (chain d) = d.payload := by
  rw [Pbuf.bytes, chain, List.flatMap_map]
  exact List.flatMap_id

theorem chain_single (d : Datagram A N) : Pbuf.Single (chain d) := by
  intro p member
  obtain ⟨payload, -, rfl⟩ := List.mem_map.1 member
  rfl

theorem chain_ne (d : Datagram A N) : chain d ≠ [] := by
  simp [chain, d.pbufs_ne]

theorem chain_plain (d : Datagram A N) : ∀ p ∈ chain d, p.object.isSome = false := by
  intro p member
  obtain ⟨payload, -, rfl⟩ := List.mem_map.1 member
  rfl

/-- The walks stop behind a datagram: at the end, or at the helper of the next. -/
def Stops (rest : List (Pbuf (AddrHelper A N))) : Prop :=
  ∀ p ∈ rest.head?, p.object.isSome = true

theorem walk_plain {front rest : List (Pbuf (AddrHelper A N))}
    (plain : ∀ p ∈ front, p.object.isSome = false) (stops : Stops rest) :
    walk (front ++ rest) = (front, rest) := by
  induction front with
  | nil =>
    cases rest with
    | nil => rfl
    | cons p more => rw [List.nil_append, walk, if_pos (stops p rfl)]
  | cons p more ih =>
    have data : ¬p.object.isSome = true := by simp [plain p List.mem_cons_self]
    rw [List.cons_append, walk, if_neg data, ih fun q member =>
      plain q (List.mem_cons_of_mem _ member)]

theorem processSize_plain {front rest : List (Pbuf (AddrHelper A N))}
    (plain : ∀ p ∈ front, p.object.isSome = false) (stops : Stops rest) :
    processSize (front ++ rest) = Pbuf.totLen front := by
  induction front with
  | nil =>
    cases rest with
    | nil => rfl
    | cons p more =>
      rw [List.nil_append, processSize, if_pos (stops p rfl)]
      rfl
  | cons p more ih =>
    have data : ¬p.object.isSome = true := by simp [plain p List.mem_cons_self]
    rw [List.cons_append, processSize, if_neg data,
      ih fun q member => plain q (List.mem_cons_of_mem _ member)]
    exact (List.length_append : (p.payload ++ _).length = _).symm

/-- A queue begins with the pbufs of its first datagram. -/
theorem Links.split {xs : List (Pbuf (AddrHelper A N))} {d : Datagram A N}
    {rest : List (Datagram A N)} (links : Links xs (d :: rest)) :
    ∃ tail, xs = chain d ++ tail ∧ Stops tail := by
  cases links with
  | last => exact ⟨[], (List.append_nil _).symm, fun p member => nomatch member⟩
  | cons _ e memory more =>
    refine ⟨_, rfl, ?_⟩
    intro p first
    obtain rfl := Option.some.inj first
    rfl

theorem Links.processSize {xs : List (Pbuf (AddrHelper A N))} {d : Datagram A N}
    {rest : List (Datagram A N)} (links : Links xs (d :: rest)) :
    processSize xs = d.payload.length := by
  obtain ⟨tail, rfl, stops⟩ := links.split
  rw [processSize_plain (chain_plain d) stops, Pbuf.totLen, bytes_chain]

theorem Links.ne_nil {xs : List (Pbuf (AddrHelper A N))} {d : Datagram A N}
    {rest : List (Datagram A N)} (links : Links xs (d :: rest)) : xs ≠ [] := by
  obtain ⟨tail, rfl, -⟩ := links.split
  intro none
  exact chain_ne d (List.append_eq_nil_iff.1 none).1

theorem Links.eq_nil {queue : List (Datagram A N)} (links : Links [] queue) : queue = [] := by
  cases queue with
  | nil => rfl
  | cons d rest => exact absurd rfl links.ne_nil

theorem Links.single {xs : List (Pbuf (AddrHelper A N))} {queue : List (Datagram A N)}
    (links : Links xs queue) : Pbuf.Single xs := by
  induction links with
  | nil => exact fun _ member => nomatch member
  | last d => exact chain_single d
  | cons d e memory _ ih =>
    refine (chain_single d).append ?_
    intro p member
    rcases List.mem_cons.1 member with rfl | inside
    · rfl
    · exact ih p inside

/-- A datagram chained behind a queue, with its helper. -/
theorem Links.append {xs : List (Pbuf (AddrHelper A N))} {queue : List (Datagram A N)}
    (links : Links xs queue) (some : queue ≠ []) (memory : List UInt8) (d : Datagram A N) :
    Links (xs ++ helper memory (addrHelper d) :: chain d) (queue ++ [d]) := by
  induction links with
  | nil => exact absurd rfl some
  | last e => exact .cons e d memory (.last d)
  | cons e f memory' _ ih =>
    rw [List.append_assoc]
    exact .cons e f memory' (ih (List.cons_ne_nil _ _))

/-- The context holds a queue of datagrams, of which the first is current. -/
structure Holds (u : UdpContext A N) (queue : List (Datagram A N)) : Prop where
  links : Links u.rxBuf queue
  address : ∀ d ∈ queue.head?, u.currentAddr = addrHelper d
  size : u.rxBufSize = (queue.head?.elim [] Datagram.payload).length
  inside : u.rxBufOffset ≤ u.rxBufSize

/-- Reads are those of `bytes`, from the offset on. -/
structure ReadsFrom (u : UdpContext A N) (bytes : List UInt8) : Prop where
  inside : u.rxBufOffset ≤ bytes.length
  getSize_eq : u.getSize = bytes.length - u.rxBufOffset
  read_eq : u.read =
    (bytes[u.rxBufOffset]?, { u with rxBufOffset := min (u.rxBufOffset + 1) bytes.length })
  readBytes_eq : ∀ size, u.readBytes size =
    ((bytes.drop u.rxBufOffset).take size,
      { u with rxBufOffset := min (u.rxBufOffset + size) bytes.length })
  peek_eq : u.peek = bytes[u.rxBufOffset]?
  flush_eq : u.flush = { u with rxBufOffset := bytes.length }

theorem Holds.rxBuf_nil {u : UdpContext A N} (holds : u.Holds []) : u.rxBuf = [] := by
  have links := holds.links
  generalize u.rxBuf = xs at links
  cases links
  rfl

theorem Holds.next_nil {u : UdpContext A N} (holds : u.Holds []) : u.next = some (false, u) := by
  rw [next, if_pos holds.rxBuf_nil]

/-- An empty context has nothing to read. -/
theorem Holds.readsFrom_nil {u : UdpContext A N} (holds : u.Holds []) : u.ReadsFrom [] := by
  have none : u.rxBuf = [] := holds.rxBuf_nil
  have size : u.rxBufSize = 0 := holds.size
  have offset : u.rxBufOffset = 0 := by
    have inside := holds.inside
    omega
  have same (k : Nat) : u = { u with rxBufOffset := min k 0 } := by
    rw [Nat.min_zero, ← offset]
  refine ⟨Nat.le_of_eq offset, by simp [getSize, none], ?_, ?_, by simp [peek, none], ?_⟩
  · rw [read, if_pos (.inl none)]
    exact congrArg (Prod.mk _) (same _)
  · intro n
    rw [readBytes, if_pos none, List.drop_nil, List.take_nil]
    exact congrArg (Prod.mk _) (same _)
  · rw [flush, if_pos none]
    exact same 0

/-- Reads of a context that holds datagrams are reads of the first. -/
theorem Holds.readsFrom_cons {u : UdpContext A N} {d : Datagram A N} {rest : List (Datagram A N)}
    (holds : u.Holds (d :: rest)) : u.ReadsFrom d.payload := by
  have size : u.rxBufSize = d.payload.length := holds.size
  have inside : u.rxBufOffset ≤ d.payload.length := size ▸ holds.inside
  have short : d.payload.length < 2 ^ 16 := d.short
  have some : u.rxBuf ≠ [] := holds.links.ne_nil
  obtain ⟨tail, buffer, -⟩ := holds.links.split
  have bytes : Pbuf.bytes u.rxBuf = d.payload ++ Pbuf.bytes tail := by
    rw [buffer, Pbuf.bytes_append, bytes_chain]
  have total : d.payload.length ≤ Pbuf.totLen u.rxBuf := by
    rw [Pbuf.totLen, bytes, List.length_append]
    omega
  -- what lwIP finds at an offset within the datagram
  have found (within : u.rxBufOffset < d.payload.length) :
      Pbuf.getAt u.rxBuf (u.rxBufOffset % 2 ^ 16) = d.payload[u.rxBufOffset] := by
    rw [Nat.mod_eq_of_lt (by omega), Pbuf.getAt_inside (by omega), bytes,
      List.getD_eq_getElem?_getD, List.getElem?_append_left within,
      List.getElem?_eq_getElem within]
    rfl
  refine ⟨inside, by rw [getSize, if_neg some, size], ?_, ?_, ?_, ?_⟩
  · by_cases within : u.rxBufOffset < d.payload.length
    · have more : ¬(u.rxBuf = [] ∨ u.rxBufSize ≤ u.rxBufOffset) := by
        rintro (none | full)
        · exact some none
        · omega
      rw [read, if_neg more, found within, List.getElem?_eq_getElem within, consume, size]
    · have full : u.rxBufOffset = d.payload.length := by omega
      rw [read, if_pos (.inr (by omega)), full, List.getElem?_eq_none (Nat.le_refl _),
        Nat.min_eq_right (Nat.le_succ _), ← full]
  · intro n
    rw [readBytes, if_neg some, size]
    by_cases within : u.rxBufOffset < d.payload.length
    · have fits : u.rxBufOffset + min n (d.payload.length - u.rxBufOffset) ≤
          d.payload.length := by omega
      have taken : ((d.payload ++ Pbuf.bytes tail).drop u.rxBufOffset).take
          (min n (d.payload.length - u.rxBufOffset)) = (d.payload.drop u.rxBufOffset).take n := by
        rw [List.drop_append_of_le_length inside, List.take_append_of_le_length,
          List.take_eq_take_iff, List.length_drop]
        · omega
        · rw [List.length_drop]
          omega
      simp only
      rw [Nat.mod_eq_of_lt (by omega), Nat.mod_eq_of_lt (by omega),
        Pbuf.getContiguous_inside (by omega) (by omega), bytes, taken]
      simp only [consume, size]
      congr 2
      omega
    · have full : u.rxBufOffset = d.payload.length := by omega
      have same :
          { u with rxBufOffset := d.payload.length, rxBufSize := d.payload.length } = u := by
        cases u
        simp only at full size
        rw [full, size]
      have none : min n (d.payload.length - u.rxBufOffset) = 0 := by omega
      simp only [none, Nat.zero_mod]
      rw [Nat.min_eq_right (by omega), same, List.drop_of_length_le (Nat.le_of_eq full.symm),
        List.take_nil]
      rcases Pbuf.getContiguous_zero u.rxBuf (u.rxBufOffset % 2 ^ 16) with nothing | nothing
      · rw [nothing]
      · have still : u.consume 0 = u := by
          rw [consume, Nat.add_zero, Nat.min_eq_left holds.inside]
        rw [nothing, still]
  · by_cases within : u.rxBufOffset < d.payload.length
    · have more : ¬(u.rxBuf = [] ∨ u.rxBufOffset = u.rxBufSize) := by
        rintro (none | full)
        · exact some none
        · omega
      rw [peek, if_neg more, found within, List.getElem?_eq_getElem within]
    · rw [peek, if_pos (.inr (by omega)), List.getElem?_eq_none (by omega)]
  · rw [flush, if_neg some, consume, size]
    congr 1
    omega

theorem Holds.readsFrom {u : UdpContext A N} {queue : List (Datagram A N)}
    (holds : u.Holds queue) : u.ReadsFrom (queue.head?.elim [] Datagram.payload) := by
  cases queue with
  | nil => exact holds.readsFrom_nil
  | cons d rest => exact holds.readsFrom_cons

/-- The offset is free to move within the datagram. -/
theorem Holds.offset {u : UdpContext A N} {queue : List (Datagram A N)} (holds : u.Holds queue)
    {pos : Nat} (valid : pos ≤ u.rxBufSize) : Holds { u with rxBufOffset := pos } queue :=
  ⟨holds.links, holds.address, holds.size, valid⟩

/-- A datagram is presented with its own sender and all of its bytes. -/
theorem Holds.packet {u : UdpContext A N} {d : Datagram A N} {rest : List (Datagram A N)}
    (holds : u.Holds (d :: rest)) : UdpLife.packet u = d.packet := by
  have address : u.currentAddr = addrHelper d := holds.address d rfl
  have size : u.rxBufSize = d.payload.length := holds.size
  have read := (holds.offset (Nat.zero_le _)).readsFrom_cons.readBytes_eq u.rxBufSize
  rw [UdpLife.packet, read, getRemoteAddress, getRemotePort, address, size, List.drop_zero,
    List.take_length]
  rfl

/-- `next` on a chain whose first datagram has not been presented. -/
theorem Holds.next_first {u : UdpContext A N} {d : Datagram A N} {rest : List (Datagram A N)}
    (holds : u.Holds (d :: rest)) (first : u.firstBufTaken = false) :
    u.next = some (true, { u with firstBufTaken := true }) := by
  rw [next, if_neg holds.links.ne_nil, first]
  rfl

/-- `next` behind the last datagram. -/
theorem Holds.next_last {u : UdpContext A N} {d : Datagram A N} (holds : u.Holds [d])
    (taken : u.firstBufTaken = true) : ∃ u', u.next = some (false, u') ∧ u'.Holds [] := by
  have buffer : u.rxBuf = chain d := by
    have links := holds.links
    generalize u.rxBuf = xs at links
    cases links
    rfl
  have walked : walk u.rxBuf = (chain d, []) := by
    have stops : Stops ([] : List (Pbuf (AddrHelper A N))) := fun p member => nomatch member
    have plain := walk_plain (chain_plain d) stops
    rw [List.append_nil] at plain
    rw [buffer, plain]
  have given : u.next = u.forward (chain d).length (chain d) := by
    rw [next, if_neg holds.links.ne_nil, taken, walked]
    rfl
  refine ⟨{ u with rxBuf := [], rxBufOffset := 0, rxBufSize := 0 }, ?_, ?_⟩
  · rw [given, forward, Pbuf.afterFree_single (chain_single d)]
    rfl
  · exact ⟨.nil, fun p member => (nomatch member), rfl, Nat.le_refl _⟩

/-- `next` with a datagram behind the current one. -/
theorem Holds.next_more {u : UdpContext A N} {d e : Datagram A N} {rest : List (Datagram A N)}
    (holds : u.Holds (d :: e :: rest)) (taken : u.firstBufTaken = true) :
    ∃ u', u.next = some (true, u') ∧ u'.firstBufTaken = true ∧ u'.Holds (e :: rest) := by
  have nonempty := holds.links.ne_nil
  have links := holds.links
  rw [next, if_neg nonempty, taken]
  generalize u.rxBuf = xs at links
  cases links with
  | cons _ _ memory more =>
    rename_i tail
    have stops : Stops (helper memory (addrHelper e) :: tail) := by
      intro p first
      obtain rfl := Option.some.inj first
      rfl
    have single : Pbuf.Single (chain d ++ [helper memory (addrHelper e)]) := by
      refine (chain_single d).append ?_
      intro p member
      rw [List.mem_singleton.1 member]
      rfl
    obtain ⟨p, others, filled⟩ := List.exists_cons_of_ne_nil more.ne_nil
    have freed := Pbuf.afterFree_reference single more.single more.ne_nil
    rw [List.length_append, List.length_singleton, List.append_assoc, List.singleton_append]
      at freed
    refine ⟨{ u with
      rxBuf := tail
      firstBufTaken := true
      rxBufOffset := 0
      rxBufSize := processSize tail
      currentAddr := addrHelper e }, ?_, rfl, more, ?_, more.processSize, Nat.zero_le _⟩
    · rw [walk_plain (chain_plain d) stops]
      rw [filled] at freed ⊢
      simp only [Bool.not_true, Bool.false_eq_true, if_false, helper, forward] at freed ⊢
      rw [freed]
      rfl
    · intro d' first
      obtain rfl := Option.some.inj first
      rfl

theorem tooDeep_iff (xs : List (Pbuf (AddrHelper A N))) :
    ∀ count, tooDeep count xs = true ↔ xs ≠ [] ∧ rxBufMaxDepth * 2 ≤ count + xs.length := by
  induction xs with
  | nil => intro count; simp [tooDeep]
  | cons p rest ih =>
    intro count
    rw [tooDeep]
    split
    · next few =>
      rw [ih, List.length_cons]
      constructor
      · exact fun deep => ⟨List.cons_ne_nil _ _, by omega⟩
      · rintro ⟨-, deep⟩
        refine ⟨?_, by omega⟩
        rintro rfl
        rw [List.length_nil] at deep
        omega
    · next many =>
      simp only [List.length_cons, ne_eq, reduceCtorEq, not_false_eq_true, true_and, true_iff]
      omega

/-- The test of the depth. -/
theorem deep_iff (u : UdpContext A N) :
    tooDeep 0 u.rxBuf = true ↔ rxBufMaxDepth * 2 ≤ u.rxBuf.length := by
  rw [tooDeep_iff, Nat.zero_add]
  refine ⟨And.right, fun deep => ⟨?_, deep⟩⟩
  intro none
  rw [none, List.length_nil, rxBufMaxDepth] at deep
  omega

/-- A datagram is dropped at the depth limit, or when it needs a helper and gets none. The
context stays as it is. -/
theorem recv_dropped (d : Datagram A N) (alloc : Option (List UInt8)) (u : UdpContext A N) :
    ((u.recv d alloc).1 = false ↔ rxBufMaxDepth * 2 ≤ u.rxBuf.length ∨
      u.rxBuf ≠ [] ∧ alloc = none) ∧
    ((u.recv d alloc).1 = false → (u.recv d alloc).2 = u) := by
  have deep := deep_iff u
  unfold recv
  split
  · next limit => exact ⟨⟨fun _ => .inl (deep.1 limit), fun _ => rfl⟩, fun _ => rfl⟩
  · next room =>
    have shallow : ¬rxBufMaxDepth * 2 ≤ u.rxBuf.length := fun limit => room (deep.2 limit)
    split
    · next more =>
      cases alloc with
      | none => exact ⟨⟨fun _ => .inr ⟨more, rfl⟩, fun _ => rfl⟩, fun _ => rfl⟩
      | some memory => simp [shallow]
    · next first => simp [not_not.1 first, rxBufMaxDepth]

/-- A datagram taken is the last of the queue. -/
theorem Holds.recv {u u' : UdpContext A N} {queue : List (Datagram A N)} {d : Datagram A N}
    {alloc : Option (List UInt8)} (holds : u.Holds queue)
    (taken : u.recv d alloc = (true, u')) :
    u'.Holds (queue ++ [d]) ∧
      u'.firstBufTaken = if queue = [] then false else u.firstBufTaken := by
  unfold UdpContext.recv at taken
  split at taken
  · cases taken
  · cases queue with
    | nil =>
      have none : u.rxBuf = [] := holds.rxBuf_nil
      rw [if_neg (not_not_intro none)] at taken
      cases taken
      refine ⟨⟨.last d, ?_, ?_, Nat.zero_le _⟩, rfl⟩
      · intro e first
        obtain rfl := Option.some.inj first
        rfl
      · exact congrArg List.length (bytes_chain d)
    | cons e rest =>
      rw [if_pos holds.links.ne_nil] at taken
      cases alloc with
      | none => cases taken
      | some memory =>
        cases taken
        refine ⟨⟨?_, holds.address, holds.size, holds.inside⟩, rfl⟩
        rw [Pbuf.cat, Pbuf.cat, List.append_assoc]
        exact holds.links.append (List.cons_ne_nil _ _) memory d

end UdpContext

namespace UdpLife

open UdpContext

/-- The datagrams taken are those given up and the queue; those given up were presented, and
the first of the queue when it is marked so. -/
def Kept (life : UdpLife A N) : Prop :=
  ∃ before queue, life.accepted = before ++ queue ∧ life.context.Holds queue ∧
    life.presented = (before ++ if life.context.firstBufTaken then queue.take 1 else []).map
      Datagram.packet

theorem fresh_kept (currentAddr : AddrHelper A N) : (fresh currentAddr).Kept :=
  ⟨[], [], rfl, ⟨.nil, fun _ member => (nomatch member), rfl, Nat.le_refl _⟩, rfl⟩

/-- A call that moves the offset only. -/
theorem Kept.offset {life : UdpLife A N} (kept : life.Kept) {pos : Nat}
    (valid : pos ≤ life.context.rxBufSize) :
    Kept { life with context := { life.context with rxBufOffset := pos } } := by
  obtain ⟨before, queue, accepted, holds, presented⟩ := kept
  exact ⟨before, queue, accepted, holds.offset valid, presented⟩

theorem step_recv {life : UdpLife A N} {d : Datagram A N} {alloc : Option (List UInt8)}
    {taken : Bool} {u : UdpContext A N} (outcome : life.context.recv d alloc = (taken, u)) :
    life.step (.recv d alloc) = some { life with
      context := u
      accepted := life.accepted ++ if taken then [d] else [] } := by
  simp only [step, outcome]

theorem step_next {life : UdpLife A N} {found : Bool} {u : UdpContext A N}
    (outcome : life.context.next = some (found, u)) :
    life.step .next = some { life with
      context := u
      presented := life.presented ++ if found then [packet u] else [] } := by
  simp only [step, outcome, Option.map_some]

theorem Kept.recv {life : UdpLife A N} (kept : life.Kept) (d : Datagram A N)
    (alloc : Option (List UInt8)) :
    ∃ next, life.step (.recv d alloc) = some next ∧ next.Kept := by
  obtain ⟨before, queue, accepted, holds, presented⟩ := kept
  obtain ⟨taken, context, outcome⟩ : ∃ taken u, life.context.recv d alloc = (taken, u) :=
    ⟨_, _, rfl⟩
  refine ⟨_, step_recv outcome, ?_⟩
  cases taken with
  | false =>
    have same := (recv_dropped d alloc life.context).2 (by rw [outcome])
    rw [outcome] at same
    obtain rfl : context = life.context := same
    exact ⟨before, queue, by simpa using accepted, holds, presented⟩
  | true =>
    obtain ⟨holds, marked⟩ := holds.recv outcome
    refine ⟨before, queue ++ [d], ?_, holds, ?_⟩
    · simp [accepted]
    · simp only [presented, marked]
      cases queue with
      | nil => simp
      | cons e rest => simp

/-- `next` presents the first datagram that it has not presented. -/
theorem Kept.next {life : UdpLife A N} (kept : life.Kept) :
    ∃ next, life.step .next = some next ∧ next.Kept := by
  obtain ⟨before, queue, accepted, holds, presented⟩ := kept
  cases queue with
  | nil =>
    refine ⟨_, step_next holds.next_nil, before, [], accepted, holds, ?_⟩
    simpa using presented
  | cons d rest =>
    cases mark : life.context.firstBufTaken with
    | false =>
      have shown := holds.next_first mark
      have now : Holds { life.context with firstBufTaken := true } (d :: rest) :=
        ⟨holds.links, holds.address, holds.size, holds.inside⟩
      refine ⟨_, step_next shown, before, d :: rest, accepted, now, ?_⟩
      simp [presented, mark, now.packet]
    | true =>
      cases rest with
      | nil =>
        obtain ⟨u, ended, empty⟩ := holds.next_last mark
        refine ⟨_, step_next ended, before ++ [d], [], ?_, empty, ?_⟩
        · simp [accepted]
        · simp [presented, mark]
      | cons e rest =>
        obtain ⟨u, shown, marked, now⟩ := holds.next_more mark
        refine ⟨_, step_next shown, before ++ [d], e :: rest, ?_, now, ?_⟩
        · simp [accepted]
        · simp [presented, mark, marked, now.packet]

theorem Kept.step {life : UdpLife A N} (kept : life.Kept) (call : UdpCall A N)
    (valid : ∀ pos, call = .seek pos → life.context.isValidOffset pos = true) :
    ∃ next, life.step call = some next ∧ next.Kept := by
  have reads : ∃ bytes, life.context.ReadsFrom bytes ∧
      life.context.rxBufSize = bytes.length := by
    obtain ⟨before, queue, -, holds, -⟩ := kept
    exact ⟨_, holds.readsFrom, holds.size⟩
  obtain ⟨bytes, reads, size⟩ := reads
  cases call with
  | recv d alloc => exact kept.recv d alloc
  | next => exact kept.next
  | read =>
    refine ⟨_, rfl, ?_⟩
    rw [reads.read_eq]
    exact kept.offset (size ▸ Nat.min_le_right _ _)
  | readBytes n =>
    refine ⟨_, rfl, ?_⟩
    rw [reads.readBytes_eq n]
    exact kept.offset (size ▸ Nat.min_le_right _ _)
  | peek => exact ⟨life, rfl, kept⟩
  | flush =>
    refine ⟨_, rfl, ?_⟩
    rw [reads.flush_eq]
    exact kept.offset (Nat.le_of_eq size.symm)
  | seek pos =>
    have inside := valid pos rfl
    refine ⟨_, by rw [UdpLife.step, seek, if_pos inside, Option.map_some], ?_⟩
    exact kept.offset (of_decide_eq_true inside)

theorem run_kept (calls : List (UdpCall A N)) :
    ∀ life : UdpLife A N, SeeksValid calls life → life.Kept →
      ∃ last, run calls life = some last ∧ last.Kept := by
  induction calls with
  | nil => intro life _ kept; exact ⟨life, rfl, kept⟩
  | cons call rest ih =>
    intro life valid kept
    obtain ⟨next, made, kept⟩ := kept.step call valid.1
    obtain ⟨last, ran, kept⟩ := ih next (valid.2 next made) kept
    exact ⟨last, by rw [run, made, Option.bind_some, ran], kept⟩

/-- The datagram at the head of the chain: the last one that `next` presented, and one that no
`next` has presented yet when it came to an empty chain. -/
def current (life : UdpLife A N) : Option (Datagram A N) :=
  if life.context.rxBuf = [] then none
  else if life.context.firstBufTaken then life.accepted[life.presented.length - 1]?
  else life.accepted[life.presented.length]?

/-- The packets presented are the first of the datagrams taken, in the order of arrival, each
with its own sender, and `next` goes on with the one behind them. Reads return the bytes of the
current datagram in order from the offset on, and a datagram is only dropped at the depth limit
or without a helper, with nothing changed. -/
structure Exact (life : UdpLife A N) : Prop where
  ordered : life.presented = (life.accepted.take life.presented.length).map Datagram.packet
  advances : ∃ u, life.context.next =
    some (decide (life.presented.length < life.accepted.length), u)
  sender : ∀ d ∈ life.current, life.context.getRemoteAddress = d.srcaddr ∧
    life.context.getRemotePort = d.srcport
  none_iff : life.current = none ↔ life.context.rxBuf = []
  reads : life.context.ReadsFrom (life.current.elim [] Datagram.payload)
  drops : ∀ d alloc, (life.context.recv d alloc).1 = false →
    (rxBufMaxDepth * 2 ≤ life.context.rxBuf.length ∨ life.context.rxBuf ≠ [] ∧ alloc = none) ∧
      (life.context.recv d alloc).2 = life.context

/-- The current datagram is the first of the queue. -/
theorem current_eq {life : UdpLife A N} {before queue : List (Datagram A N)}
    (accepted : life.accepted = before ++ queue) (holds : life.context.Holds queue)
    (presented : life.presented =
      (before ++ if life.context.firstBufTaken then queue.take 1 else []).map Datagram.packet) :
    life.current = queue.head? := by
  unfold current
  cases queue with
  | nil => rw [if_pos holds.rxBuf_nil]; rfl
  | cons d rest =>
    rw [if_neg holds.links.ne_nil, accepted, presented]
    split
    · simp
    · simp

theorem next_eq {life : UdpLife A N} {before queue : List (Datagram A N)}
    (accepted : life.accepted = before ++ queue) (holds : life.context.Holds queue)
    (presented : life.presented =
      (before ++ if life.context.firstBufTaken then queue.take 1 else []).map Datagram.packet) :
    ∃ u, life.context.next =
      some (decide (life.presented.length < life.accepted.length), u) := by
  rw [accepted, presented]
  cases queue with
  | nil => exact ⟨life.context, by rw [holds.next_nil]; simp⟩
  | cons d rest =>
    cases mark : life.context.firstBufTaken with
    | false =>
      exact ⟨{ life.context with firstBufTaken := true }, by rw [holds.next_first mark]; simp⟩
    | true =>
      cases rest with
      | nil =>
        obtain ⟨u, ended, -⟩ := holds.next_last mark
        exact ⟨u, by rw [ended]; simp⟩
      | cons e rest =>
        obtain ⟨u, shown, -, -⟩ := holds.next_more mark
        exact ⟨u, by rw [shown]; simp⟩

theorem Kept.exact {life : UdpLife A N} (kept : life.Kept) : life.Exact := by
  obtain ⟨before, queue, accepted, holds, presented⟩ := kept
  have current := current_eq accepted holds presented
  refine ⟨?_, next_eq accepted holds presented, ?_, ?_, ?_, ?_⟩
  · rw [presented, accepted, List.length_map, List.length_append, List.take_length_add_append]
    congr 2
    split
    · cases queue <;> rfl
    · rfl
  · intro d first
    rw [current] at first
    rw [getRemoteAddress, getRemotePort, holds.address d first]
    exact ⟨rfl, rfl⟩
  · rw [current, List.head?_eq_none_iff]
    constructor
    · rintro rfl
      exact holds.rxBuf_nil
    · intro none
      have links := holds.links
      rw [none] at links
      exact links.eq_nil
  · rw [current]
    exact holds.readsFrom
  · intro d alloc dropped
    have outcome := recv_dropped d alloc life.context
    exact ⟨outcome.1.1 dropped, outcome.2 dropped⟩

/-- In every run whose `seek`s are to valid offsets, all calls return and the queue is kept
exactly. -/
theorem queue_exact (currentAddr : AddrHelper A N) (calls : List (UdpCall A N))
    (valid : SeeksValid calls (fresh currentAddr)) :
    ∃ life, run calls (fresh currentAddr) = some life ∧ life.Exact := by
  obtain ⟨life, ran, kept⟩ := run_kept calls _ valid (fresh_kept currentAddr)
  exact ⟨life, ran, kept.exact⟩

/-- Two datagrams, the first read in part and sought back. -/
theorem queue_exact_two :
    ∃ life, run [.recv ⟨[[1, 2], [3]], by decide, by decide, 7, 0, 53, ()⟩ none, .next, .read,
        .recv ⟨[[4]], by decide, by decide, 8, 0, 54, ()⟩ (some [0]), .seek 0, .next]
      (fresh (⟨0, 0, 0, ()⟩ : AddrHelper Nat Unit)) = some life ∧ life.Exact :=
  queue_exact _ _
    ⟨nofun, fun _ made => by
      cases made
      exact ⟨nofun, fun _ made => by
        cases made
        exact ⟨nofun, fun _ made => by
          cases made
          exact ⟨nofun, fun _ made => by
            cases made
            refine ⟨?_, fun _ made => ?_⟩
            · rintro pos ⟨⟩
              rfl
            · cases made
              exact ⟨nofun, fun _ _ => trivial⟩⟩⟩⟩⟩

end UdpLife
end Esp8266.Source
