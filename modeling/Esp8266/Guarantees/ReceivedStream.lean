import Esp8266.Source.ClientContext

/-!
# What a TCP connection receives

Every call of the receive side returns, `read` hands out the received bytes in order and
`getSize` counts what is left. The credit given to lwIP follows the bytes read, up to the end of
the context: `discard_received` credits the whole head pbuf, the part that was read included.
-/
set_option autoImplicit false

namespace Esp8266.Source

namespace ClientContext

/-- The bytes received and not yet read. -/
def unread (c : ClientContext) : List UInt8 := (Pbuf.bytes c.rxBuf).drop c.rxBufOffset

/-- The shape of the receive buffer: pbufs that hold bytes and have one owner, with the offset
inside of the first. -/
structure Sound (c : ClientContext) : Prop where
  single : Pbuf.Single c.rxBuf
  filled : ∀ p ∈ c.rxBuf, p.payload ≠ []
  inside : ∀ head ∈ c.rxBuf.head?, c.rxBufOffset < head.len
  rewound : c.rxBuf = [] → c.rxBufOffset = 0

theorem fresh_sound : fresh.Sound where
  single := fun _ member => absurd member List.not_mem_nil
  filled := fun _ member => absurd member List.not_mem_nil
  inside := fun _ member => by cases member
  rewound := fun _ => rfl

theorem getSize_eq (c : ClientContext) : c.getSize = c.unread.length := by
  unfold getSize unread
  split
  · next none => rw [none]; simp
  · rw [List.length_drop]
    rfl

/-- The credit for `size` bytes. -/
def credited (size : Nat) (c : ClientContext) : Nat := if c.pcb then size else 0

@[simp] theorem credit_rxBuf (size : Nat) (c : ClientContext) :
    (c.credit size).rxBuf = c.rxBuf := by
  unfold credit
  split <;> rfl

@[simp] theorem credit_rxBufOffset (size : Nat) (c : ClientContext) :
    (c.credit size).rxBufOffset = c.rxBufOffset := by
  unfold credit
  split <;> rfl

@[simp] theorem credit_pcb (size : Nat) (c : ClientContext) : (c.credit size).pcb = c.pcb := by
  unfold credit
  split <;> rfl

@[simp] theorem credit_recved (size : Nat) (c : ClientContext) :
    (c.credit size).recved = c.recved + c.credited size := by
  unfold credit credited
  split <;> rfl

theorem credited_add (m n : Nat) (c : ClientContext) :
    c.credited (m + n) = c.credited m + c.credited n := by
  unfold credited
  split <;> rfl

/-- What it means to have read `size` bytes. -/
structure Advanced (size : Nat) (c c' : ClientContext) : Prop where
  sound : c'.Sound
  suffix : c'.rxBuf <:+ c.rxBuf
  unread_eq : c'.unread = c.unread.drop size
  pcb_eq : c'.pcb = c.pcb
  recved_eq : c'.recved = c.recved + c.credited size

theorem Sound.advanced_zero {c : ClientContext} (sound : c.Sound) : Advanced 0 c c :=
  ⟨sound, List.suffix_rfl, rfl, rfl, by unfold credited; split <;> rfl⟩

theorem Advanced.trans {m n : Nat} {c c' c'' : ClientContext} (first : Advanced m c c')
    (second : Advanced n c' c'') : Advanced (m + n) c c'' where
  sound := second.sound
  suffix := second.suffix.trans first.suffix
  unread_eq := by rw [second.unread_eq, first.unread_eq, List.drop_drop]
  pcb_eq := second.pcb_eq.trans first.pcb_eq
  recved_eq := by
    have same : c'.credited n = c.credited n := by rw [credited, credited, first.pcb_eq]
    rw [second.recved_eq, first.recved_eq, same, credited_add, Nat.add_assoc]

/-- The unread bytes of a chain begin with the rest of its head. -/
theorem Sound.unread_cons {c : ClientContext} (sound : c.Sound) {head : Pbuf Unit}
    {next : List (Pbuf Unit)} (chain : c.rxBuf = head :: next) :
    c.unread = head.payload.drop c.rxBufOffset ++ Pbuf.bytes next := by
  have inside : c.rxBufOffset < head.len := sound.inside head (by rw [chain]; rfl)
  rw [unread, chain, Pbuf.bytes_cons, List.drop_append_of_le_length (Nat.le_of_lt inside)]

/-- `_consume` of bytes that the head holds. -/
theorem Sound.consume {c : ClientContext} (sound : c.Sound) {head : Pbuf Unit}
    {next : List (Pbuf Unit)} (chain : c.rxBuf = head :: next) (size : Nat)
    (held : c.rxBufOffset + size ≤ head.len) :
    ∃ c', c.consume size = some c' ∧ Advanced size c c' := by
  have unread := sound.unread_cons chain
  have single : Pbuf.Single (head :: next) := chain ▸ sound.single
  have filled : ∀ p ∈ head :: next, p.payload ≠ [] := chain ▸ sound.filled
  simp only [ClientContext.consume, credit_rxBuf, chain, credit_rxBufOffset]
  split
  · next some =>
    refine ⟨_, rfl, ?_, by simp [chain], ?_, ?_, ?_⟩
    · refine ⟨?_, ?_, ?_, ?_⟩
      · simpa [chain] using single
      · simpa [chain] using filled
      · simp only [List.head?_cons, Option.mem_some_iff]
        rintro p rfl
        omega
      · simp
    · rw [ClientContext.unread, ClientContext.unread, List.drop_drop]
      simp only [chain]
    · simp
    · simp
  · next all =>
    have gone : (head.payload.drop c.rxBufOffset).length = size := by
      rw [List.length_drop]
      unfold Pbuf.len at *
      omega
    have left : c.unread.drop size = Pbuf.bytes next := by
      rw [unread, ← gone, List.drop_left]
    split
    · next last =>
      refine ⟨_, rfl, ?_, List.nil_suffix, ?_, ?_, ?_⟩
      · exact ⟨fresh_sound.single, fresh_sound.filled, fresh_sound.inside, fun _ => rfl⟩
      · rw [left, last]
        rfl
      · simp
      · simp
    · next more =>
      have front : Pbuf.Single [head] := (show Pbuf.Single ([head] ++ next) from single).left
      have back : Pbuf.Single next := (show Pbuf.Single ([head] ++ next) from single).right
      have freed := Pbuf.afterFree_reference front back more
      simp only [List.length_singleton, List.cons_append, List.nil_append] at freed
      rw [freed, Option.map_some]
      refine ⟨_, rfl, ?_, by rw [chain]; exact List.suffix_cons head next, ?_, ?_, ?_⟩
      · refine ⟨back, fun p member => filled p (List.mem_cons_of_mem _ member), ?_, fun _ => rfl⟩
        intro p first
        have member : p ∈ next := List.mem_of_mem_head? first
        exact List.length_pos_of_ne_nil (filled p (List.mem_cons_of_mem _ member))
      · rw [left]
        rfl
      · simp
      · simp

/-- `read()` returns the next byte. -/
theorem Sound.read {c : ClientContext} (sound : c.Sound) (some : c.rxBuf ≠ []) :
    ∃ byte c', c.read = .some (byte, c') ∧ c.unread.take 1 = [byte] ∧ Advanced 1 c c' := by
  obtain ⟨head, next, chain⟩ := List.exists_cons_of_ne_nil some
  have inside : c.rxBufOffset < head.len := sound.inside head (by rw [chain]; rfl)
  obtain ⟨c', consumed, advanced⟩ := sound.consume chain 1 inside
  refine ⟨head.payload[c.rxBufOffset], c', ?_, ?_, advanced⟩
  · have found : head.payload[c.rxBufOffset]? = .some head.payload[c.rxBufOffset] :=
      List.getElem?_eq_getElem inside
    simp only [ClientContext.read, chain, found, consumed, Option.bind_eq_bind, Option.bind_some]
  · rw [sound.unread_cons chain, List.drop_eq_getElem_cons inside]
    rfl

theorem Sound.readLoop {fuel : Nat} : ∀ {size : Nat} {c : ClientContext}, c.Sound →
    size ≤ fuel → size ≤ c.unread.length →
    ∃ c', ClientContext.readLoop fuel size c = some (c.unread.take size, c') ∧
      Advanced size c c' := by
  induction fuel with
  | zero =>
    intro size c sound few _
    obtain rfl : size = 0 := by omega
    exact ⟨c, by simp [ClientContext.readLoop], sound.advanced_zero⟩
  | succ fuel ih =>
    intro size c sound few there
    cases size with
    | zero => exact ⟨c, by simp [ClientContext.readLoop], sound.advanced_zero⟩
    | succ size =>
      have some : c.rxBuf ≠ [] := by
        intro none
        rw [unread, none] at there
        simp at there
      obtain ⟨head, next, chain⟩ := List.exists_cons_of_ne_nil some
      have inside : c.rxBufOffset < head.len := sound.inside head (by rw [chain]; rfl)
      -- every round takes at least one byte
      generalize step : min (size + 1) (head.len - c.rxBufOffset) = copySize
      have positive : 0 < copySize := by omega
      obtain ⟨c', consumed, advanced⟩ := sound.consume chain copySize (by omega)
      have remaining : size + 1 - copySize ≤ c'.unread.length := by
        rw [advanced.unread_eq, List.length_drop]
        omega
      have fewer : size + 1 - copySize ≤ fuel := by omega
      obtain ⟨c'', looped, rest⟩ := ih advanced.sound fewer remaining
      have copied : (head.payload.drop c.rxBufOffset).take copySize = c.unread.take copySize := by
        rw [sound.unread_cons chain, List.take_append_of_le_length]
        rw [List.length_drop]
        unfold Pbuf.len at step
        omega
      have parts : copySize + (size + 1 - copySize) = size + 1 := by omega
      refine ⟨c'', ?_, parts ▸ advanced.trans rest⟩
      simp only [ClientContext.readLoop, chain, step, consumed, looped, copied,
        advanced.unread_eq, Option.bind_eq_bind, Option.bind_some]
      rw [← List.take_add, parts]

/-- `read(dst, size)` returns the next bytes, as many as there are and asked for. -/
theorem Sound.readBytes {c : ClientContext} (sound : c.Sound) (size : Nat) :
    ∃ c', c.readBytes size = some (c.unread.take size, c') ∧
      Advanced (min size c.unread.length) c c' := by
  unfold ClientContext.readBytes
  split
  · next none =>
    have nothing : c.unread = [] := by rw [unread, none]; simp
    refine ⟨c, by rw [nothing, List.take_nil], ?_⟩
    rw [nothing, List.length_nil, Nat.min_zero]
    exact sound.advanced_zero
  · have counted : Pbuf.totLen c.rxBuf - c.rxBufOffset = c.unread.length := by
      rw [unread, List.length_drop]
      rfl
    rw [counted]
    obtain ⟨c', looped, advanced⟩ :=
      sound.readLoop (Nat.le_refl _) (Nat.min_le_right size c.unread.length)
    refine ⟨c', ?_, advanced⟩
    rw [looped, ← List.take_eq_take_min]

/-- `peek()` shows the next byte. -/
theorem Sound.peek {c : ClientContext} (sound : c.Sound) :
    c.peek = some (c.unread.headD 0) := by
  unfold ClientContext.peek
  split
  · next none => rw [unread, none]; simp
  · next head next chain =>
    have inside : c.rxBufOffset < head.len := sound.inside head (by rw [chain]; rfl)
    rw [sound.unread_cons chain, List.drop_eq_getElem_cons inside]
    exact List.getElem?_eq_getElem inside

/-- `peekBytes` shows the next bytes, those of the head pbuf at most. -/
theorem Sound.peekBytes {c : ClientContext} (sound : c.Sound) (size : Nat) :
    ∃ n ≤ size, (0 < size → c.unread ≠ [] → 0 < n) ∧ c.peekBytes size = c.unread.take n := by
  unfold ClientContext.peekBytes
  split
  · next none =>
    refine ⟨0, Nat.zero_le _, ?_, rfl⟩
    intro _ some
    rw [unread, none] at some
    simp at some
  · next head next chain =>
    have inside : c.rxBufOffset < head.len := sound.inside head (by rw [chain]; rfl)
    have total : Pbuf.totLen (head :: next) = head.len + (Pbuf.bytes next).length := by
      rw [Pbuf.totLen, Pbuf.bytes_cons, List.length_append]
      rfl
    refine ⟨min (min size (Pbuf.totLen (head :: next) - c.rxBufOffset))
      (head.len - c.rxBufOffset), by omega, fun _ _ => by omega, ?_⟩
    rw [sound.unread_cons chain, List.take_append_of_le_length]
    rw [List.length_drop]
    exact Nat.min_le_right _ _

/-- `_recv` puts a chain behind what is there. -/
theorem Sound.recv {c : ClientContext} (sound : c.Sound) {pb : List (Pbuf Unit)}
    (single : Pbuf.Single pb) (filled : ∀ p ∈ pb, p.payload ≠ []) :
    (c.recv pb).Sound ∧ (c.recv pb).unread = c.unread ++ Pbuf.bytes pb ∧
      (c.recv pb).pcb = c.pcb ∧ (c.recv pb).recved = c.recved := by
  unfold ClientContext.recv
  split
  · next none =>
    refine ⟨⟨single, filled, ?_, fun _ => rfl⟩, ?_, rfl, rfl⟩
    · intro p first
      exact List.length_pos_of_ne_nil (filled p (List.mem_of_mem_head? first))
    · rw [unread, unread, none]
      simp
  · next there =>
    obtain ⟨head, next, chain⟩ := List.exists_cons_of_ne_nil there
    have inside : c.rxBufOffset < head.len := sound.inside head (by rw [chain]; rfl)
    refine ⟨⟨sound.single.append single, ?_, ?_, ?_⟩, ?_, rfl, rfl⟩
    · intro p member
      rcases List.mem_append.1 member with old | new
      · exact sound.filled p old
      · exact filled p new
    · intro p first
      exact sound.inside p (by simpa [Pbuf.cat, chain] using first)
    · intro none
      simp [Pbuf.cat, there] at none
    · have reach : c.rxBufOffset ≤ (Pbuf.bytes c.rxBuf).length := by
        rw [chain, Pbuf.bytes_cons, List.length_append]
        unfold Pbuf.len at inside
        omega
      rw [unread, unread, Pbuf.cat, Pbuf.bytes_append, List.drop_append_of_le_length reach]

/-- The connection may go at any time. -/
theorem Sound.pcb {c : ClientContext} (sound : c.Sound) (pcb : Bool) : Sound { c with pcb } :=
  ⟨sound.single, sound.filled, sound.inside, sound.rewound⟩

end ClientContext

namespace ClientLife

/-- The bytes received so far. -/
def stream (life : ClientLife) : List UInt8 := life.received.flatMap Segment.bytes

/-- What has been read ends where a received pbuf ends. -/
def Boundary (life : ClientLife) : Prop :=
  ∃ front back, life.received = front ++ back ∧ life.returned = front.flatMap Segment.bytes

/-- What every call keeps: the buffer holds the last of the received pbufs, and the credit
follows the bytes read. -/
structure Kept (life : ClientLife) : Prop where
  sound : life.context.Sound
  ordered : life.returned ++ life.context.unread = life.stream
  placed : life.context.rxBuf.map Pbuf.payload <:+ life.received.map Segment.bytes
  paid : life.context.pcb = true → life.context.recved = life.returned.length
  bounded : life.context.recved ≤ life.returned.length

theorem fresh_kept : fresh.Kept :=
  ⟨ClientContext.fresh_sound, rfl, List.nil_suffix, fun _ => rfl, Nat.le_refl _⟩

theorem bytes_chain (segments : List Segment) :
    Pbuf.bytes (chain segments) = segments.flatMap Segment.bytes := by
  induction segments with
  | nil => rfl
  | cons s rest ih => exact congrArg (s.bytes ++ ·) ih

theorem chain_single (segments : List Segment) : Pbuf.Single (chain segments) := by
  intro p member
  obtain ⟨s, -, rfl⟩ := List.mem_map.1 member
  rfl

theorem chain_filled (segments : List Segment) : ∀ p ∈ chain segments, p.payload ≠ [] := by
  intro p member
  obtain ⟨s, -, rfl⟩ := List.mem_map.1 member
  exact s.bytes_ne

theorem payload_chain (segments : List Segment) :
    (chain segments).map Pbuf.payload = segments.map Segment.bytes := by
  rw [chain, List.map_map]
  rfl

/-- A delivered chain is unread, behind what was unread before. -/
theorem Kept.recv {life : ClientLife} (kept : life.Kept) (segments : List Segment) :
    Kept { life with
      context := life.context.recv (chain segments)
      received := life.received ++ segments } := by
  obtain ⟨sound, unread, pcb, recved⟩ :=
    kept.sound.recv (chain_single segments) (chain_filled segments)
  refine ⟨sound, ?_, ?_, ?_, ?_⟩
  · simp only [stream, unread, List.flatMap_append, bytes_chain]
    rw [← List.append_assoc, kept.ordered]
    rfl
  · simp only [List.map_append, ← payload_chain segments]
    unfold ClientContext.recv
    split
    · exact List.suffix_append _ _
    · simp only [Pbuf.cat, List.map_append]
      obtain ⟨given, joined⟩ := kept.placed
      exact ⟨given, by rw [← List.append_assoc, joined]⟩
  · intro connected
    rw [recved]
    exact kept.paid (pcb ▸ connected)
  · rw [recved]
    exact kept.bounded

/-- Bytes read move from the buffer to the history, and are credited. -/
theorem Kept.advanced {life : ClientLife} (kept : life.Kept) {size : Nat}
    {context : ClientContext} {bytes : List UInt8}
    (advanced : ClientContext.Advanced size life.context context)
    (taken : bytes = life.context.unread.take size) (length : bytes.length = size) :
    Kept { life with context, returned := life.returned ++ bytes } := by
  refine ⟨advanced.sound, ?_, ?_, ?_, ?_⟩
  · rw [advanced.unread_eq, taken, List.append_assoc, List.take_append_drop]
    exact kept.ordered
  · exact (advanced.suffix.map _).trans kept.placed
  · intro connected
    have before : life.context.pcb = true := advanced.pcb_eq ▸ connected
    rw [advanced.recved_eq, kept.paid before, ClientContext.credited, if_pos before,
      List.length_append, length]
  · have credit : life.context.credited size ≤ size := by
      unfold ClientContext.credited
      split <;> omega
    have before := kept.bounded
    rw [advanced.recved_eq, List.length_append, length]
    omega

/-- The end of the connection leaves what was received to be read. -/
theorem Kept.disconnected {life : ClientLife} (kept : life.Kept) :
    Kept { life with context := { life.context with pcb := false } } :=
  ⟨kept.sound.pcb false, kept.ordered, kept.placed, fun connected => (nomatch connected),
    kept.bounded⟩

/-- Every call returns and keeps the stream in order. -/
theorem Kept.step {life : ClientLife} (kept : life.Kept) (call : ClientCall) :
    ∃ next, life.step call = some next ∧ next.Kept := by
  cases call with
  | recv head rest => exact ⟨_, rfl, kept.recv (head :: rest)⟩
  | recvClosed =>
    refine ⟨_, rfl, ?_⟩
    unfold ClientContext.recvClosed
    split
    · exact kept
    · exact kept.disconnected
  | error => exact ⟨_, rfl, kept.disconnected⟩
  | close => exact ⟨_, rfl, kept.disconnected⟩
  | read =>
    by_cases none : life.context.rxBuf = []
    · refine ⟨life, ?_, kept⟩
      simp [ClientLife.step, ClientContext.read, none]
    · obtain ⟨byte, context, done, taken, advanced⟩ := kept.sound.read none
      refine ⟨_, ?_, kept.advanced advanced taken.symm rfl⟩
      simp only [ClientLife.step, done, Option.map_some, none, if_false]
  | readBytes size =>
    obtain ⟨context, done, advanced⟩ := kept.sound.readBytes size
    refine ⟨_, ?_, kept.advanced advanced List.take_eq_take_min (List.length_take ..)⟩
    simp only [ClientLife.step, done, Option.map_some]
  | peek => exact ⟨life, by simp [ClientLife.step, kept.sound.peek], kept⟩
  | peekBytes size => exact ⟨life, rfl, kept⟩

theorem run_kept (calls : List ClientCall) :
    ∀ life : ClientLife, life.Kept → ∃ last, run calls life = some last ∧ last.Kept := by
  induction calls with
  | nil => intro life kept; exact ⟨life, rfl, kept⟩
  | cons call rest ih =>
    intro life kept
    obtain ⟨next, made, kept⟩ := kept.step call
    obtain ⟨last, ran, kept⟩ := ih next kept
    exact ⟨last, by rw [run, made, Option.bind_some, ran], kept⟩

/-- The bytes read are those of the pbufs given up, and of the head up to the offset. -/
theorem Kept.returned_eq {life : ClientLife} (kept : life.Kept) :
    ∃ front back, life.received = front ++ back ∧
      life.context.rxBuf.map Pbuf.payload = back.map Segment.bytes ∧
      life.returned =
        front.flatMap Segment.bytes ++ (Pbuf.bytes life.context.rxBuf).take
          life.context.rxBufOffset := by
  obtain ⟨given, joined⟩ := kept.placed
  obtain ⟨front, back, received, rfl, chain⟩ := List.map_eq_append_iff.1 joined.symm
  refine ⟨front, back, received, chain.symm, ?_⟩
  have rest : Pbuf.bytes life.context.rxBuf = back.flatMap Segment.bytes := by
    rw [Pbuf.bytes, List.flatMap_def, ← chain, ← List.flatMap_def]
  refine (List.append_left_inj life.context.unread).1 ?_
  calc life.returned ++ life.context.unread
      = front.flatMap Segment.bytes ++ Pbuf.bytes life.context.rxBuf := by
        rw [kept.ordered, stream, received, List.flatMap_append, rest]
    _ = _ := by rw [ClientContext.unread, List.append_assoc, List.take_append_drop]

/-- The offset is zero where the bytes read end with a pbuf. -/
theorem Kept.boundary_iff {life : ClientLife} (kept : life.Kept) :
    life.Boundary ↔ life.context.rxBufOffset = 0 := by
  obtain ⟨front, back, received, chain, returned⟩ := kept.returned_eq
  constructor
  · rintro ⟨front', back', received', returned'⟩
    by_contra started
    have some : life.context.rxBuf ≠ [] := fun none => started (kept.sound.rewound none)
    obtain ⟨head, next, buffer⟩ := List.exists_cons_of_ne_nil some
    have inside : life.context.rxBufOffset < head.len :=
      kept.sound.inside head (by rw [buffer]; rfl)
    rw [buffer, List.map_cons] at chain
    obtain ⟨s, rest, rfl, held, -⟩ := List.map_eq_cons_iff.1 chain.symm
    have length : (front'.flatMap Segment.bytes).length =
        (front.flatMap Segment.bytes).length + life.context.rxBufOffset := by
      rw [← returned', returned, List.length_append, List.length_take, buffer, Pbuf.bytes_cons,
        List.length_append]
      unfold Pbuf.len at inside
      omega
    have size : s.bytes.length = head.len := by rw [held]; rfl
    -- the other cut lies in front of the head pbuf, or behind all of it
    rcases List.append_eq_append_iff.1 (received'.symm.trans received) with
      ⟨between, rfl, -⟩ | ⟨between, rfl, tail⟩
    · rw [List.flatMap_append, List.length_append] at length
      omega
    · cases between with
      | nil =>
        rw [List.append_nil] at length
        omega
      | cons t more =>
        rw [List.cons_append, List.cons.injEq] at tail
        rw [List.flatMap_append, List.flatMap_cons, ← tail.1, List.length_append,
          List.length_append, size] at length
        omega
  · intro rewound
    exact ⟨front, back, received, by rw [returned, rewound, List.take_zero, List.append_nil]⟩

/-- The credit given by the time that the context has discarded what it holds. -/
def credit (life : ClientLife) : Nat := life.context.discardReceived.recved

theorem Kept.credit_eq {life : ClientLife} (kept : life.Kept) :
    life.credit = life.context.recved +
      life.context.credited (life.context.unread.length + life.context.rxBufOffset) := by
  unfold credit ClientContext.discardReceived
  split
  · next none =>
    rw [ClientContext.unread, none, kept.sound.rewound none]
    unfold ClientContext.credited
    split <;> rfl
  · next some =>
    obtain ⟨head, next, buffer⟩ := List.exists_cons_of_ne_nil some
    have inside : life.context.rxBufOffset < head.len :=
      kept.sound.inside head (by rw [buffer]; rfl)
    have total : Pbuf.totLen life.context.rxBuf =
        life.context.unread.length + life.context.rxBufOffset := by
      rw [ClientContext.unread, List.length_drop, Pbuf.totLen, buffer, Pbuf.bytes_cons,
        List.length_append]
      unfold Pbuf.len at inside
      omega
    rw [← total]
    exact ClientContext.credit_recved _ _

/-- The credit of the whole life exceeds what was received when the connection is still there
and the head pbuf is partly read. -/
theorem Kept.credit_le_iff {life : ClientLife} (kept : life.Kept) :
    life.credit ≤ life.stream.length ↔ life.context.pcb = false ∨ life.Boundary := by
  have parts : life.returned.length + life.context.unread.length = life.stream.length := by
    rw [← kept.ordered, List.length_append]
  rw [kept.credit_eq, kept.boundary_iff]
  unfold ClientContext.credited
  cases connected : life.context.pcb with
  | false =>
    have bounded := kept.bounded
    simp
    omega
  | true =>
    have paid := kept.paid connected
    simp
    omega

/-- What the caller of a live context sees: the bytes returned are the first of the stream, and
`getSize` counts and `peek` shows the next. -/
structure Delivers (life : ClientLife) : Prop where
  ordered : life.returned <+: life.stream
  counted : life.returned.length + life.context.getSize = life.stream.length
  inside : ∀ head ∈ life.context.rxBuf.head?, life.context.rxBufOffset < head.len
  shown : life.context.peek = some ((life.stream.drop life.returned.length).headD 0)
  shownBytes : ∀ size, ∃ n ≤ size,
    (0 < size → life.stream.drop life.returned.length ≠ [] → 0 < n) ∧
      life.context.peekBytes size = (life.stream.drop life.returned.length).take n
  credited : life.context.recved ≤ life.stream.length

theorem Kept.delivers {life : ClientLife} (kept : life.Kept) : life.Delivers := by
  have next : life.stream.drop life.returned.length = life.context.unread := by
    rw [← kept.ordered, List.drop_left]
  have parts : life.returned.length + life.context.unread.length = life.stream.length := by
    rw [← kept.ordered, List.length_append]
  have bounded := kept.bounded
  refine ⟨⟨_, kept.ordered⟩, ?_, kept.sound.inside, ?_, ?_, by omega⟩
  · rw [ClientContext.getSize_eq, parts]
  · rw [next]
    exact kept.sound.peek
  · intro size
    rw [next]
    exact kept.sound.peekBytes size

/-- In every life all calls return and deliver the stream. The credit of the whole life, with
`discard_received` at its end, stays within what was received if and only if the connection is
gone by then or what was read ends where a received pbuf ends. -/
theorem stream_delivered (calls : List ClientCall) :
    ∃ life, run calls fresh = some life ∧ life.Delivers ∧
      (life.credit ≤ life.stream.length ↔ life.context.pcb = false ∨ life.Boundary) := by
  obtain ⟨life, ran, kept⟩ := run_kept calls fresh fresh_kept
  exact ⟨life, ran, kept.delivers, kept.credit_le_iff⟩

/-- Two bytes arrive in one pbuf and one is read: three bytes are credited. -/
theorem discard_credits_twice :
    ∃ life, run [.recv ⟨[1, 2], by decide⟩ [], .read] fresh = some life ∧
      life.stream.length = 2 ∧ life.credit = 3 :=
  ⟨_, rfl, rfl, rfl⟩

end ClientLife
end Esp8266.Source
