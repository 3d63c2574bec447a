import Esp8266.Guarantees.SerialDecoding

/-!
# What one `SoftwareSerial` writes, another one reads

The receiver's pin changes when the sender's does, within a part of a bit, and the program asks the
receiver whatever it likes in between. As long as no change is lost and no stretch is left undecoded
until it is too long to count, the bytes read are those written, each with its parity bit.
-/
set_option autoImplicit false

namespace Esp8266.Source.SoftwareSerial
open Esp8266.Lib Esp8266.Lib.Word32 CircularQueue

variable {s c : SoftwareSerial} {capacity slack : Nat} {par : Bool} {l : Pairs}
  {seen : Option Stretch} {unread rest : List Stretch}

/-! ## The receiver and the line -/

/-- How the receiver stands to the line: the stretch that it is in, the changes that it has
recorded, and those that are yet to come. -/
structure Linked (c : SoftwareSerial) (slack capacity : Nat) (par : Bool) (s : SoftwareSerial)
    (l : Pairs) (seen : Option Stretch) (unread rest : List Stretch) : Prop where
  same : s.setup = c.setup
  received : Received capacity par s l
  told : l.missed = false
  decoding : Decoding s seen
  recorded : s.isrBuffer.contents = unread.map (Stretch.stamp c)
  fits : ∀ a ∈ seen, a.piece.Fits c
  joined : Joined c (seen.map (·.piece)) ((unread ++ rest).map (·.piece))
  timed : (seen.toList ++ unread ++ rest).IsChain fun a b => Timed slack (a.change c) (b.change c)
  counted : (seen.toList ++ unread).IsChain fun a b =>
    a.piece.span.last = true → Countable c a b

theorem isChain_getLast? {α : Type*} {r : α → α → Prop} {xs ys : List α}
    (chain : (xs ++ ys).IsChain r) : (xs.getLast?.toList ++ ys).IsChain r := by
  rcases xs.eq_nil_or_concat with rfl | ⟨front, last, rfl⟩
  · exact chain
  · rw [List.concat_eq_append, List.append_assoc] at chain
    rw [List.concat_eq_append, List.getLast?_append_of_ne_nil _ (List.cons_ne_nil last [])]
    exact chain.right_of_append

theorem Pairs.fill_told (told : l.missed = false) (new : List (UInt8 × Bool)) :
    l.fill capacity new = l.add capacity new := by
  obtain ⟨held, lost, missed⟩ := l
  cases told
  simp [fill]

theorem Linked.poll_recorded (configured : Configured c) (slow : 2 * slack + 5 ≤ c.bitCycles)
    (linked : Linked c slack capacity par s l seen unread rest) (some : unread ≠ []) (now : Nat) :
    ∃ new seen', due c seen ++ starts c (unread.map (·.piece)) = new ++ due c seen' ∧
      Linked c slack capacity par (s.rxBits now) (l.fill capacity new) seen' [] rest ∧
      seen' = (seen.toList ++ unread).getLast? := by
  have polled := rxBits_eq linked.received linked.told now
  have nonempty : s.isrBuffer.contents ≠ [] := by
    rw [linked.recorded]
    exact fun none => some (List.map_eq_nil_iff.1 none)
  rw [if_neg nonempty, linked.recorded] at polled
  obtain ⟨new, seen', split, received, decoding, fits, joined, last⟩ := decode_all configured slow
    unread s.taken l seen linked.same linked.received.taken (linked.decoding.recorded _) linked.fits
    linked.joined linked.timed.left_of_append linked.counted
  rw [← polled] at received decoding
  have emptied : (s.rxBits now).isrBuffer = s.isrBuffer.flush := by
    rw [polled, foldl_isrBuffer]
    rfl
  refine ⟨new, seen', split, ⟨(rxBits_setup now s).trans linked.same, ?_, ?_, decoding, ?_, fits,
    joined, ?_, ?_⟩, last⟩
  · rw [Pairs.fill_told linked.told]
    exact received
  · rfl
  · rw [emptied]
    exact (flush_eq linked.received.isr).2
  · rw [last, List.append_nil]
    exact isChain_getLast? linked.timed
  · cases seen' <;> simp

theorem elapsed_near {time now : Nat} (level : Bool) (late : time < now) :
    sub32 (now % 2 ^ 32) (stamp (time % 2 ^ 32) level) ≤ now - time + 1 ∧
      (now + 2 < time + 2 ^ 32 →
        now ≤ time + sub32 (now % 2 ^ 32) (stamp (time % 2 ^ 32) level) + 1) := by
  rw [stamp_eq]
  unfold sub32
  split <;> omega

/-- No stop bit is made up within a word that is still being sent. -/
theorem Linked.last_of_elapsed (configured : Configured c) (slow : 2 * slack + 5 ≤ c.bitCycles)
    {a : Stretch} (linked : Linked c slack capacity par s l (some a) [] rest) {time : Nat}
    (late : a.time < time) (early : ∀ b ∈ rest.head?, time ≤ b.time)
    (begun : 1 ≤ a.piece.span.before) (before : a.piece.span.before ≤ s.bodyBits)
    (elapsed : s.detectionCycles < sub32 (time % 2 ^ 32) s.isrLastCycle) :
    a.piece.span.last = true := by
  cases final : a.piece.span.last with
  | true => rfl
  | false =>
    have joined := linked.joined
    have timed := linked.timed
    cases rest with
    | nil => exact (final.symm.trans (joined a.piece rfl))
    | cons b rest =>
      have bitCycles := (setup_fields linked.same).2.2.2.2.1
      have room := (linked.fits a rfl).inner final
      have body := bodyBits_congr linked.same
      have next := early b rfl
      obtain ⟨-, most⟩ := (List.isChain_cons_cons.1 timed).1
      simp only [Stretch.change, period, final, Bool.not_false, forall_const] at most
      rw [detectionCycles_eq (configured.congr linked.same) linked.decoding begun before,
        linked.decoding.2, bitCycles] at elapsed
      have short := (elapsed_near (a.change s).2.level late).1
      have reach : (a.piece.span.bits + 1) * c.bitCycles ≤
          (s.bodyBits + 1 - a.piece.span.before) * c.bitCycles :=
        Nat.mul_le_mul_right _ (by omega)
      rw [Nat.succ_mul] at reach
      change _ < sub32 (time % 2 ^ 32) (SoftwareSerial.stamp (a.time % 2 ^ 32) (a.change s).2.level)
        at elapsed
      omega

/-- A poll with no changes recorded may end the word of the last one. -/
theorem Linked.poll_quiet (configured : Configured c) (slow : 2 * slack + 5 ≤ c.bitCycles)
    (linked : Linked c slack capacity par s l seen [] rest) {time : Nat}
    (late : ∀ a ∈ seen, a.time < time) (early : ∀ b ∈ rest.head?, time ≤ b.time) :
    ∃ new seen', due c seen = new ++ due c seen' ∧
      Linked c slack capacity par (s.rxBits (time % 2 ^ 32)) (l.fill capacity new) seen' [] rest ∧
      (seen' = seen ∨ seen' = none) ∧
      (rest = [] → (∀ a ∈ seen, a.time + 11 * c.bitCycles < time ∧ time + 2 < a.time + 2 ^ 32) →
        seen' = none) := by
  have configured' := configured.congr linked.same
  have fits' : ∀ a ∈ seen, a.piece.Fits s := fun a here => (linked.fits a here).congr linked.same
  have before_stop := linked.decoding.before_stop configured' fits'
  have polled := rxBits_eq linked.received linked.told (time % 2 ^ 32)
  rw [if_pos (by rw [linked.recorded, List.map_nil])] at polled
  by_cases elapsed : s.rxCurBit ≥ -1 ∧ s.rxCurBit < s.pduBits - s.stopBits ∧
      s.detectionCycles < sub32 (time % 2 ^ 32) s.isrLastCycle
  · rw [if_pos elapsed] at polled
    obtain ⟨a, rfl, begun, before⟩ := before_stop.1 ⟨elapsed.1, elapsed.2.1⟩
    have final := linked.last_of_elapsed configured slow (late a rfl) early begun before elapsed.2.2
    obtain ⟨received, decoding⟩ :=
      decode_stop configured' linked.received linked.decoding (fits' a rfl) final
    rw [a.piece.pair_congr linked.same] at received
    have joined : Joined c none (rest.map (·.piece)) := by
      have joined := linked.joined
      cases rest with
      | nil =>
        rintro _ ⟨⟩
      | cons b rest =>
        obtain ⟨continues, after⟩ := joined
        have begins : a.piece.Next b.piece := continues
        rw [Piece.Next, final, if_pos rfl] at begins
        exact ⟨begins, after⟩
    refine ⟨[a.piece.pair c], none, rfl, ⟨(rxBits_setup _ s).trans linked.same, ?_, rfl, ?_, ?_,
      by rintro _ ⟨⟩, joined, linked.timed.tail, List.isChain_nil⟩, .inr rfl,
      fun _ _ => rfl⟩
    · rw [polled, Pairs.fill_told linked.told]
      exact received.taken
    · rw [polled]
      exact decoding.recorded _
    · rw [polled, SoftwareSerial.taken, rxBitsAt_isrBuffer]
      exact (flush_eq linked.received.isr).2
  · rw [if_neg elapsed] at polled
    refine ⟨[], seen, rfl, ⟨(rxBits_setup _ s).trans linked.same, ?_, rfl, ?_, ?_, linked.fits,
      linked.joined, linked.timed, linked.counted⟩, .inl rfl, ?_⟩
    · rw [polled, Pairs.fill_told linked.told, Pairs.add_nil linked.received.length_le]
      exact linked.received.taken
    · rw [polled]
      exact (linked.decoding.recorded _)
    · rw [polled]
      exact (flush_eq linked.received.isr).2
    · intro done window
      cases seen with
      | none => rfl
      | some a =>
        subst done
        have final : a.piece.span.last = true := linked.joined a.piece rfl
        obtain ⟨-, begun, before, -⟩ := (fits' a rfl).final final
        have inside := before_stop.2 ⟨a, rfl, begun, before⟩
        have bitCycles := (setup_fields linked.same).2.2.2.2.1
        have body := configured'.body_le
        have short := configured.slow
        have few : (s.bodyBits + 1 - a.piece.span.before) * c.bitCycles ≤ 10 * c.bitCycles :=
          Nat.mul_le_mul_right _ (by omega)
        obtain ⟨after, bound⟩ := window a rfl
        have long := (elapsed_near (a.change s).2.level (late a rfl)).2 bound
        refine absurd ⟨inside.1, inside.2, ?_⟩ elapsed
        rw [detectionCycles_eq configured' linked.decoding begun before, linked.decoding.2,
          bitCycles]
        change _ < sub32 (time % 2 ^ 32)
          (SoftwareSerial.stamp (a.time % 2 ^ 32) (a.change s).2.level)
        omega

/-- A poll decodes what was recorded, or may end the word of the last change. -/
theorem Linked.poll (configured : Configured c) (slow : 2 * slack + 5 ≤ c.bitCycles)
    (linked : Linked c slack capacity par s l seen unread rest) {time : Nat}
    (late : ∀ a ∈ (seen.toList ++ unread).getLast?, a.time < time)
    (early : ∀ b ∈ rest.head?, time ≤ b.time) :
    ∃ new seen', due c seen ++ starts c (unread.map (·.piece)) = new ++ due c seen' ∧
      Linked c slack capacity par (s.rxBits (time % 2 ^ 32)) (l.fill capacity new) seen' [] rest ∧
      (seen' = (seen.toList ++ unread).getLast? ∨ seen' = none) := by
  cases unread with
  | nil =>
    have last : (seen.toList ++ []).getLast? = seen := by cases seen <;> rfl
    rw [last] at late ⊢
    obtain ⟨new, seen', split, linked', same, -⟩ := linked.poll_quiet configured slow late early
    refine ⟨new, seen', ?_, linked', same⟩
    rw [← split, List.map_nil, starts, List.filter_nil, List.map_nil, List.append_nil]
  | cons b unread =>
    obtain ⟨new, seen', split, linked', same⟩ :=
      linked.poll_recorded configured slow (List.cons_ne_nil b unread) (time % 2 ^ 32)
    exact ⟨new, seen', split, linked', .inl same⟩

/-- Two receivers that are at the same place of the line. -/
structure Alike (s' s : SoftwareSerial) : Prop where
  setup : s'.setup = s.setup
  curBit : s'.rxCurBit = s.rxCurBit
  curByte : s'.rxCurByte = s.rxCurByte
  curParity : s'.rxCurParity = s.rxCurParity
  lastCycle : s'.isrLastCycle = s.isrLastCycle
  isrBuffer : s'.isrBuffer = s.isrBuffer
  isrOverflow : s'.isrOverflow = s.isrOverflow

variable {s' : SoftwareSerial}

theorem Standing.alike {data k : Nat} {parity : Bool} (standing : Standing data parity k s)
    (alike : Alike s' s) : Standing data parity k s' := by
  obtain ⟨place, byte, kept⟩ := standing
  have dataBits := (setup_fields alike.setup).2.1
  refine ⟨?_, fun i => ?_, ?_⟩
  · rw [pduBits_congr alike.setup, alike.curBit]
    exact place
  · rw [alike.curByte, dataBits]
    exact byte i
  · rw [alike.curParity, dataBits]
    exact kept

theorem Decoding.alike (decoding : Decoding s seen) (alike : Alike s' s) : Decoding s' seen := by
  cases seen with
  | none =>
    refine ⟨decoding.1.alike alike, ?_⟩
    rw [alike.lastCycle, (setup_fields alike.setup).1]
    exact decoding.2
  | some a =>
    refine ⟨decoding.1.alike alike, ?_⟩
    rw [alike.lastCycle, a.stamp_congr alike.setup]
    exact decoding.2

theorem Linked.alike {l' : Pairs} (linked : Linked c slack capacity par s l seen unread rest)
    (alike : Alike s' s) (received : Received capacity par s' l') :
    Linked c slack capacity par s' l' seen unread rest where
  same := alike.setup.trans linked.same
  received := received
  told := by
    rw [← received.missed, alike.isrOverflow, linked.received.missed]
    exact linked.told
  decoding := linked.decoding.alike alike
  recorded := by
    rw [alike.isrBuffer]
    exact linked.recorded
  fits := linked.fits
  joined := linked.joined
  timed := linked.timed
  counted := linked.counted

/-- What a program asks of its receiver. -/
inductive Request where
  | available
  | read
  | readN (size : Nat)
  | peek
  | flush
  | overflow
  deriving DecidableEq, Repr

def Request.call (now : Nat) : Request → Call
  | .available => .available now
  | .read => .read now
  | .readN size => .readN now size
  | .peek => .peek now
  | .flush => .flush
  | .overflow => .overflow

/-- What a program asks moves the receiver along the line only where it polls. -/
theorem call_alike (valid : s.rxValid = true) (request : Request) (now : Nat) :
    Alike (call (request.call now) s).2 (polled (request.call now) s) := by
  cases request with
  | available =>
    have asked : (call (Request.available.call now) s).2 = s.rxBits now := by
      simp [Request.call, SoftwareSerial.call, SoftwareSerial.available, valid]
    rw [asked]
    exact ⟨rfl, rfl, rfl, rfl, rfl, rfl, rfl⟩
  | read =>
    simp only [Request.call, SoftwareSerial.call, SoftwareSerial.read, polled, valid,
      Bool.not_true, Bool.false_eq_true, if_false]
    split
    · exact ⟨rfl, rfl, rfl, rfl, rfl, rfl, rfl⟩
    · split
      · exact ⟨rfl, rfl, rfl, rfl, rfl, rfl, rfl⟩
      · split <;> exact ⟨rfl, rfl, rfl, rfl, rfl, rfl, rfl⟩
  | readN size =>
    have popped : ∀ t : SoftwareSerial, Alike (t.popBytes size).2 t :=
      fun _ => ⟨rfl, rfl, rfl, rfl, rfl, rfl, rfl⟩
    have parity : ∀ (n : Nat) (t : SoftwareSerial), Alike (t.popParity n) t := by
      intro n t
      unfold popParity
      split <;> exact ⟨rfl, rfl, rfl, rfl, rfl, rfl, rfl⟩
    have trans : ∀ {a b d : SoftwareSerial}, Alike a b → Alike b d → Alike a d :=
      fun x y => ⟨x.1.trans y.1, x.2.trans y.2, x.3.trans y.3, x.4.trans y.4, x.5.trans y.5,
        x.6.trans y.6, x.7.trans y.7⟩
    simp only [Request.call, SoftwareSerial.call, SoftwareSerial.readN, polled, valid,
      Bool.not_true, Bool.false_eq_true, if_false]
    by_cases none : (s.popBytes size).1 = []
    · simp only [none, if_true]
      split
      · exact popped _
      · exact trans (parity _ _) (popped _)
    · simp only [none, if_false]
      exact trans (parity _ _) (popped _)
  | peek =>
    simp only [Request.call, SoftwareSerial.call, SoftwareSerial.peek, polled, valid,
      Bool.not_true, Bool.false_eq_true, if_false]
    split
    · exact ⟨rfl, rfl, rfl, rfl, rfl, rfl, rfl⟩
    · split <;> exact ⟨rfl, rfl, rfl, rfl, rfl, rfl, rfl⟩
  | flush =>
    simp only [Request.call, SoftwareSerial.call, SoftwareSerial.flush, polled, valid,
      Bool.not_true, Bool.false_eq_true, if_false]
    split <;> exact ⟨rfl, rfl, rfl, rfl, rfl, rfl, rfl⟩
  | overflow => exact ⟨rfl, rfl, rfl, rfl, rfl, rfl, rfl⟩

theorem Linked.answered {new : List (UInt8 × Bool)} {seen' : Option Stretch} {now : Nat}
    (linked : Linked c slack capacity par s l seen unread rest) (request : Request)
    (polls : Pairs.polls (request.call now) l.held = true)
    (linked' : Linked c slack capacity par (s.rxBits now) (l.fill capacity new) seen' [] rest) :
    ∃ l', Pairs.Step capacity par new (request.call now) (call (request.call now) s).1 l l' ∧
      Linked c slack capacity par (call (request.call now) s).2 l' seen' [] rest := by
  have ready := linked.received.polled_eq (request.call now)
  have alike := call_alike linked.received.valid request now
  have at_now : (request.call now).now = now := by
    cases request <;> first | rfl | exact absurd polls Bool.false_ne_true
  rw [if_pos polls, at_now] at ready
  rw [ready] at alike
  obtain ⟨l', stepped, received⟩ := linked.received.step (request.call now) new (by
    rw [if_pos polls, at_now]
    exact linked'.received)
  exact ⟨l', stepped, linked'.alike alike received⟩

/-- Whatever a program asks, and whenever it does, it gets what was sent, in order. -/
theorem Linked.asked (configured : Configured c) (slow : 2 * slack + 5 ≤ c.bitCycles)
    (linked : Linked c slack capacity par s l seen unread rest) (request : Request) {time : Nat}
    (late : ∀ a ∈ (seen.toList ++ unread).getLast?, a.time < time)
    (early : ∀ b ∈ rest.head?, time ≤ b.time) :
    ∃ new seen' unread' l', due c seen ++ starts c (unread.map (·.piece)) =
        new ++ (due c seen' ++ starts c (unread'.map (·.piece))) ∧
      Pairs.Step capacity par new (request.call (time % 2 ^ 32))
        (call (request.call (time % 2 ^ 32)) s).1 l l' ∧
      Linked c slack capacity par (call (request.call (time % 2 ^ 32)) s).2 l' seen' unread' rest ∧
      ∀ a ∈ (seen'.toList ++ unread').getLast?, a ∈ (seen.toList ++ unread).getLast? := by
  by_cases polls : Pairs.polls (request.call (time % 2 ^ 32)) l.held = true
  · obtain ⟨new, seen', split, linked', last⟩ := linked.poll configured slow late early
    obtain ⟨l', stepped, after⟩ := linked.answered request polls linked'
    refine ⟨new, seen', [], l', ?_, stepped, after, ?_⟩
    · rw [split, List.map_nil, starts, List.filter_nil, List.map_nil, List.append_nil]
    · intro a here
      rcases last with same | none
      · cases seen' with
        | none => cases here
        | some b =>
          rw [← same]
          exact here
      · rw [none] at here
        cases here
  · have ready := linked.received.polled_eq (request.call (time % 2 ^ 32))
    have alike := call_alike linked.received.valid request (time % 2 ^ 32)
    rw [if_neg polls] at ready
    rw [ready] at alike
    obtain ⟨l', stepped, received⟩ := linked.received.step (request.call (time % 2 ^ 32)) [] (by
      rw [if_neg polls])
    exact ⟨[], seen, unread, l', rfl, stepped, linked.alike alike received, fun a here => here⟩

/-! ## Runs -/

/-- A receiver, with the time of the last change of its pin and the changes that are yet to come. -/
structure Receiver where
  serial : SoftwareSerial
  last : Option Nat
  changes : List (Nat × Bool)

/-- The pin changes, or a program asks something at a time. -/
inductive Event where
  | change
  | asked (time : Nat) (request : Request)
  deriving DecidableEq, Repr

namespace Receiver

def step : Event → Receiver → Reply × Receiver
  | .change, r =>
    match r.changes with
    | [] => (.none, r)
    | (time, level) :: rest =>
      let (reply, serial) := call (.edge (time % 2 ^ 32) level) r.serial
      (reply, ⟨serial, some time, rest⟩)
  | .asked time request, r =>
    let (reply, serial) := call (request.call (time % 2 ^ 32)) r.serial
    (reply, { r with serial })

/-- The receiver has decoded what it has recorded, and waits for a start bit. -/
def Waits (s : SoftwareSerial) : Prop :=
  s.isrBuffer.contents = [] ∧ s.rxCurBit ≥ s.pduBits - 1

instance (s : SoftwareSerial) : Decidable (Waits s) := inferInstanceAs (Decidable (_ ∧ _))

/-- A change comes while there is room for its record, and before more bits have passed than can be
counted, unless the receiver waits. A program asks between two changes. -/
def Timely : Event → Receiver → Prop
  | .change, r => r.serial.isrBuffer.contents.length + 1 < r.serial.isrBuffer.bufSize ∧
      (Waits r.serial ∨ ∀ last ∈ r.last, ∀ next ∈ r.changes.head?,
        next.1 ≤ last + 255 * r.serial.bitCycles)
  | .asked time _, r => (∀ last ∈ r.last, last < time) ∧ ∀ next ∈ r.changes.head?, time ≤ next.1

instance : ∀ (event : Event) (r : Receiver), Decidable (Timely event r)
  | .change, _ => inferInstanceAs (Decidable (_ ∧ (_ ∨ _)))
  | .asked _ _, _ => inferInstanceAs (Decidable (_ ∧ _))

end Receiver

/-- What a receiver answers, and what it leaves of what was sent and has not been decoded yet. -/
def Delivers (capacity : Nat) (par : Bool) (event : Event) (reply : Reply)
    (a b : Pairs × List (UInt8 × Bool)) : Prop :=
  match event with
  | .change => reply = .none ∧ b = a
  | .asked time request => ∃ new, a.2 = new ++ b.2 ∧
      Pairs.Step capacity par new (request.call (time % 2 ^ 32)) reply a.1 b.1

/-- A receiver and the pairs that it and the rest of the line stand for. -/
def Stands (c : SoftwareSerial) (slack capacity : Nat) (par : Bool) (r : Receiver)
    (a : Pairs × List (UInt8 × Bool)) : Prop :=
  ∃ seen unread rest, Linked c slack capacity par r.serial a.1 seen unread rest ∧
    r.changes = rest.map (fun b => (b.time, (b.change c).2.level)) ∧
    (∀ b ∈ (seen.toList ++ unread).getLast?, r.last = some b.time) ∧
    a.2 = due c seen ++ starts c ((unread ++ rest).map (·.piece))

theorem Linked.change (configured : Configured c) {b : Stretch} {last : Option Nat}
    (linked : Linked c slack capacity par s l seen unread (b :: rest))
    (room : s.isrBuffer.contents.length + 1 < s.isrBuffer.bufSize)
    (lastTime : ∀ a ∈ (seen.toList ++ unread).getLast?, last = some a.time)
    (countable : Receiver.Waits s ∨ ∀ time ∈ last, b.time ≤ time + 255 * s.bitCycles) :
    Linked c slack capacity par (s.rxBitISR (b.time % 2 ^ 32) (b.change c).2.level) l seen
      (unread ++ [b]) rest := by
  obtain ⟨stored, -, sound, contents⟩ := push_room linked.received.isr room (b.stamp c)
  have isrOverflow : (s.isrOverflow || !(s.isrBuffer.push (b.stamp c)).1) = s.isrOverflow := by
    rw [stored, Bool.not_true, Bool.or_false]
  have recorded : s.rxBitISR (b.time % 2 ^ 32) (b.change c).2.level =
      { s with isrBuffer := (s.isrBuffer.push (b.stamp c)).2
               isrOverflow := s.isrOverflow || !(s.isrBuffer.push (b.stamp c)).1 } := rfl
  rw [recorded, isrOverflow]
  have order : unread ++ [b] ++ rest = unread ++ b :: rest := by
    rw [List.append_assoc, List.singleton_append]
  have fits' : ∀ a ∈ seen, a.piece.Fits s := fun a here => (linked.fits a here).congr linked.same
  have configured' := configured.congr linked.same
  have received := linked.received
  refine ⟨linked.same, ⟨received.valid, received.size, received.mode, sound, received.holds,
    received.lost, received.missed⟩, linked.told, linked.decoding.recorded _, ?_, linked.fits, ?_,
    ?_, ?_⟩
  · rw [List.map_append, ← linked.recorded]
    exact contents
  · rw [order]
    exact linked.joined
  · rw [List.append_assoc, order, ← List.append_assoc]
    exact linked.timed
  · rw [← List.append_assoc]
    refine List.isChain_append.2 ⟨linked.counted, List.isChain_singleton b, ?_⟩
    rintro a here _ ⟨⟩ final
    rcases countable with ⟨empty, waits⟩ | soon
    · rw [linked.recorded, List.map_eq_nil_iff] at empty
      subst empty
      have only : seen = some a := by
        cases seen with
        | none => cases here
        | some a' => simpa using here
      have stop := configured'.stop
      obtain ⟨-, begun, before, -⟩ := (fits' a only).final final
      have inside := (linked.decoding.before_stop configured' fits').2 ⟨a, only, begun, before⟩
      omega
    · have bitCycles := (setup_fields linked.same).2.2.2.2.1
      rw [Countable, ← bitCycles]
      exact soon a.time (lastTime a here)

theorem Stands.step (configured : Configured c) (slow : 2 * slack + 5 ≤ c.bitCycles) (event : Event)
    (r : Receiver) (a : Pairs × List (UInt8 × Bool)) (timely : Receiver.Timely event r)
    (stands : Stands c slack capacity par r a) :
    ∃ b, Delivers capacity par event (r.step event).1 a b ∧
      Stands c slack capacity par (r.step event).2 b := by
  obtain ⟨serial, last, changes⟩ := r
  obtain ⟨seen, unread, rest, linked, line, lastTime, coming⟩ := stands
  dsimp only at linked line lastTime
  cases event with
  | change =>
    cases rest with
    | nil =>
      rw [List.map_nil] at line
      subst line
      exact ⟨a, ⟨rfl, rfl⟩, seen, unread, [], linked, rfl, lastTime, coming⟩
    | cons b rest =>
      rw [List.map_cons] at line
      subst line
      obtain ⟨room, countable⟩ := timely
      have recorded := linked.change configured room lastTime
        (countable.imp_right fun soon time here => soon time here _ rfl)
      refine ⟨a, ⟨rfl, rfl⟩, seen, unread ++ [b], rest, recorded, rfl, ?_, ?_⟩
      · rw [← List.append_assoc, List.getLast?_append_of_ne_nil _ (List.cons_ne_nil b [])]
        rintro _ ⟨⟩
        rfl
      · rw [List.append_assoc, List.singleton_append]
        exact coming
  | asked time request =>
    obtain ⟨after, before⟩ := timely
    have late : ∀ b ∈ (seen.toList ++ unread).getLast?, b.time < time :=
      fun b here => after b.time (lastTime b here)
    have early : ∀ b ∈ rest.head?, time ≤ b.time := by
      intro b here
      apply before (b.time, (b.change c).2.level)
      rw [line, List.head?_map, Option.mem_def.1 here]
      rfl
    obtain ⟨new, seen', unread', l', split, stepped, linked', same⟩ :=
      linked.asked configured slow request late early
    refine ⟨(l', due c seen' ++ starts c ((unread' ++ rest).map (·.piece))), ⟨new, ?_, stepped⟩,
      seen', unread', rest, linked', line, fun b here => lastTime b (same b here), rfl⟩
    rw [coming, List.map_append, starts_append, ← List.append_assoc, split, List.map_append,
      starts_append, List.append_assoc, List.append_assoc]

/-! ## Words on the line -/

variable {data : Nat} {parity : Bool}

/-- The stretches of a word follow one another, and what comes after the word follows them. -/
theorem joined_spansFrom (configured : Configured c) (fits : data < 2 ^ c.dataBits)
    {rest : List Piece} (after : ∀ a : Piece, a.span.last = true → Joined c (some a) rest)
    (n : Nat) :
    ∀ (seen : Option Piece) (before count : Nat) (level : Bool), 1 ≤ count →
      before + count + n = c.pduBits + 1 →
      (∀ i, before ≤ i → i < before + count → wordBit data parity c i = level) →
      (before = 0 ∨ wordBit data parity c (before - 1) ≠ level) →
      (∀ count level last, Continues seen ⟨data, parity, ⟨before, count, level, last⟩⟩) →
      Joined c seen ((spansFrom before count level
        ((List.range' (before + count) n).map (wordBit data parity c))).map
          (Piece.mk data parity) ++ rest) := by
  have total := pduBits_eq c
  have stop := configured.stop
  induction n with
  | zero =>
    intro seen before count level some all equal starts continues
    have high : level = true := by
      rw [← equal c.pduBits (by omega) (by omega)]
      exact wordBit_stop (by omega)
    refine ⟨continues _ _ _, ⟨fits, equal, some, by rintro ⟨⟩, fun _ => ⟨high, ?_, ?_, ?_⟩⟩,
      after _ rfl⟩
    · show 1 ≤ before
      by_contra none
      have start : wordBit data parity c 0 = level := equal 0 (by omega) (by omega)
      rw [high, wordBit, if_pos rfl] at start
      exact absurd start Bool.false_ne_true
    · show before ≤ c.bodyBits
      by_contra behind
      rcases starts with none | other
      · omega
      · have before_high : wordBit data parity c (before - 1) = true := wordBit_stop (by omega)
        exact other (before_high.trans high.symm)
    · show c.bodyBits < before + count
      omega
  | succ n ih =>
    intro seen before count level some all equal starts continues
    rw [List.range'_succ, List.map_cons, spansFrom]
    by_cases same : wordBit data parity c (before + count) = level
    · rw [if_pos same]
      refine ih seen before (count + 1) level (by omega) (by omega) ?_ starts continues
      intro i above below
      by_cases last : i = before + count
      · rw [last]
        exact same
      · exact equal i above (by omega)
    · rw [if_neg same, List.map_cons, List.cons_append]
      have inner : before + count ≤ c.bodyBits := by
        by_contra behind
        have ends : wordBit data parity c (before + count - 1) = level :=
          equal _ (by omega) (by omega)
        have high : wordBit data parity c (before + count - 1) = true := wordBit_stop (by omega)
        have next : wordBit data parity c (before + count) = true := wordBit_stop (by omega)
        exact same (next.trans (high.symm.trans ends))
      refine ⟨continues _ _ _, ⟨fits, equal, some, fun _ => inner, by rintro ⟨⟩⟩,
        ih _ (before + count) 1 _ (Nat.le_refl 1) (by omega) ?_ ?_ ?_⟩
      · intro i above below
        rw [show i = before + count by omega]
      · right
        rw [equal (before + count - 1) (by omega) (by omega)]
        exact fun other => same other.symm
      · intro count' level' last'
        refine ⟨rfl, rfl, rfl, ?_⟩
        show before + count ≠ 0
        omega

theorem starts_spansFrom (bits : List Bool) :
    ∀ (before count : Nat) (level : Bool), 1 ≤ count →
      starts c ((spansFrom before count level bits).map (Piece.mk data parity)) =
        if before = 0 then [(UInt8.ofNat data, c.keptParity parity)] else [] := by
  induction bits with
  | nil =>
    intro before count level _
    by_cases first : before = 0 <;> simp [spansFrom, starts, first, Piece.pair]
  | cons b rest ih =>
    intro before count level some
    rw [spansFrom]
    split
    · exact ih before (count + 1) level (by omega)
    · have later := ih (before + count) 1 b (Nat.le_refl 1)
      rw [if_neg (by omega)] at later
      rw [List.map_cons, ← List.singleton_append, starts_append, later, List.append_nil]
      by_cases first : before = 0 <;> simp [starts, first, Piece.pair]

/-- The stretches of the words of some bytes. -/
def pieces (s : SoftwareSerial) (parity : SoftwareSerialParity) (vals : List UInt8) : List Piece :=
  vals.flatMap fun val => (spans (s.dataOf val) (sentParity parity (s.dataOf val)) s).map
    (Piece.mk (s.dataOf val) (sentParity parity (s.dataOf val)))

/-- A byte as it is sent, and the parity bit that comes with it. -/
def sent (s : SoftwareSerial) (parity : SoftwareSerialParity) (val : UInt8) : UInt8 × Bool :=
  (UInt8.ofNat (s.dataOf val), s.keptParity (sentParity parity (s.dataOf val)))

theorem joined_pieces (configured : Configured c) (parity : SoftwareSerialParity)
    (vals : List UInt8) :
    ∀ seen : Option Piece, (∀ a ∈ seen, a.span.last = true) →
      Joined c seen (c.pieces parity vals) := by
  induction vals with
  | nil => intro seen last; exact last
  | cons val rest ih =>
    intro seen last
    have word := @joined_spansFrom c (c.dataOf val) (sentParity parity (c.dataOf val)) configured
      (dataOf_lt c val) (c.pieces parity rest)
      (fun a final => ih (some a) (by rintro _ ⟨⟩; exact final))
      c.pduBits seen 0 1 false (Nat.le_refl 1) (by omega)
      (by
        intro i _ below
        rw [show i = 0 by omega, wordBit, if_pos rfl])
      (.inl rfl)
      (by
        intro count level final
        cases seen with
        | none => rfl
        | some a =>
          show a.Next _
          rw [Piece.Next, last a rfl, if_pos rfl])
    simp only [List.range'_eq_map_range, List.map_map, Function.comp_def, Nat.zero_add,
      Nat.add_comm 1] at word
    exact word

theorem starts_pieces (parity : SoftwareSerialParity) (vals : List UInt8) :
    starts c (c.pieces parity vals) = vals.map (c.sent parity) := by
  induction vals with
  | nil => rfl
  | cons val rest ih =>
    rw [pieces, List.flatMap_cons, starts_append, List.map_cons, ← ih, spans,
      starts_spansFrom _ 0 1 false (Nat.le_refl 1)]
    rfl

theorem exists_stretches (pieces : List Piece) :
    ∀ changes : List (Nat × Period),
      changes.map Prod.snd = pieces.map (fun p => c.period p.span) →
      ∃ rest : List Stretch,
        rest.map (·.piece) = pieces ∧ rest.map (Stretch.change c) = changes := by
  induction pieces with
  | nil =>
    intro changes same
    exact ⟨[], rfl, (List.map_eq_nil_iff.1 same).symm⟩
  | cons p pieces ih =>
    intro changes same
    obtain ⟨change, later, rfl, first, others⟩ := List.map_eq_cons_iff.1 same
    obtain ⟨rest, pieces_eq, changes_eq⟩ := ih later others
    refine ⟨⟨change.1, p⟩ :: rest, ?_, ?_⟩
    · rw [List.map_cons, pieces_eq]
    · have begins : Stretch.change c ⟨change.1, p⟩ = change := Prod.ext rfl first.symm
      rw [List.map_cons, changes_eq, begins]

/-- A sender with the settings of the receiver drives some bytes onto the line, and each change of
the receiver's pin comes within `slack` cycles of when it should. -/
structure Drives (sender receiver : SoftwareSerial) (vals : List UInt8)
    (parity : SoftwareSerialParity) (slack : Nat) (changes : List (Nat × Period)) : Prop where
  configured : Configured sender
  same : sender.setup = receiver.setup
  slow : 2 * slack + 5 ≤ sender.bitCycles
  driven : ∃ now, (sender.write now vals parity).1 = some (changes.map Prod.snd)
  timed : changes.IsChain (Timed slack)

/-- A receiver whose pin is about to make these changes. -/
def Receiver.start (s : SoftwareSerial) (changes : List (Nat × Period)) : Receiver :=
  ⟨s, none, changes.map fun c => (c.1, c.2.level)⟩

theorem Drives.stands {baud config : Nat} {invert : Bool}
    {bufCapacity isrBufCapacity cpuFreqMHz now : Nat} {memory : Nat → UInt8} {words : Nat → Nat}
    {sender : SoftwareSerial} {vals : List UInt8} {parity : SoftwareSerialParity}
    {changes : List (Nat × Period)}
    (drives : Drives sender
      (begin_ baud config invert bufCapacity isrBufCapacity cpuFreqMHz now memory words) vals parity
      slack changes) :
    Stands sender slack (capacityOf bufCapacity) (decide (parityOf config ≠ .none))
      (.start (begin_ baud config invert bufCapacity isrBufCapacity cpuFreqMHz now memory words)
        changes)
      (⟨[], false, false⟩, vals.map (sender.sent parity)) := by
  obtain ⟨configured, same, -, ⟨_, driven⟩, timed⟩ := drives
  have valid : sender.txValid = true := (setup_fields same).2.2.2.2.2
  rw [write_eq configured valid, Option.some.injEq] at driven
  have words_eq : changes.map Prod.snd =
      (sender.pieces parity vals).map fun p => sender.period p.span := by
    rw [← driven, pieces, List.map_flatMap]
    simp only [List.map_map, Function.comp_def]
  obtain ⟨rest, pieces_eq, changes_eq⟩ := exists_stretches _ changes words_eq
  refine ⟨none, [], rest, ⟨same.symm, received_begin _ _ _ _ _ _ _ _ _, rfl, ⟨?_, ?_⟩, ?_, ?_, ?_,
    ?_, List.isChain_nil⟩, ?_, ?_, ?_⟩
  · refine ⟨?_, fun i => ?_, ?_⟩
    · rw [if_pos rfl]
      exact Int.le_refl _
    · show Nat.testBit 0 i = _
      rw [Nat.zero_testBit, Nat.zero_testBit, Bool.and_false]
    · rw [Bool.and_false]
      rfl
  · show xor (((now ||| 1) ^^^ if invert then 1 else 0).testBit 0) invert = true
    rw [Nat.testBit_xor, Nat.testBit_or]
    cases invert <;> simp
  · simp [Receiver.start, begin_, CircularQueue.make, contents, ring, Ring.contents, Ring.used]
  · rintro _ ⟨⟩
  · rw [List.nil_append, pieces_eq]
    exact joined_pieces configured parity vals none (by rintro _ ⟨⟩)
  · rw [← changes_eq, List.isChain_map] at timed
    exact timed
  · rw [← changes_eq, Receiver.start, List.map_map]
    rfl
  · rintro _ ⟨⟩
  · rw [List.nil_append, pieces_eq, starts_pieces]
    rfl

/-- Once the line is at rest, two polls deliver what is left: the first one decodes what was
recorded, and the second one ends the last word. -/
theorem Stands.drained (configured : Configured c) (slow : 2 * slack + 5 ≤ c.bitCycles)
    (r : Receiver) (a : Pairs × List (UInt8 × Bool)) (stands : Stands c slack capacity par r a)
    (done : r.changes = []) {first second : Nat}
    (waited : ∀ last ∈ r.last, last < first ∧ last + 11 * c.bitCycles < second ∧
      second + 2 < last + 2 ^ 32) :
    ∃ pairs, Runs.Allows (Delivers capacity par)
      [.asked first .available, .asked second .available]
      (Runs.run Receiver.step [.asked first .available, .asked second .available] r).1 a
      (pairs, []) := by
  obtain ⟨serial, last, changes⟩ := r
  obtain ⟨seen, unread, rest, linked, line, lastTime, coming⟩ := stands
  dsimp only at linked line lastTime done waited
  rw [done] at line
  obtain rfl : rest = [] := (List.map_eq_nil_iff.1 line.symm)
  have window : ∀ b ∈ (seen.toList ++ unread).getLast?, b.time < first ∧
      b.time + 11 * c.bitCycles < second ∧ second + 2 < b.time + 2 ^ 32 :=
    fun b here => waited b.time (lastTime b here)
  obtain ⟨new, seen', split, linked', same⟩ := linked.poll configured slow
    (fun b here => (window b here).1) (by rintro _ ⟨⟩)
  obtain ⟨l', stepped, after⟩ := linked.answered .available rfl linked'
  have window' : ∀ b ∈ seen', b.time + 11 * c.bitCycles < second ∧
      second + 2 < b.time + 2 ^ 32 := by
    intro b here
    rcases same with same | none
    · exact (window b (same ▸ here)).2
    · rw [none] at here
      cases here
  have late' : ∀ b ∈ seen', b.time < second := fun b here =>
    Nat.lt_of_le_of_lt (Nat.le_add_right _ _) (window' b here).1
  obtain ⟨new', seen'', split', linked'', -, ends⟩ :=
    after.poll_quiet configured slow late' (by rintro _ ⟨⟩)
  obtain rfl : seen'' = none := ends rfl window'
  obtain ⟨l'', stepped', -⟩ := after.answered .available rfl linked''
  have one : Delivers capacity par (.asked first .available)
      (call (.available (first % 2 ^ 32)) serial).1 a (l', due c seen') := by
    refine ⟨new, ?_, stepped⟩
    rw [coming, List.append_nil]
    exact split
  have two : Delivers capacity par (.asked second .available)
      (call (.available (second % 2 ^ 32)) (call (.available (first % 2 ^ 32)) serial).2).1
      (l', due c seen') (l'', []) := ⟨new', split', stepped'⟩
  exact ⟨l'', .cons one (.cons two .nil)⟩

end Esp8266.Source.SoftwareSerial
