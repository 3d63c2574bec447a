import Mathlib.Data.List.Basic
import Esp8266.Lib.Runs
import Esp8266.Source.SecureClient

/-!
# The streams of WiFiClientSecure

Over any engine that keeps to its buffers, reads return the plaintext in order, writes give the
engine what they say, and records go to TCP and come from there in order.
-/
set_option autoImplicit false

namespace Esp8266.Source.BearSSL
open Esp8266.Lib.Runs

/-! ## Engines -/

/-- The four streams of an engine: the plaintext and the record data that it has produced so far,
with how much of that is acknowledged, and the application data and the record data that were
committed to it. -/
structure Streams (E : Type*) where
  plaintext : E → List UInt8
  taken : E → Nat
  records : E → List UInt8
  sent : E → Nat
  accepted : E → List UInt8
  injected : E → List UInt8

variable {E : Type*} {engine : Engine E} {streams : Streams E}

/-- An engine has moved on, with so many bytes acknowledged and these bytes committed. -/
structure Streams.Moves (streams : Streams E) (taken sent : Nat) (accepted injected : List UInt8)
    (e e' : E) : Prop where
  plaintext : streams.plaintext e <+: streams.plaintext e'
  taken : streams.taken e' = streams.taken e + taken
  records : streams.records e <+: streams.records e'
  sent : streams.sent e' = streams.sent e + sent
  accepted : streams.accepted e' = streams.accepted e ++ accepted
  injected : streams.injected e' = streams.injected e ++ injected

/-- The engine obeys its buffer API: a buffer is offered in the state that says so, what is
acknowledged was offered, and acknowledging consumes or commits exactly that. -/
structure Obeys (engine : Engine E) (streams : Streams E) : Prop where
  sendapp_offered : ∀ e, (engine.currentState e).sendapp = true ↔ 0 < engine.sendappLen e
  recvapp_offered : ∀ e, (engine.currentState e).recvapp = true ↔ 0 < engine.recvappLen e
  sendrec_offered : ∀ e, (engine.currentState e).sendrec = true ↔ 0 < engine.sendrecLen e
  recvrec_offered : ∀ e, (engine.currentState e).recvrec = true ↔ 0 < engine.recvrecLen e
  recvapp_eq : ∀ e, engine.recvapp e = (streams.plaintext e).drop (streams.taken e)
  taken_le : ∀ e, streams.taken e ≤ (streams.plaintext e).length
  recvapp_le : ∀ e, engine.recvappLen e ≤ (engine.recvapp e).length
  sendrec_eq : ∀ e, engine.sendrec e = (streams.records e).drop (streams.sent e)
  sent_le : ∀ e, streams.sent e ≤ (streams.records e).length
  sendrec_le : ∀ e, engine.sendrecLen e ≤ (engine.sendrec e).length
  sendappAck : ∀ e bytes, bytes ≠ [] → bytes.length ≤ engine.sendappLen e →
    streams.Moves 0 0 bytes [] e (engine.sendappAck bytes e)
  recvappAck : ∀ e n, n ≤ (engine.recvapp e).length →
    streams.Moves n 0 [] [] e (engine.recvappAck n e)
  sendrecAck : ∀ e n, n ≠ 0 → n ≤ engine.sendrecLen e →
    streams.Moves 0 n [] [] e (engine.sendrecAck n e)
  recvrecAck : ∀ e bytes, bytes ≠ [] → bytes.length ≤ engine.recvrecLen e →
    streams.Moves 0 0 [] bytes e (engine.recvrecAck bytes e)
  flush : ∀ e, streams.Moves 0 0 [] [] e (engine.flush e)

/-! ## What a part of a call does -/

/-- The plaintext that is consumed, and the record data that is sent. -/
def Streams.consumed (streams : Streams E) (e : E) : List UInt8 :=
  (streams.plaintext e).take (streams.taken e)

def Streams.emitted (streams : Streams E) (e : E) : List UInt8 :=
  (streams.records e).take (streams.sent e)

/-- More of a stream is acknowledged. -/
theorem take_grown {xs ys : List UInt8} {k n : Nat} (grown : xs <+: ys)
    (offered : k + n ≤ xs.length) : ys.take (k + n) = xs.take k ++ (xs.drop k).take n := by
  obtain ⟨more, rfl⟩ := grown
  rw [List.take_append_of_le_length offered, List.take_add]

theorem Streams.Moves.consumed {taken sent : Nat} {accepted injected : List UInt8} {e e' : E}
    (moves : streams.Moves taken sent accepted injected e e') (obeys : Obeys engine streams)
    (offered : taken ≤ (engine.recvapp e).length) :
    streams.consumed e' = streams.consumed e ++ (engine.recvapp e).take taken := by
  have bound := obeys.taken_le e
  rw [obeys.recvapp_eq, List.length_drop] at offered
  rw [Streams.consumed, moves.taken, take_grown moves.plaintext (by omega), ← obeys.recvapp_eq]
  rfl

theorem Streams.Moves.emitted {taken sent : Nat} {accepted injected : List UInt8} {e e' : E}
    (moves : streams.Moves taken sent accepted injected e e') (obeys : Obeys engine streams)
    (offered : sent ≤ (engine.sendrec e).length) :
    streams.emitted e' = streams.emitted e ++ (engine.sendrec e).take sent := by
  have bound := obeys.sent_le e
  rw [obeys.sendrec_eq, List.length_drop] at offered
  rw [Streams.emitted, moves.sent, take_grown moves.records (by omega), ← obeys.sendrec_eq]
  rfl

namespace WiFiClientSecure

/-- The client returns plaintext and gives data to the engine, and what goes to TCP and comes from
there passes through. -/
structure Flow (streams : Streams E) (returned given : List UInt8) (c c' : WiFiClientSecure E) :
    Prop where
  consumed : streams.consumed c'.eng = streams.consumed c.eng ++ returned
  accepted : streams.accepted c'.eng = streams.accepted c.eng ++ given
  passed : ∃ out, streams.emitted c'.eng = streams.emitted c.eng ++ out ∧
    c'.toTcp = c.toTcp ++ out
  injected : ∃ bytes, streams.injected c'.eng = streams.injected c.eng ++ bytes ∧
    c'.fromTcp = c.fromTcp ++ bytes
  plaintext : streams.plaintext c.eng <+: streams.plaintext c'.eng
  taken : streams.taken c'.eng = streams.taken c.eng + returned.length

theorem Flow.refl (c : WiFiClientSecure E) : Flow streams [] [] c c :=
  ⟨(List.append_nil _).symm, (List.append_nil _).symm,
    ⟨[], (List.append_nil _).symm, (List.append_nil _).symm⟩,
    ⟨[], (List.append_nil _).symm, (List.append_nil _).symm⟩, List.prefix_refl _, rfl⟩

theorem Flow.trans {returned returned' given given' : List UInt8} {c c' c'' : WiFiClientSecure E}
    (first : Flow streams returned given c c') (second : Flow streams returned' given' c' c'') :
    Flow streams (returned ++ returned') (given ++ given') c c'' := by
  obtain ⟨out, emitted, toTcp⟩ := first.passed
  obtain ⟨out', emitted', toTcp'⟩ := second.passed
  obtain ⟨bytes, injected, fromTcp⟩ := first.injected
  obtain ⟨bytes', injected', fromTcp'⟩ := second.injected
  refine ⟨?_, ?_, ⟨out ++ out', ?_, ?_⟩, ⟨bytes ++ bytes', ?_, ?_⟩,
    first.plaintext.trans second.plaintext, ?_⟩
  · rw [second.consumed, first.consumed, List.append_assoc]
  · rw [second.accepted, first.accepted, List.append_assoc]
  · rw [emitted', emitted, List.append_assoc]
  · rw [toTcp', toTcp, List.append_assoc]
  · rw [injected', injected, List.append_assoc]
  · rw [fromTcp', fromTcp, List.append_assoc]
  · rw [second.taken, first.taken, List.length_append, Nat.add_assoc]

/-- The engine has moved on, and the lists beside it as well. -/
theorem flow_of_moves {taken sent : Nat} {accepted injected : List UInt8}
    {c c' : WiFiClientSecure E} (obeys : Obeys engine streams)
    (moves : streams.Moves taken sent accepted injected c.eng c'.eng)
    (consumes : taken ≤ (engine.recvapp c.eng).length)
    (sends : sent ≤ (engine.sendrec c.eng).length)
    (toTcp : c'.toTcp = c.toTcp ++ (engine.sendrec c.eng).take sent)
    (fromTcp : c'.fromTcp = c.fromTcp ++ injected) :
    Flow streams ((engine.recvapp c.eng).take taken) accepted c c' := by
  refine ⟨moves.consumed obeys consumes, moves.accepted, ⟨_, moves.emitted obeys sends, toTcp⟩,
    ⟨injected, moves.injected, fromTcp⟩, moves.plaintext, ?_⟩
  rw [List.length_take, Nat.min_eq_left consumes, moves.taken]

/-- What is kept between the calls: the buffer that is held is still offered. -/
def Ready (engine : Engine E) (c : WiFiClientSecure E) : Prop :=
  ∀ len, c.recvappLen = some len → len ≠ 0 ∧ len ≤ (engine.recvapp c.eng).length

/-! ### The parts -/

/-- A part of a call leaves the buffer that is held alone. -/
structure Keeps (streams : Streams E) (given : List UInt8) (c c' : WiFiClientSecure E) : Prop where
  flow : Flow streams [] given c c'
  recvappLen : c'.recvappLen = c.recvappLen
  ctxPresent : c'.ctxPresent = c.ctxPresent
  handshakeDone : c'.handshakeDone = c.handshakeDone

theorem Keeps.refl (c : WiFiClientSecure E) : Keeps streams [] c c := ⟨.refl c, rfl, rfl, rfl⟩

theorem Keeps.trans {given given' : List UInt8} {c c' c'' : WiFiClientSecure E}
    (first : Keeps streams given c c') (second : Keeps streams given' c' c'') :
    Keeps streams (given ++ given') c c'' :=
  ⟨first.flow.trans second.flow, second.recvappLen.trans first.recvappLen,
    second.ctxPresent.trans first.ctxPresent, second.handshakeDone.trans first.handshakeDone⟩

/-- A part of a call that may ask for the buffer. -/
structure Asks (engine : Engine E) (streams : Streams E) (c c' : WiFiClientSecure E) : Prop where
  flow : Flow streams [] [] c c'
  ready : Ready engine c'
  ctxPresent : c'.ctxPresent = c.ctxPresent
  handshakeDone : c'.handshakeDone = c.handshakeDone

theorem Asks.trans {c c' c'' : WiFiClientSecure E} (first : Asks engine streams c c')
    (second : Asks engine streams c' c'') : Asks engine streams c c'' :=
  ⟨first.flow.trans second.flow, second.ready, second.ctxPresent.trans first.ctxPresent,
    second.handshakeDone.trans first.handshakeDone⟩

variable (obeys : Obeys engine streams)
include obeys

theorem sendRecord_keeps {c : WiFiClientSecure E} {wlen : Nat} (some : wlen ≠ 0)
    (offered : wlen ≤ engine.sendrecLen c.eng) :
    Keeps streams [] c (c.sendRecord engine wlen) :=
  ⟨flow_of_moves obeys (obeys.sendrecAck c.eng wlen some offered) (Nat.zero_le _)
    (Nat.le_trans offered (obeys.sendrec_le c.eng)) rfl (List.append_nil _).symm, rfl, rfl, rfl⟩

theorem receiveRecord_keeps {c : WiFiClientSecure E} {bytes : List UInt8}
    (offered : bytes.length ≤ engine.recvrecLen c.eng) :
    Keeps streams [] c (c.receiveRecord engine bytes) := by
  rw [receiveRecord]
  split
  · exact .refl c
  · rename_i some
    exact ⟨flow_of_moves obeys (obeys.recvrecAck c.eng bytes some offered) (Nat.zero_le _)
      (Nat.zero_le _) (List.append_nil _).symm rfl, rfl, rfl, rfl⟩

theorem engineFlush_keeps (c : WiFiClientSecure E) :
    Keeps streams [] c (c.engineFlush engine) :=
  ⟨flow_of_moves obeys (obeys.flush c.eng) (Nat.zero_le _) (Nat.zero_le _)
    (List.append_nil _).symm (List.append_nil _).symm, rfl, rfl, rfl⟩

/-- Each round sends records, takes records or does neither. -/
theorem runLoop_keeps (target : EngineState → Bool) (blocking : Bool) (rounds : List Round) :
    ∀ (noWork : Nat) (c : WiFiClientSecure E),
      Keeps streams [] c (runLoop engine target blocking rounds noWork c).2 := by
  induction rounds with
  | nil => intro noWork c; exact .refl c
  | cons round rest ih =>
    intro noWork c
    have writes : writable blocking round (engine.sendrecLen c.eng) ≤ engine.sendrecLen c.eng := by
      rw [writable]
      split <;> omega
    rw [runLoop]
    simp only
    split
    · exact .refl c
    · split
      · exact .refl c
      · split
        · exact .refl c
        · split
          · split
            · exact .refl c
            · rename_i some
              exact (sendRecord_keeps obeys some writes).trans (ih 0 _)
          · split
            · exact .refl c
            · split
              · exact .refl c
              · split
                · split
                  · exact .refl c
                  · exact (receiveRecord_keeps obeys (List.length_take_le _ _)).trans (ih 0 _)
                · exact (engineFlush_keeps obeys c).trans (ih _ _)

theorem runUntil_keeps (target : EngineState → Bool) (blocking : Bool) (c : WiFiClientSecure E) :
    Keeps streams [] c (c.runUntil engine target blocking).2 := by
  rw [runUntil]
  split
  · have keeps := runLoop_keeps obeys target blocking (c.rounds.headD []) 0
      { c with rounds := c.rounds.tail }
    exact ⟨⟨keeps.flow.consumed, keeps.flow.accepted, keeps.flow.passed, keeps.flow.injected,
      keeps.flow.plaintext, keeps.flow.taken⟩, keeps.recvappLen, keeps.ctxPresent,
      keeps.handshakeDone⟩
  · exact .refl c

theorem flush_keeps (c : WiFiClientSecure E) : Keeps streams [] c (c.flush engine) :=
  runUntil_keeps obeys EngineState.sendapp true c

theorem give_keeps {c : WiFiClientSecure E} {bytes : List UInt8} (some : bytes ≠ [])
    (offered : bytes.length ≤ engine.sendappLen c.eng) :
    Keeps streams bytes c (c.give engine bytes) := by
  have given : Keeps streams bytes c { c with eng := engine.sendappAck bytes c.eng } :=
    ⟨flow_of_moves obeys (obeys.sendappAck c.eng bytes some offered) (Nat.zero_le _)
      (Nat.zero_le _) (List.append_nil _).symm (List.append_nil _).symm, rfl, rfl, rfl⟩
  have flushed := (given.trans (engineFlush_keeps obeys _)).trans (flush_keeps obeys _)
  rw [List.append_nil, List.append_nil] at flushed
  exact flushed

/-! ### The buffer that is held -/

/-- Where no plaintext is returned, what waits only grows. -/
theorem Flow.waiting {given : List UInt8} {c c' : WiFiClientSecure E}
    (flow : Flow streams [] given c c') : engine.recvapp c.eng <+: engine.recvapp c'.eng := by
  obtain ⟨more, grown⟩ := flow.plaintext
  rw [obeys.recvapp_eq, obeys.recvapp_eq, flow.taken, ← grown]
  change _ <+: List.drop (streams.taken c.eng) _
  rw [List.drop_append_of_le_length (obeys.taken_le c.eng)]
  exact List.prefix_append _ _

theorem Ready.flow {given : List UInt8} {c c' : WiFiClientSecure E} (ready : Ready engine c)
    (flow : Flow streams [] given c c') (same : c'.recvappLen = c.recvappLen) :
    Ready engine c' := by
  intro len held
  rw [same] at held
  exact ⟨(ready len held).1, Nat.le_trans (ready len held).2 (flow.waiting obeys).length_le⟩

/-- The number that is returned is that of the buffer that is held. -/
theorem available_asks {c : WiFiClientSecure E} (ready : Ready engine c) :
    Asks engine streams c (c.available engine).2 ∧
      (c.available engine).1 = (c.available engine).2.recvappLen.getD 0 := by
  rw [available]
  cases held : c.recvappLen with
  | some len => exact ⟨⟨.refl c, ready, rfl, rfl⟩, by simp [held]⟩
  | none =>
    have run := runUntil_keeps obeys EngineState.recvapp false c
    have empty := run.recvappLen.trans held
    have asks : Asks engine streams c (c.runUntil engine EngineState.recvapp false).2 :=
      ⟨run.flow, ready.flow obeys run.flow run.recvappLen, run.ctxPresent, run.handshakeDone⟩
    simp only
    split
    · rw [offer]
      split
      · exact ⟨asks, by simp [empty]⟩
      · split
        · rename_i offered
          have positive := (obeys.recvapp_offered _).1 offered
          have buffer : engine.recvappBuf (c.runUntil engine EngineState.recvapp false).2.eng =
              some (engine.recvappLen (c.runUntil engine EngineState.recvapp false).2.eng) := by
            rw [Engine.recvappBuf, if_neg (Nat.ne_of_gt positive)]
          refine ⟨⟨⟨asks.flow.consumed, asks.flow.accepted, asks.flow.passed,
            asks.flow.injected, asks.flow.plaintext, asks.flow.taken⟩, fun len held => ?_,
            asks.ctxPresent, asks.handshakeDone⟩, by rw [buffer]; rfl⟩
          rw [buffer] at held
          obtain rfl := Option.some.inj held
          exact ⟨Nat.ne_of_gt positive, obeys.recvapp_le _⟩
        · exact ⟨asks, by simp [empty]⟩
    · exact ⟨asks, by simp [empty]⟩

theorem connected_asks {c : WiFiClientSecure E} (ready : Ready engine c) :
    Asks engine streams c (c.connected engine).2 := by
  obtain ⟨asks, -⟩ := available_asks obeys ready
  rw [connected]
  simp only
  split
  · exact asks
  · exact ⟨⟨asks.flow.consumed, asks.flow.accepted, asks.flow.passed, asks.flow.injected,
      asks.flow.plaintext, asks.flow.taken⟩, asks.ready, asks.ctxPresent, asks.handshakeDone⟩

/-! ### The calls -/

/-- What is held is taken, each byte once. -/
theorem take_flow {c : WiFiClientSecure E} (ready : Ready engine c) (size : Nat) :
    Flow streams (c.take engine size).1 [] c (c.take engine size).2 := by
  have bound : min (c.recvappLen.getD 0) size ≤ (engine.recvapp c.eng).length := by
    cases held : c.recvappLen with
    | none => simp
    | some len => exact Nat.le_trans (Nat.min_le_left _ _) (ready len held).2
  exact flow_of_moves obeys (obeys.recvappAck c.eng _ bound) bound (Nat.zero_le _)
    (List.append_nil _).symm (List.append_nil _).symm

theorem read_flow {c : WiFiClientSecure E} (ready : Ready engine c) (size : Nat) :
    Flow streams ((c.read engine size).1.getD []) [] c (c.read engine size).2 ∧
      Ready engine (c.read engine size).2 := by
  rw [read]
  split
  · exact ⟨.refl c, ready⟩
  · obtain ⟨asks, -⟩ := available_asks obeys ready
    have both := asks.trans (connected_asks obeys asks.ready)
    simp only
    split
    · split
      · exact ⟨both.flow, both.ready⟩
      · exact ⟨both.flow, both.ready⟩
    · have taken := take_flow obeys both.ready size
      exact ⟨both.flow.trans taken, fun len held => absurd held (by simp [take])⟩

omit obeys in
/-- `read()` returns a byte or nothing. -/
theorem readByte_eq (c : WiFiClientSecure E) : (c.readByte engine).2 = (c.read engine 1).2 ∧
    (c.readByte engine).1.toList = (c.read engine 1).1.getD [] := by
  have short : ((c.read engine 1).1.getD []).length ≤ 1 := by
    rw [read]
    split
    · simp
    · simp only
      split
      · split <;> simp
      · rw [take, Option.getD_some, List.length_take]
        omega
  rw [readByte]
  split
  · rename_i byte c' same
    rw [same]
    exact ⟨rfl, rfl⟩
  · rename_i result c' others same
    rw [same] at short ⊢
    refine ⟨rfl, ?_⟩
    cases result with
    | none => rfl
    | some bytes =>
      match bytes, short with
      | [], _ => rfl
      | [byte], _ => exact absurd rfl (others byte)

theorem peekWait_asks (length polls : Nat) : ∀ {c : WiFiClientSecure E}, Ready engine c →
    Asks engine streams c (c.peekWait engine length polls) := by
  induction polls with
  | zero =>
    intro c ready
    exact (available_asks obeys ready).1
  | succ polls ih =>
    intro c ready
    obtain ⟨asks, -⟩ := available_asks obeys ready
    rw [peekWait]
    simp only
    split
    · exact asks.trans (ih asks.ready)
    · exact asks

theorem writeLoop_flow (size : Nat) : ∀ (buf : List UInt8) {c : WiFiClientSecure E},
    Ready engine c → buf ≠ [] →
      (writeLoop engine size buf c).1 ≤ buf.length ∧
      Flow streams [] (buf.take (writeLoop engine size buf c).1) c
        (writeLoop engine size buf c).2 ∧
      Ready engine (writeLoop engine size buf c).2 := by
  induction size with
  | zero => intro buf c ready some; exact ⟨Nat.zero_le _, .refl c, ready⟩
  | succ size ih =>
    intro buf c ready some
    have run := runUntil_keeps obeys EngineState.sendapp true c
    have ran := ready.flow obeys run.flow run.recvappLen
    rw [writeLoop]
    simp only
    split
    · rename_i open'
      generalize (c.runUntil engine EngineState.sendapp true).2 = c' at run ran open' ⊢
      generalize len_eq : engine.sendappLen c'.eng = len
      have positive : 0 < len := len_eq ▸ (obeys.sendapp_offered _).1 open'.2
      have toSend : buf.take len ≠ [] := by
        intro none
        rcases List.take_eq_nil_iff.1 none with zero | empty
        · exact absurd zero (Nat.ne_of_gt positive)
        · exact some empty
      have fits : (buf.take len).length ≤ engine.sendappLen c'.eng :=
        len_eq.symm ▸ List.length_take_le len buf
      have given := give_keeps obeys toSend fits
      have gave := ran.flow obeys given.flow given.recvappLen
      have first := run.flow.trans given.flow
      split
      · refine ⟨List.length_take_le' _ _, ?_, gave⟩
        have same : buf.take (buf.take len).length = buf.take len := by
          rw [List.length_take, List.take_eq_take_iff]
          omega
        rw [same]
        exact first
      · rename_i more
        obtain ⟨le, flow, last⟩ := ih (buf.drop len) gave more
        have inside : len < buf.length := Nat.lt_of_not_le (List.drop_eq_nil_iff.not.1 more)
        have length : (buf.take len).length = len := List.length_take_of_le (Nat.le_of_lt inside)
        rw [List.length_drop] at le
        rw [length]
        refine ⟨by omega, ?_, last⟩
        rw [List.take_add]
        exact first.trans flow
    · exact ⟨Nat.zero_le _, run.flow, ran⟩

theorem write_flow (buf : List UInt8) {c : WiFiClientSecure E} (ready : Ready engine c) :
    (c.write engine buf).1 ≤ buf.length ∧
      Flow streams [] (buf.take (c.write engine buf).1) c (c.write engine buf).2 ∧
      Ready engine (c.write engine buf).2 := by
  have asks := connected_asks obeys ready
  rw [write]
  simp only
  split
  · exact ⟨Nat.zero_le _, asks.flow, asks.ready⟩
  · rename_i goes
    have some : buf ≠ [] := by
      intro none
      simp [none] at goes
    obtain ⟨le, flow, last⟩ := writeLoop_flow obeys buf.length buf asks.ready some
    exact ⟨le, asks.flow.trans flow, last⟩

theorem streamLoop_flow (chunks : List (List UInt8)) : ∀ {c : WiFiClientSecure E},
    Ready engine c → (streamLoop engine chunks c).1 ≤ chunks.flatten.length ∧
      Flow streams [] (chunks.flatten.take (streamLoop engine chunks c).1) c
        (streamLoop engine chunks c).2 ∧
      Ready engine (streamLoop engine chunks c).2 := by
  induction chunks with
  | nil => intro c ready; exact ⟨Nat.zero_le _, .refl c, ready⟩
  | cons temp rest ih =>
    intro c ready
    rw [streamLoop]
    split
    · exact ⟨Nat.zero_le _, .refl c, ready⟩
    · obtain ⟨le, flow, wrote⟩ := write_flow obeys temp ready
      simp only
      rw [List.flatten_cons]
      split
      · rename_i whole
        obtain ⟨le', flow', last⟩ := ih wrote
        refine ⟨by rw [whole, List.length_append]; omega, ?_, last⟩
        rw [whole, List.take_length_add_append]
        rw [whole, List.take_length] at flow
        exact flow.trans flow'
      · refine ⟨by rw [List.length_append]; omega, ?_, wrote⟩
        rw [List.take_append_of_le_length le]
        exact flow

theorem writeStream_flow (chunks : List (List UInt8)) {c : WiFiClientSecure E}
    (ready : Ready engine c) : (c.writeStream engine chunks).1 ≤ chunks.flatten.length ∧
      Flow streams [] (chunks.flatten.take (c.writeStream engine chunks).1) c
        (c.writeStream engine chunks).2 ∧
      Ready engine (c.writeStream engine chunks).2 := by
  have asks := connected_asks obeys ready
  rw [writeStream]
  simp only
  split
  · exact ⟨Nat.zero_le _, asks.flow, asks.ready⟩
  · obtain ⟨le, flow, last⟩ := streamLoop_flow obeys chunks asks.ready
    exact ⟨le, asks.flow.trans flow, last⟩

theorem peek_flow {c : WiFiClientSecure E} (ready : Ready engine c) :
    Flow streams [] [] c (c.peek engine).2 ∧ Ready engine (c.peek engine).2 ∧
      (c.peek engine).1.toList <+: engine.recvapp (c.peek engine).2.eng := by
  obtain ⟨asks, -⟩ := available_asks obeys ready
  rw [peek]
  split
  · exact ⟨.refl c, ready, List.nil_prefix⟩
  · simp only
    split
    · exact ⟨asks.flow, asks.ready, List.nil_prefix⟩
    · split
      · exact ⟨asks.flow, asks.ready, List.nil_prefix⟩
      · refine ⟨asks.flow, asks.ready, ?_⟩
        cases engine.recvapp (c.available engine).2.eng with
        | nil => exact List.nil_prefix
        | cons byte rest => exact ⟨rest, rfl⟩

theorem peekBytes_flow (length polls : Nat) {c : WiFiClientSecure E} (ready : Ready engine c) :
    Flow streams [] [] c (c.peekBytes engine length polls).2 ∧
      Ready engine (c.peekBytes engine length polls).2 ∧
      (c.peekBytes engine length polls).1 <+:
        engine.recvapp (c.peekBytes engine length polls).2.eng := by
  have asks := peekWait_asks obeys length polls ready
  rw [peekBytes]
  split
  · exact ⟨.refl c, ready, List.nil_prefix⟩
  · exact ⟨asks.flow, asks.ready, List.take_prefix _ _⟩

end WiFiClientSecure

/-! ## Runs -/

/-- What a write is to give to the engine. -/
def WiFiClientSecure.Call.data : WiFiClientSecure.Call → Option (List UInt8)
  | .write buf | .writeP buf => some buf
  | .writeStream chunks => some chunks.flatten
  | _ => none

namespace WiFiClientSecure

/-- What a write that returns a number has given to the engine. -/
def given (call : Call) (answer : Answer) : List UInt8 :=
  match call.data, answer with
  | some data, .count n => data.take n
  | _, _ => []

/-- What a read returns. -/
def returned : Call → Answer → List UInt8
  | .read _, .bytes bytes => bytes.getD []
  | .readByte, .byte byte => byte.toList
  | _, _ => []

/-- What a peek shows. -/
def shown : Call → Answer → List UInt8
  | .peek, .byte byte => byte.toList
  | .peekBytes _ _, .bytes bytes => bytes.getD []
  | _, _ => []

/-- A call is served: what it shows is the plaintext that is to be returned next. -/
structure Served (engine : Engine E) (streams : Streams E) (call : Call) (answer : Answer)
    (c c' : WiFiClientSecure E) : Prop where
  flow : Flow streams (returned call answer) (given call answer) c c'
  counted : ∀ data n, call.data = some data → answer = .count n → n ≤ data.length
  peeked : shown call answer <+:
    (streams.plaintext c'.eng).drop (streams.taken c'.eng)

theorem Flow.begin {back out : List UInt8} {c c' : WiFiClientSecure E} {rounds : List (List Round)}
    {clientConnected : List Bool} (flow : Flow streams back out
      { c with rounds := rounds, clientConnected := clientConnected } c') :
    Flow streams back out c c' :=
  ⟨flow.consumed, flow.accepted, flow.passed, flow.injected, flow.plaintext, flow.taken⟩

theorem step_served (obeys : Obeys engine streams) (request : Request) {c : WiFiClientSecure E}
    (ready : Ready engine c) :
    Served engine streams request.call (step engine request c).1 c (step engine request c).2 ∧
      Ready engine (step engine request c).2 := by
  obtain ⟨call, rounds, clientConnected⟩ := request
  have began : Ready engine { c with rounds := rounds, clientConnected := clientConnected } := ready
  have count : ∀ {n n' : Nat}, Answer.count n = .count n' → n = n' := fun same =>
    Answer.count.inj same
  cases call with
  | read size =>
    obtain ⟨flow, last⟩ := read_flow obeys began size
    exact ⟨⟨flow.begin, fun _ _ data => (nomatch data), List.nil_prefix⟩, last⟩
  | readByte =>
    obtain ⟨same, byte⟩ := @readByte_eq _ engine
      { c with rounds := rounds, clientConnected := clientConnected }
    obtain ⟨flow, last⟩ := read_flow obeys began 1
    rw [← byte, ← same] at flow
    rw [← same] at last
    exact ⟨⟨flow.begin, fun _ _ data => (nomatch data), List.nil_prefix⟩, last⟩
  | peek =>
    obtain ⟨flow, last, next⟩ := peek_flow obeys began
    rw [obeys.recvapp_eq] at next
    exact ⟨⟨flow.begin, fun _ _ data => (nomatch data), next⟩, last⟩
  | peekBytes length polls =>
    obtain ⟨flow, last, next⟩ := peekBytes_flow obeys length polls began
    rw [obeys.recvapp_eq] at next
    exact ⟨⟨flow.begin, fun _ _ data => (nomatch data), next⟩, last⟩
  | available =>
    obtain ⟨asks, -⟩ := available_asks obeys began
    exact ⟨⟨asks.flow.begin, fun _ _ data => (nomatch data), List.nil_prefix⟩, asks.ready⟩
  | write buf =>
    obtain ⟨le, flow, last⟩ := write_flow obeys buf began
    refine ⟨⟨flow.begin, fun data n known same => ?_, List.nil_prefix⟩, last⟩
    exact Option.some.inj known ▸ count same ▸ le
  | writeP buf =>
    obtain ⟨le, flow, last⟩ := write_flow obeys buf began
    refine ⟨⟨flow.begin, fun data n known same => ?_, List.nil_prefix⟩, last⟩
    exact Option.some.inj known ▸ count same ▸ le
  | writeStream chunks =>
    obtain ⟨le, flow, last⟩ := writeStream_flow obeys chunks began
    refine ⟨⟨flow.begin, fun data n known same => ?_, List.nil_prefix⟩, last⟩
    exact Option.some.inj known ▸ count same ▸ le
  | flush =>
    have keeps := flush_keeps obeys
      { c with rounds := rounds, clientConnected := clientConnected }
    exact ⟨⟨keeps.flow.begin, fun _ _ data => (nomatch data), List.nil_prefix⟩,
      began.flow obeys keeps.flow keeps.recvappLen⟩

/-- What the reads of a run return, and what its writes give to the engine. -/
def allReturned (requests : List Request) (answers : List Answer) : List UInt8 :=
  (requests.zip answers).flatMap fun (request, answer) => returned request.call answer

def allGiven (requests : List Request) (answers : List Answer) : List UInt8 :=
  (requests.zip answers).flatMap fun (request, answer) => given request.call answer

theorem run_flow (obeys : Obeys engine streams) (requests : List Request) :
    ∀ {c : WiFiClientSecure E}, Ready engine c →
      Flow streams (allReturned requests (run (step engine) requests c).1)
        (allGiven requests (run (step engine) requests c).1) c
        (run (step engine) requests c).2 ∧
      Ready engine (run (step engine) requests c).2 := by
  induction requests with
  | nil => intro c ready; exact ⟨.refl c, ready⟩
  | cons request rest ih =>
    intro c ready
    obtain ⟨served, next⟩ := step_served obeys request ready
    obtain ⟨flow, last⟩ := ih next
    exact ⟨served.flow.trans flow, last⟩

/-- The streams are kept in every run, and every call behind it is served. -/
theorem streams_kept (obeys : Obeys engine streams) (c : WiFiClientSecure E)
    (ready : Ready engine c) (requests : List Request) :
    Flow streams (allReturned requests (run (step engine) requests c).1)
        (allGiven requests (run (step engine) requests c).1) c
        (run (step engine) requests c).2 ∧
      ∀ request, Served engine streams request.call
        (step engine request (run (step engine) requests c).2).1
        (run (step engine) requests c).2
        (step engine request (run (step engine) requests c).2).2 := by
  obtain ⟨flow, last⟩ := run_flow obeys requests ready
  exact ⟨flow, fun request => (step_served obeys request last).1⟩

/-! ## An engine without a cipher -/

/-- Data goes out and comes in as it is, one buffer of four bytes at a time. -/
structure Plain where
  plaintext : List UInt8
  taken : Nat
  records : List UInt8
  sent : Nat
  accepted : List UInt8
  injected : List UInt8
  taken_le : taken ≤ plaintext.length
  sent_le : sent ≤ records.length

namespace Plain

def plainEngine : Engine Plain where
  currentState e :=
    ⟨false, 0 < e.records.length - e.sent, e.taken = e.plaintext.length,
      e.sent = e.records.length, 0 < e.plaintext.length - e.taken⟩
  sendappLen e := if e.sent = e.records.length then 4 else 0
  sendappAck bytes e :=
    { e with
      records := e.records ++ bytes
      accepted := e.accepted ++ bytes
      sent_le := by rw [List.length_append]; exact Nat.le_add_right_of_le e.sent_le }
  recvappLen e := e.plaintext.length - e.taken
  recvapp e := e.plaintext.drop e.taken
  recvappAck n e :=
    { e with
      taken := min (e.taken + n) e.plaintext.length
      taken_le := Nat.min_le_right _ _ }
  sendrecLen e := e.records.length - e.sent
  sendrec e := e.records.drop e.sent
  sendrecAck n e :=
    { e with
      sent := min (e.sent + n) e.records.length
      sent_le := Nat.min_le_right _ _ }
  recvrecLen e := if e.taken = e.plaintext.length then 4 else 0
  recvrecAck bytes e :=
    { e with
      plaintext := e.plaintext ++ bytes
      injected := e.injected ++ bytes
      taken_le := by rw [List.length_append]; exact Nat.le_add_right_of_le e.taken_le }
  flush e := e

def plainStreams : Streams Plain :=
  ⟨Plain.plaintext, Plain.taken, Plain.records, Plain.sent, Plain.accepted, Plain.injected⟩

theorem plain_obeys : Obeys plainEngine plainStreams where
  sendapp_offered e := by
    change decide (e.sent = e.records.length) = true ↔
      0 < if e.sent = e.records.length then 4 else 0
    split <;> simp [*]
  recvapp_offered e := by simp [plainEngine]
  sendrec_offered e := by simp [plainEngine]
  recvrec_offered e := by
    change decide (e.taken = e.plaintext.length) = true ↔
      0 < if e.taken = e.plaintext.length then 4 else 0
    split <;> simp [*]
  recvapp_eq e := rfl
  taken_le e := e.taken_le
  recvapp_le e := by simp [plainEngine]
  sendrec_eq e := rfl
  sent_le e := e.sent_le
  sendrec_le e := by simp [plainEngine]
  sendappAck e bytes _ _ :=
    ⟨List.prefix_refl _, rfl, List.prefix_append _ _, rfl, rfl, (List.append_nil _).symm⟩
  recvappAck e n offered := by
    have bound := e.taken_le
    change n ≤ (e.plaintext.drop e.taken).length at offered
    rw [List.length_drop] at offered
    refine ⟨List.prefix_refl _, ?_, List.prefix_refl _, rfl, (List.append_nil _).symm,
      (List.append_nil _).symm⟩
    exact Nat.min_eq_left (by omega)
  sendrecAck e n _ offered := by
    have bound := e.sent_le
    change n ≤ e.records.length - e.sent at offered
    refine ⟨List.prefix_refl _, rfl, List.prefix_refl _, ?_, (List.append_nil _).symm,
      (List.append_nil _).symm⟩
    exact Nat.min_eq_left (by omega)
  recvrecAck e bytes _ _ :=
    ⟨List.prefix_append _ _, rfl, List.prefix_refl _, rfl, (List.append_nil _).symm, rfl⟩
  flush e :=
    ⟨List.prefix_refl _, rfl, List.prefix_refl _, rfl, (List.append_nil _).symm,
      (List.append_nil _).symm⟩

/-- A connection that is established. -/
def client : WiFiClientSecure Plain where
  eng := ⟨[], 0, [], 0, [], [], Nat.le_refl _, Nat.le_refl _⟩
  ctxPresent := true
  handshakeDone := true
  recvappLen := none
  rounds := []
  clientConnected := []
  toTcp := []
  fromTcp := []

/-- TCP accepts so many bytes, and has these. -/
def round (accepted : Nat) (bytes : List UInt8) : Round :=
  ⟨true, false, accepted, accepted, !bytes.isEmpty, some bytes⟩

/-- Six bytes are written, with short writes, and one of three is read and the next shown. -/
def requests : List Request :=
  [⟨.write [1, 2, 3, 4, 5, 6],
    [[round 0 [], round 0 [], round 0 []], [round 0 []], [round 3 [], round 1 [], round 0 []],
      [round 0 []], [round 2 [], round 0 []]], [true]⟩,
    ⟨.readByte, [[round 0 [7, 8, 9], round 0 []]], []⟩]

theorem streams_kept_plain :
    (run (step plainEngine) requests client).2.toTcp = [1, 2, 3, 4, 5, 6] ∧
      plainStreams.accepted (run (step plainEngine) requests client).2.eng = [1, 2, 3, 4, 5, 6] ∧
      plainStreams.consumed (run (step plainEngine) requests client).2.eng = [7] := by
  have kept := (streams_kept plain_obeys client (fun _ none => (nomatch none)) requests).1
  exact ⟨by decide, kept.accepted.trans (by decide), kept.consumed.trans (by decide)⟩

end Plain

end WiFiClientSecure
end Esp8266.Source.BearSSL
