import Esp8266.Lib.Runs
import Esp8266.Source.ArduinoOta

/-!
# Who may start an OTA update

With a password, an update starts only after the answer to the challenge of the last accepted
invitation, and it uses what that invitation said. The argument is over the log of a run: which
invitations were accepted, on which datagram OTA_RUNUPDATE was entered, and what the update then
asked of the updater and the TCP client. Datagrams may come in at any place of `_runUpdate`.
-/
set_option autoImplicit false

namespace Esp8266.Source

/-! ## The strings -/

theorem WString.equalsConstantTime_iff {s s2 : WString} (plain : 0 ∉ s) :
    s.equalsConstantTime s2 = true ↔ s = s2 := by
  rw [equalsConstantTime, cstr_of_not_mem plain]
  by_cases lengths : s.length = s2.length
  · rw [if_neg (not_not.mpr lengths)]
    by_cases empty : s.length = 0
    · have s_nil : s = [] := List.length_eq_zero_iff.mp empty
      have s2_nil : s2 = [] := List.length_eq_zero_iff.mp (lengths ▸ empty)
      subst s_nil s2_nil
      exact ⟨fun _ => rfl, fun _ => rfl⟩
    · simp only [if_neg empty, Bool.and_eq_true, decide_eq_true_eq]
      have zipped : (s.zip s2).length = s.length := by
        rw [List.length_zip, ← lengths, Nat.min_self]
      constructor
      · rintro ⟨equalchars, -⟩
        have all := List.countP_eq_length.mp (equalchars.trans zipped.symm)
        apply List.ext_getElem lengths
        intro i left right
        have mem : (s[i], s2[i]) ∈ s.zip s2 := by
          rw [List.mem_iff_getElem]
          exact ⟨i, by rw [zipped]; exact left, List.getElem_zip⟩
        simpa using all _ mem
      · rintro rfl
        have same : ∀ p ∈ s.zip s, p.1 = p.2 := by
          intro p mem
          obtain ⟨i, bound, rfl⟩ := List.mem_iff_getElem.mp mem
          rw [List.getElem_zip]
        constructor
        · rw [← zipped]
          exact List.countP_eq_length.mpr fun p mem => by simpa using same p mem
        · exact List.countP_eq_zero.mpr fun p mem => by simpa using same p mem
  · rw [if_pos lengths]
    constructor
    · intro impossible
      cases impossible
    · rintro rfl
      exact absurd rfl lengths

namespace Ota
open Esp8266.Lib.Decimal Esp8266.Lib.Runs Esp8266.Source.WString Esp8266.Source.Updater

/-! ## MD5 sums -/

theorem Digest.plain (d : Digest) : 0 ∉ d.text := by
  intro mem
  rcases d.hex 0 mem with ⟨low, -⟩ | ⟨low, -⟩
  · exact absurd low (by decide)
  · exact absurd low (by decide)

theorem md5Builder_eq (md5 : List UInt8 → Digest) {data : WString} (plain : 0 ∉ data)
    (fits : data.length < 2 ^ 16) : md5Builder md5 data = (md5 data).text := by
  rw [md5Builder, cstr_of_not_mem plain, Nat.mod_eq_of_lt fits, List.take_length]

theorem md5Builder_plain (md5 : List UInt8 → Digest) (data : WString) :
    0 ∉ md5Builder md5 data :=
  Digest.plain _

/-- The string that the answer to a challenge is the MD5 sum of. -/
def challenge (password nonce cnonce : WString) : WString :=
  password ++ [0x3a] ++ nonce ++ [0x3a] ++ cnonce

theorem builds_challenge (md5 : List UInt8 → Digest) {password nonce cnonce : WString}
    (plain : 0 ∉ password) (fits : password.length + 66 < 2 ^ 16)
    (nonce_eq : ∃ data, nonce = (md5 data).text) (cnonce_plain : 0 ∉ cnonce)
    (cnonce_length : cnonce.length = 32) :
    md5Builder md5 (password ++ [0x3a] ++ nonce ++ [0x3a] ++ cnonce) =
      (md5 (challenge password nonce cnonce)).text := by
  obtain ⟨data, rfl⟩ := nonce_eq
  apply md5Builder_eq
  · simp [plain, cnonce_plain, Digest.plain]
  · simp only [List.length_append, List.length_singleton, Digest.length_text, cnonce_length]
    omega

/-! ## The queue of datagrams -/

namespace UdpContext

/-- As it is between two calls of `_onRx`: nothing waits behind the current datagram. -/
structure Settled (udp : UdpContext) : Prop where
  chained : udp.chained = []
  taken : udp.rxBuf ≠ none → udp.firstBufTaken = true
  written : udp.txBuf = []

/-- The context when `_onRx` looks at a datagram. -/
def current (d : Datagram) (udp : UdpContext) : UdpContext :=
  { udp with
    rxBuf := some d.bytes
    chained := []
    firstBufTaken := true
    srcAddr := d.address
    srcPort := d.port }

/-- `_onRx` gets the datagram that came in. -/
theorem next_recv {udp : UdpContext} (settled : udp.Settled) (d : Datagram) :
    (udp.recv d).next = (true, udp.current d) := by
  obtain ⟨chained, taken, -⟩ := settled
  cases buf : udp.rxBuf with
  | none => simp [recv, next, current, buf, chained]
  | some bytes =>
    have before : udp.firstBufTaken = true := taken (by rw [buf]; exact Option.some_ne_none _)
    simp [recv, next, current, buf, chained, before]

theorem flushAll_settled {udp : UdpContext} (chained : udp.chained = [])
    (taken : udp.firstBufTaken = true) (fuel : Nat) :
    udp.flushAll (fuel + 1) = { udp with rxBuf := none } := by
  cases buf : udp.rxBuf with
  | none =>
    simp only [flushAll, next, buf, if_false, Bool.false_eq_true]
    rw [← buf]
  | some bytes => simp [flushAll, next, buf, chained, taken]

end UdpContext

/-! ## What a datagram says -/

structure Invitation where
  address : Nat
  port : Nat
  cmd : Nat
  size : Nat
  md5 : WString
deriving DecidableEq

def invitation (d : Datagram) : Invitation :=
  let (cmd, bytes) := ArduinoOTAClass.parseInt d.bytes
  let (port, bytes) := ArduinoOTAClass.parseInt bytes
  let (size, bytes) := ArduinoOTAClass.parseInt bytes
  let (md5, _) := ArduinoOTAClass.readStringUntil 0x0a (bytes.drop 1)
  { address := d.address, port := port % 2 ^ 16, cmd, size, md5 := md5.trim }

/-- The datagram contains a cnonce and behind it the answer to the challenge. -/
def Proves (md5 : List UInt8 → Digest) (password nonce : WString) (bytes : List UInt8) : Prop :=
  ∃ front cnonce separator rest, cnonce.length = 32 ∧
    bytes = front ++ cnonce ++ separator :: (md5 (challenge password nonce cnonce)).text ++ rest

namespace ArduinoOTAClass

/-- The members that an update is run with. -/
structure Holds (s : ArduinoOTAClass) (i : Invitation) : Prop where
  address : s.otaIp = i.address
  port : s.otaPort = i.port
  cmd : s.cmd = i.cmd
  size : s.size = i.size
  md5 : s.md5 = i.md5

theorem token_eq {α : Type} (parse : List UInt8 → α × List UInt8) (s : ArduinoOTAClass) :
    s.token parse = ((parse (s.udp.rxBuf.getD [])).1,
      { s with udp := { s.udp with rxBuf := some (parse (s.udp.rxBuf.getD [])).2 } }) := rfl

theorem skip_eq (s : ArduinoOTAClass) : s.skip =
    { s with udp := { s.udp with rxBuf := some ((s.udp.rxBuf.getD []).drop 1) } } := rfl

/-- With a password an invitation is turned down or answered with a challenge. -/
theorem onInvitation_locked (md5 : List UInt8 → Digest) (micros : Nat) {s : ArduinoOTAClass}
    {d : Datagram} (locked : s.password.length ≠ 0) (bytes : s.udp.rxBuf = some d.bytes)
    (source : s.udp.srcAddr = d.address) (written : s.udp.txBuf = []) :
    ∃ s', s.onInvitation md5 micros = (false, s') ∧ s'.password = s.password ∧
      s'.udp.chained = s.udp.chained ∧ s'.udp.firstBufTaken = s.udp.firstBufTaken ∧
      s'.udp.txBuf = [] ∧
      (s'.state = s.state ∨
        s'.state = .waitAuth ∧ s'.Holds (invitation d) ∧ (∃ data, s'.nonce = (md5 data).text) ∧
          s'.udp.sent = ⟨ofString "AUTH " ++ s'.nonce, s'.otaIp, s'.otaUdpPort⟩ :: s.udp.sent) := by
  simp only [onInvitation, token_eq, skip_eq, bytes, Option.getD_some]
  split_ifs with command text
  · exact ⟨_, rfl, rfl, rfl, rfl, written, .inl rfl⟩
  · exact ⟨_, rfl, rfl, rfl, rfl, written, .inl rfl⟩
  · refine ⟨_, rfl, rfl, rfl, rfl, rfl, .inr ⟨rfl, ?_, ⟨_, rfl⟩, ?_⟩⟩
    · rw [invitation]
      exact ⟨source, rfl, rfl, rfl, rfl⟩
    · simp only [answer, UdpContext.append, UdpContext.send, written, List.nil_append]

theorem readStringUntil_bytes (stop : UInt8) (bytes : List UInt8) :
    bytes = (readStringUntil stop bytes).1 ∧ (readStringUntil stop bytes).2 = [] ∨
      ∃ separator, bytes =
        (readStringUntil stop bytes).1 ++ separator :: (readStringUntil stop bytes).2 := by
  induction bytes with
  | nil => exact .inl ⟨rfl, rfl⟩
  | cons c bytes ih =>
    rw [readStringUntil]
    by_cases ends : c = 0 ∨ c = stop
    · rw [if_pos ends]
      exact .inr ⟨c, rfl⟩
    · rw [if_neg ends]
      rcases ih with ⟨whole, none⟩ | ⟨separator, split⟩
      · exact .inl ⟨congrArg (c :: ·) whole, none⟩
      · exact .inr ⟨separator, congrArg (c :: ·) split⟩

theorem not_mem_readStringUntil (stop : UInt8) (bytes : List UInt8) :
    0 ∉ (readStringUntil stop bytes).1 := by
  induction bytes with
  | nil => exact List.not_mem_nil
  | cons c bytes ih =>
    rw [readStringUntil]
    by_cases ends : c = 0 ∨ c = stop
    · rw [if_pos ends]
      exact List.not_mem_nil
    · rw [if_neg ends, List.mem_cons, not_or]
      exact ⟨fun zero => ends (.inl zero.symm), ih⟩

theorem parseDigits_suffix (room : Nat) : ∀ (data : WString) (bytes : List UInt8),
    ∃ read, bytes = read ++ (parseDigits room data bytes).2 := by
  induction room with
  | zero => intro data bytes; exact ⟨[], rfl⟩
  | succ room ih =>
    intro data bytes
    cases bytes with
    | nil => exact ⟨[], rfl⟩
    | cons c bytes =>
      rw [parseDigits]
      by_cases ends : c < 0x30 ∨ c > 0x39
      · rw [if_pos ends]
        exact ⟨[], rfl⟩
      · rw [if_neg ends]
        obtain ⟨read, split⟩ := ih (data ++ [c]) bytes
        exact ⟨c :: read, congrArg (c :: ·) split⟩

theorem parseInt_suffix (bytes : List UInt8) : ∃ read, bytes = read ++ (parseInt bytes).2 := by
  obtain ⟨read, split⟩ := parseDigits_suffix 16 [] (bytes.dropWhile (· = 0x20))
  refine ⟨bytes.takeWhile (· = 0x20) ++ read, ?_⟩
  rw [List.append_assoc, parseInt, ← split, List.takeWhile_append_dropWhile]

/-- Two strings in a row, the second not empty, stand in the bytes with one byte between them. -/
theorem two_strings {stop stop' : UInt8} {bytes : List UInt8}
    (some : (readStringUntil stop' (readStringUntil stop bytes).2).1 ≠ []) :
    ∃ separator rest, bytes = (readStringUntil stop bytes).1 ++
      separator :: (readStringUntil stop' (readStringUntil stop bytes).2).1 ++ rest := by
  rcases readStringUntil_bytes stop bytes with ⟨-, none⟩ | ⟨separator, split⟩
  · rw [none] at some
    exact absurd rfl some
  · refine ⟨separator, ?_⟩
    rcases readStringUntil_bytes stop' (readStringUntil stop bytes).2 with
      ⟨whole, -⟩ | ⟨separator', split'⟩
    · refine ⟨[], ?_⟩
      rw [List.append_nil, ← whole]
      exact split
    · refine ⟨separator' :: (readStringUntil stop' (readStringUntil stop bytes).2).2, ?_⟩
      rw [List.append_assoc, List.cons_append, ← split']
      exact split

theorem proves_of_tokens (md5 : List UInt8 → Digest) {password nonce : WString}
    {bytes : List UInt8} (cnonce : (readStringUntil 0x20 ((parseInt bytes).2.drop 1)).1.length = 32)
    (response : (readStringUntil 0x0a
      (readStringUntil 0x20 ((parseInt bytes).2.drop 1)).2).1.length = 32)
    (matching :
      (md5 (challenge password nonce (readStringUntil 0x20 ((parseInt bytes).2.drop 1)).1)).text =
        (readStringUntil 0x0a (readStringUntil 0x20 ((parseInt bytes).2.drop 1)).2).1) :
    Proves md5 password nonce bytes := by
  obtain ⟨read, read_eq⟩ := parseInt_suffix bytes
  have some : (readStringUntil 0x0a
      (readStringUntil 0x20 ((parseInt bytes).2.drop 1)).2).1 ≠ [] := by
    intro none
    rw [none] at response
    cases response
  obtain ⟨separator, rest, split⟩ := two_strings some
  rw [← matching] at split
  refine ⟨read ++ (parseInt bytes).2.take 1, _, separator, rest, cnonce, ?_⟩
  calc bytes = read ++ (parseInt bytes).2 := read_eq
    _ = read ++ ((parseInt bytes).2.take 1 ++ (parseInt bytes).2.drop 1) := by
      rw [List.take_append_drop]
    _ = _ := congrArg (fun t => read ++ ((parseInt bytes).2.take 1 ++ t)) split
    _ = _ := by simp only [List.append_assoc]

/-- Whatever the datagram is, the invitation and the nonce stay; OTA_RUNUPDATE is entered only on
the answer to the challenge. -/
theorem onResponse_spec (md5 : List UInt8 → Digest) {s : ArduinoOTAClass} {d : Datagram}
    (bytes : s.udp.rxBuf = some d.bytes) (written : s.udp.txBuf = [])
    (password : 0 ∉ s.password) (fits : s.password.length + 66 < 2 ^ 16)
    (nonce : ∃ data, s.nonce = (md5 data).text) :
    ∃ goesOn s', s.onResponse md5 = (goesOn, s') ∧ s'.password = s.password ∧
      s'.nonce = s.nonce ∧ s'.udp.chained = s.udp.chained ∧
      s'.udp.firstBufTaken = s.udp.firstBufTaken ∧ s'.udp.txBuf = [] ∧
      (∀ i, s.Holds i → s'.Holds i) ∧
      (s'.state = .idle ∨ s'.state = .runUpdate ∧ Proves md5 s.password s.nonce d.bytes) := by
  have keeps {s' : ArduinoOTAClass} (address : s'.otaIp = s.otaIp) (port : s'.otaPort = s.otaPort)
      (cmd : s'.cmd = s.cmd) (size : s'.size = s.size) (text : s'.md5 = s.md5) (i : Invitation)
      (holds : s.Holds i) : s'.Holds i :=
    ⟨address.trans holds.address, port.trans holds.port, cmd.trans holds.cmd,
      size.trans holds.size, text.trans holds.md5⟩
  simp only [onResponse, token_eq, skip_eq, bytes, Option.getD_some]
  split_ifs with command lengths result
  · exact ⟨_, _, rfl, rfl, rfl, rfl, rfl, written, keeps rfl rfl rfl rfl rfl, .inl rfl⟩
  · exact ⟨_, _, rfl, rfl, rfl, rfl, rfl, written, keeps rfl rfl rfl rfl rfl, .inl rfl⟩
  · refine ⟨_, _, rfl, rfl, rfl, rfl, rfl, written, keeps rfl rfl rfl rfl rfl, .inr ⟨rfl, ?_⟩⟩
    have both : _ ∧ _ := ⟨not_not.mp (not_or.mp lengths).1, not_not.mp (not_or.mp lengths).2⟩
    have matching := (WString.equalsConstantTime_iff (md5Builder_plain md5 _)).mp result
    exact proves_of_tokens md5 both.1 both.2 <| Eq.trans
      (builds_challenge md5 password fits nonce (not_mem_readStringUntil _ _) both.1).symm matching
  · exact ⟨_, _, rfl, rfl, rfl, rfl, rfl, rfl, keeps rfl rfl rfl rfl rfl, .inl rfl⟩

theorem Holds.withUdp {s : ArduinoOTAClass} {i : Invitation} (holds : s.Holds i)
    {udp : UdpContext} : { s with udp }.Holds i :=
  ⟨holds.address, holds.port, holds.cmd, holds.size, holds.md5⟩

/-- The end of `_onRx`, after an early return or not. -/
theorem flush_spec {s : ArduinoOTAClass} (goesOn : Bool) (chained : s.udp.chained = [])
    (taken : s.udp.firstBufTaken = true) (written : s.udp.txBuf = []) :
    ∃ udp : UdpContext, udp.Settled ∧ udp.sent = s.udp.sent ∧
      (if goesOn then { s with udp := s.udp.flushAll (s.udp.chained.length + 2) } else s) =
        { s with udp } := by
  cases goesOn with
  | false => exact ⟨s.udp, ⟨chained, fun _ => taken, written⟩, rfl, rfl⟩
  | true =>
    refine ⟨{ s.udp with rxBuf := none }, ⟨chained, fun some => absurd rfl some, written⟩, rfl, ?_⟩
    rw [if_pos rfl, UdpContext.flushAll_settled chained taken]

/-- What a datagram can do. -/
inductive Received (md5 : List UInt8 → Digest) (d : Datagram) (s s' : ArduinoOTAClass) : Prop where
  | ignored (was : s.state ≠ .runUpdate) (state : s'.state = .idle)
  | invited (was : s.state = .idle) (state : s'.state = .waitAuth) (holds : s'.Holds (invitation d))
      (nonce : ∃ data, s'.nonce = (md5 data).text)
      (sent : s'.udp.sent = ⟨ofString "AUTH " ++ s'.nonce, s'.otaIp, s'.otaUdpPort⟩ :: s.udp.sent)
  | proved (was : s.state = .waitAuth) (state : s'.state = .runUpdate)
      (holds : ∀ i, s.Holds i → s'.Holds i) (proves : Proves md5 s.password s.nonce d.bytes)
  | flushed (was : s.state = .runUpdate) (state : s'.state = .runUpdate)
      (holds : ∀ i, s.Holds i → s'.Holds i)

theorem onRx_spec (md5 : List UInt8 → Digest) (micros : Nat) (d : Datagram) {s : ArduinoOTAClass}
    (settled : s.udp.Settled) (locked : s.password.length ≠ 0) (plain : 0 ∉ s.password)
    (fits : s.password.length + 66 < 2 ^ 16)
    (nonce : s.state = .waitAuth → ∃ data, s.nonce = (md5 data).text) :
    let s' := { s with udp := s.udp.recv d }.onRx md5 micros
    s'.password = s.password ∧ s'.udp.Settled ∧ Received md5 d s s' := by
  simp only [onRx, UdpContext.next_recv settled]
  cases was : s.state with
  | idle =>
    obtain ⟨s', run, password, chained, taken, written, outcome⟩ :=
      onInvitation_locked md5 micros (s := { s with udp := s.udp.current d }) (d := d) locked rfl rfl
        settled.written
    simp only [was] at run
    simp only [run, Bool.not_true, Bool.false_eq_true, if_false]
    refine ⟨password, ⟨chained, fun _ => taken, written⟩, ?_⟩
    rcases outcome with state | ⟨state, holds, text, sent⟩
    · exact .ignored (by rw [was]; decide) (state.trans was)
    · exact .invited was state holds text sent
  | waitAuth =>
    obtain ⟨goesOn, s', run, password, same, chained, taken, written, holds, outcome⟩ :=
      onResponse_spec md5 (s := { s with udp := s.udp.current d }) (d := d) rfl settled.written plain
        fits (nonce was)
    simp only [was] at run
    simp only [run, Bool.not_true, Bool.false_eq_true, if_false]
    obtain ⟨udp, settled', -, finish⟩ := flush_spec goesOn chained taken written
    rw [finish]
    refine ⟨password, settled', ?_⟩
    have keeps (i : Invitation) (before : s.Holds i) : { s' with udp }.Holds i :=
      (holds i before.withUdp).withUdp
    rcases outcome with state | ⟨state, proves⟩
    · exact .ignored (by rw [was]; decide) state
    · exact .proved was state keeps proves
  | runUpdate =>
    simp only [Bool.not_true, Bool.false_eq_true, if_false, if_true]
    have flushed : (s.udp.current d).flushAll ((s.udp.current d).chained.length + 2) =
        { s.udp.current d with rxBuf := none } := UdpContext.flushAll_settled rfl rfl _
    rw [flushed]
    refine ⟨trivial, ⟨rfl, fun some => absurd rfl some, settled.written⟩, .flushed was rfl ?_⟩
    intro i before
    exact ⟨before.address, before.port, before.cmd, before.size, before.md5⟩

end ArduinoOTAClass

/-! ## The log of a run -/

inductive Entry where
  /-- An invitation was accepted; the nonce is the one that was sent. -/
  | invited (invitation : Invitation) (nonce : WString)
  /-- OTA_RUNUPDATE was entered, on a datagram or without one. -/
  | entered (datagram : Option Datagram)
  | called (call : Call)

/-- The text behind `AUTH ` in the datagram that was sent last. -/
def sentNonce (udp : UdpContext) : WString :=
  match udp.sent with
  | [] => []
  | d :: _ => d.bytes.drop 5

def Event.datagram : Event → Option Datagram
  | .receive datagram _ => some datagram
  | .goOn _ => none

/-- What a step adds to the log, the last entry first. -/
def entries (event : Event) (before : Device) (outcome : List Call × Device) : List Entry :=
  let state := before.ota.state
  let state' := outcome.2.ota.state
  outcome.1.reverse.map .called ++
    (if state ≠ .runUpdate ∧ state' = .runUpdate then [.entered event.datagram] else []) ++
    if state = .idle ∧ state' = .waitAuth then
      (event.datagram.map fun d =>
        .invited (invitation d) (sentNonce outcome.2.ota.udp)).toList
    else []

/-- A device with the log of its run. -/
structure Watched where
  device : Device
  log : List Entry

def watch (md5 : List UInt8 → Digest) (event : Event) (w : Watched) : List Call × Watched :=
  let outcome := step md5 event w.device
  (outcome.1, { device := outcome.2, log := entries event w.device outcome ++ w.log })

/-! ## What a log must look like -/

/-- The invitation that was accepted last, and its nonce. -/
def latest : List Entry → Option (Invitation × WString)
  | [] => none
  | .invited invitation nonce :: _ => some (invitation, nonce)
  | .entered _ :: past => latest past
  | .called _ :: past => latest past

/-- The entries after that. -/
def since : List Entry → List Entry
  | [] => []
  | .invited _ _ :: _ => []
  | .entered datagram :: past => .entered datagram :: since past
  | .called call :: past => .called call :: since past

def Entered (log : List Entry) : Prop := ∃ datagram, .entered datagram ∈ since log

def Begun (log : List Entry) : Prop := ∃ size cmd, .called (.begin size cmd) ∈ since log

/-- An entry is right after what the log says before it: OTA_RUNUPDATE is entered on the answer to
the challenge of the last invitation, and an update is begun after that, at most once, and run
with what this invitation said. -/
def Justified (md5 : List UInt8 → Digest) (password : WString) (past : List Entry) : Entry → Prop
  | .invited _ _ => True
  | .entered datagram =>
    ∃ i nonce d, latest past = some (i, nonce) ∧ datagram = some d ∧
      Proves md5 password nonce d.bytes
  | .called (.begin size cmd) =>
    ∃ i nonce, latest past = some (i, nonce) ∧ Entered past ∧ ¬ Begun past ∧
      size = i.size ∧ cmd = i.cmd
  | .called (.setMD5 expected) =>
    ∃ i nonce, latest past = some (i, nonce) ∧ Begun past ∧ expected = i.md5
  | .called (.connect address port) =>
    ∃ i nonce, latest past = some (i, nonce) ∧ Begun past ∧ address = i.address ∧ port = i.port
  | .called (.progress total size) =>
    total = 0 → ∃ i nonce, latest past = some (i, nonce) ∧ Begun past ∧ size = i.size

/-- Every entry is right after those before it. -/
inductive Sound (md5 : List UInt8 → Digest) (password : WString) : List Entry → Prop where
  | nil : Sound md5 password []
  | cons {entry : Entry} {past : List Entry} (justified : Justified md5 password past entry)
      (sound : Sound md5 password past) : Sound md5 password (entry :: past)

theorem Begun.called {log : List Entry} (begun : Begun log) (call : Call) :
    Begun (.called call :: log) := by
  obtain ⟨size, cmd, mem⟩ := begun
  exact ⟨size, cmd, List.mem_cons_of_mem _ mem⟩

theorem Entered.called {log : List Entry} (entered : Entered log) (call : Call) :
    Entered (.called call :: log) := by
  obtain ⟨datagram, mem⟩ := entered
  exact ⟨datagram, List.mem_cons_of_mem _ mem⟩

theorem not_begun_entered {log : List Entry} (fresh : ¬ Begun log) (datagram : Option Datagram) :
    ¬ Begun (.entered datagram :: log) := by
  rintro ⟨size, cmd, mem⟩
  rcases List.mem_cons.mp mem with impossible | before
  · cases impossible
  · exact fresh ⟨size, cmd, before⟩

theorem not_begun_invited (i : Invitation) (nonce : WString) (log : List Entry) :
    ¬ Begun (.invited i nonce :: log) := by
  rintro ⟨size, cmd, mem⟩
  cases mem

/-! ## The invariant -/

/-- The places of `_runUpdate` before the connection. -/
def Pc.opening : Pc → Prop
  | .accepted | .starting | .announced => True
  | _ => False

/-- A device with a password, and its log. -/
structure Guarded (md5 : List UInt8 → Digest) (password : WString) (w : Watched) : Prop where
  kept : w.device.ota.password = password
  settled : w.device.ota.udp.Settled
  sound : Sound md5 password w.log
  waiting : w.device.ota.state = .waitAuth → ∃ i,
    latest w.log = some (i, w.device.ota.nonce) ∧ w.device.ota.Holds i ∧
      (∃ data, w.device.ota.nonce = (md5 data).text) ∧ ¬ Begun w.log
  ready : w.device.ota.state = .runUpdate → ∃ i nonce,
    latest w.log = some (i, nonce) ∧ w.device.ota.Holds i ∧ Entered w.log ∧
      (w.device.pc = .outside → ¬ Begun w.log)
  opening : w.device.pc.opening → w.device.ota.state = .runUpdate ∧ Begun w.log

section Steps

variable {md5 : List UInt8 → Digest} {password : WString} {w : Watched}

/-- A datagram that turns an invitation or an answer down. -/
theorem Guarded.ignored (guarded : Guarded md5 password w) {ota : ArduinoOTAClass}
    (kept : ota.password = w.device.ota.password) (settled : ota.udp.Settled)
    (was : w.device.ota.state ≠ .runUpdate) (state : ota.state = .idle) :
    Guarded md5 password ⟨{ w.device with ota }, w.log⟩ := by
  refine ⟨kept.trans guarded.kept, settled, guarded.sound, ?_, ?_, ?_⟩
  · intro waits
    rw [state] at waits
    cases waits
  · intro runs
    rw [state] at runs
    cases runs
  · intro opens
    exact absurd (guarded.opening opens).1 was

theorem Guarded.invited (guarded : Guarded md5 password w) {ota : ArduinoOTAClass} {d : Datagram}
    (kept : ota.password = w.device.ota.password) (settled : ota.udp.Settled)
    (was : w.device.ota.state = .idle) (state : ota.state = .waitAuth)
    (holds : ota.Holds (invitation d)) (nonce : ∃ data, ota.nonce = (md5 data).text) :
    Guarded md5 password
      ⟨{ w.device with ota }, .invited (invitation d) ota.nonce :: w.log⟩ := by
  refine ⟨kept.trans guarded.kept, settled, .cons trivial guarded.sound, ?_, ?_, ?_⟩
  · intro _
    exact ⟨invitation d, rfl, holds, nonce, not_begun_invited _ _ _⟩
  · intro runs
    rw [state] at runs
    cases runs
  · intro opens
    have runs := (guarded.opening opens).1
    rw [was] at runs
    cases runs

theorem Guarded.proved (guarded : Guarded md5 password w) {ota : ArduinoOTAClass} {d : Datagram}
    (kept : ota.password = w.device.ota.password) (settled : ota.udp.Settled)
    (was : w.device.ota.state = .waitAuth) (state : ota.state = .runUpdate)
    (holds : ∀ i, w.device.ota.Holds i → ota.Holds i)
    (proves : Proves md5 w.device.ota.password w.device.ota.nonce d.bytes) :
    Guarded md5 password ⟨{ w.device with ota }, .entered (some d) :: w.log⟩ := by
  obtain ⟨i, last, held, -, fresh⟩ := guarded.waiting was
  rw [guarded.kept] at proves
  refine ⟨kept.trans guarded.kept, settled,
    .cons ⟨i, _, d, last, rfl, proves⟩ guarded.sound, ?_, ?_, ?_⟩
  · intro waits
    rw [state] at waits
    cases waits
  · intro _
    exact ⟨i, _, last, holds i held, ⟨some d, List.mem_cons_self⟩,
      fun _ => not_begun_entered fresh (some d)⟩
  · intro opens
    have runs := (guarded.opening opens).1
    rw [was] at runs
    cases runs

theorem Guarded.flushed (guarded : Guarded md5 password w) {ota : ArduinoOTAClass}
    (kept : ota.password = w.device.ota.password) (settled : ota.udp.Settled)
    (was : w.device.ota.state = .runUpdate) (state : ota.state = .runUpdate)
    (holds : ∀ i, w.device.ota.Holds i → ota.Holds i) :
    Guarded md5 password ⟨{ w.device with ota }, w.log⟩ := by
  refine ⟨kept.trans guarded.kept, settled, guarded.sound, ?_, ?_, ?_⟩
  · intro waits
    rw [state] at waits
    cases waits
  · intro _
    obtain ⟨i, nonce, last, held, rest⟩ := guarded.ready was
    exact ⟨i, nonce, last, holds i held, rest⟩
  · intro opens
    exact ⟨state, (guarded.opening opens).2⟩

theorem sentNonce_cons {udp : UdpContext} {nonce : WString} {address port : Nat}
    {sent : List Datagram} (last : udp.sent = ⟨ofString "AUTH " ++ nonce, address, port⟩ :: sent) :
    sentNonce udp = nonce := by
  rw [sentNonce, last]
  exact List.drop_left' rfl

theorem guarded_receive (locked : password.length ≠ 0) (plain : 0 ∉ password)
    (fits : password.length + 66 < 2 ^ 16) (guarded : Guarded md5 password w) (d : Datagram)
    (micros : Nat) : Guarded md5 password (watch md5 (.receive d micros) w).2 := by
  by_cases restarted : w.device.pc = .restarted
  · have same : w.device.receive md5 d micros = w.device := if_pos restarted
    have none : entries (.receive d micros) w.device ([], w.device) = [] := by
      cases state : w.device.ota.state <;> simp [entries, state]
    simp only [watch, step, same, none, List.nil_append]
    exact guarded
  · obtain ⟨kept, settled, received⟩ := ArduinoOTAClass.onRx_spec md5 micros d guarded.settled
      (by rw [guarded.kept]; exact locked) (by rw [guarded.kept]; exact plain)
      (by rw [guarded.kept]; exact fits)
      (fun waits => by obtain ⟨i, -, -, nonce, -⟩ := guarded.waiting waits; exact nonce)
    have run : w.device.receive md5 d micros = { w.device with ota :=
        { w.device.ota with udp := w.device.ota.udp.recv d }.onRx md5 micros } := if_neg restarted
    simp only [watch, step, run]
    generalize { w.device.ota with udp := w.device.ota.udp.recv d }.onRx md5 micros = ota at *
    cases received with
    | ignored was state =>
      simp only [entries, state]
      simpa using guarded.ignored kept settled was state
    | invited was state holds nonce sent =>
      simp only [entries, Event.datagram, was, state, sentNonce_cons sent]
      simpa using guarded.invited kept settled was state holds nonce
    | proved was state holds proves =>
      simp only [entries, Event.datagram, was, state]
      simpa using guarded.proved kept settled was state holds proves
    | flushed was state holds =>
      simp only [entries, was, state]
      simpa using guarded.flushed kept settled was state holds

theorem watch_goOn (w : Watched) {a : Answer} {calls : List Call} {d : Device}
    (run : w.device.goOn a = (calls, d))
    (quiet : d.ota.state = w.device.ota.state ∨ d.ota.state = .idle) :
    (watch md5 (.goOn a) w).2 = ⟨d, calls.reverse.map .called ++ w.log⟩ := by
  have never : ¬(w.device.ota.state ≠ .runUpdate ∧ d.ota.state = .runUpdate) := by
    rintro ⟨other, state⟩
    rcases quiet with same | idle
    · exact other (same.symm.trans state)
    · rw [idle] at state
      cases state
  simp only [watch, step, run, entries, if_neg never, Event.datagram, Option.map_none,
    Option.toList_none, ite_self, List.append_nil]

/-- A step without a call that leaves the members alone or ends the update. -/
theorem Guarded.silent (guarded : Guarded md5 password w) {d : Device} (opening : ¬ d.pc.opening)
    (outcome : d.ota = { w.device.ota with state := .idle } ∨
      d.ota = w.device.ota ∧ d.pc ≠ .outside) : Guarded md5 password ⟨d, w.log⟩ := by
  rcases outcome with idle | ⟨same, inside⟩
  · refine ⟨?_, ?_, guarded.sound, ?_, ?_, fun opens => absurd opens opening⟩
    · simp only [idle, guarded.kept]
    · simpa only [idle] using guarded.settled
    · intro state
      simp only [idle] at state
      cases state
    · intro state
      simp only [idle] at state
      cases state
  · refine ⟨?_, ?_, guarded.sound, ?_, ?_, fun opens => absurd opens opening⟩
    · simp only [same, guarded.kept]
    · simpa only [same] using guarded.settled
    · simpa only [same] using guarded.waiting
    · intro state
      simp only [same] at state ⊢
      obtain ⟨i, nonce, last, holds, entered, -⟩ := guarded.ready state
      exact ⟨i, nonce, last, holds, entered, fun outside => absurd outside inside⟩

/-- A step inside of the update with a call that leaves the members alone. -/
theorem Guarded.call (guarded : Guarded md5 password w) {d : Device} {call : Call}
    (justified : Justified md5 password w.log (.called call)) (same : d.ota = w.device.ota)
    (inside : d.pc ≠ .outside) (later : ∀ size cmd, call ≠ .begin size cmd)
    (opening : d.pc.opening → w.device.pc.opening) :
    Guarded md5 password ⟨d, .called call :: w.log⟩ := by
  refine ⟨?_, ?_, .cons justified guarded.sound, ?_, ?_, ?_⟩
  · simp only [same, guarded.kept]
  · simpa only [same] using guarded.settled
  · intro state
    simp only [same] at state ⊢
    obtain ⟨i, last, holds, nonce, fresh⟩ := guarded.waiting state
    refine ⟨i, last, holds, nonce, ?_⟩
    rintro ⟨size, cmd, mem⟩
    rcases List.mem_cons.mp mem with this | before
    · exact later size cmd (Entry.called.inj this).symm
    · exact fresh ⟨size, cmd, before⟩
  · intro state
    simp only [same] at state ⊢
    obtain ⟨i, nonce, last, holds, entered, -⟩ := guarded.ready state
    exact ⟨i, nonce, last, holds, entered.called call, fun outside => absurd outside inside⟩
  · intro opens
    obtain ⟨state, begun⟩ := guarded.opening (opening opens)
    simp only [same]
    exact ⟨state, begun.called call⟩

/-- The update is begun. -/
theorem guarded_begin (guarded : Guarded md5 password w) (outside : w.device.pc = .outside)
    (state : w.device.ota.state = .runUpdate) {d : Device} {text : WString}
    (ota : d.ota = w.device.ota.answer text) (opened : d.pc = .accepted ∨ d.pc = .refused) :
    Guarded md5 password
      ⟨d, .called (.begin w.device.ota.size w.device.ota.cmd) :: w.log⟩ := by
  obtain ⟨i, nonce, last, holds, entered, fresh⟩ := guarded.ready state
  have state' : d.ota.state = .runUpdate := by
    rw [ota]
    exact state
  have begun : Begun (.called (.begin w.device.ota.size w.device.ota.cmd) :: w.log) :=
    ⟨_, _, List.mem_cons_self⟩
  refine ⟨?_, ?_,
    .cons ⟨i, nonce, last, entered, fresh outside, holds.size, holds.cmd⟩ guarded.sound, ?_, ?_,
    fun _ => ⟨state', begun⟩⟩
  · rw [ota]
    exact guarded.kept
  · rw [ota]
    exact ⟨guarded.settled.chained, guarded.settled.taken, rfl⟩
  · intro waits
    rw [state'] at waits
    cases waits
  · intro _
    refine ⟨i, nonce, last, ?_, entered.called _, ?_⟩
    · rw [ota]
      exact ⟨holds.address, holds.port, holds.cmd, holds.size, holds.md5⟩
    · intro outside'
      rcases opened with pc | pc
      · rw [pc] at outside'
        cases outside'
      · rw [pc] at outside'
        cases outside'

theorem guarded_goOn (guarded : Guarded md5 password w) (a : Answer) :
    Guarded md5 password (watch md5 (.goOn a) w).2 := by
  obtain ⟨⟨ota, pc, printed⟩, log⟩ := w
  cases pc with
  | outside =>
    cases state : ota.state with
    | runUpdate =>
      cases ok : a.ok with
      | true =>
        have run : Device.goOn a ⟨ota, .outside, printed⟩ = ([.begin ota.size ota.cmd],
            ⟨ota.answer (ofString "OK"), .accepted, []⟩) := by
          simp only [Device.goOn, if_pos state, if_pos ok]
        rw [watch_goOn ⟨⟨ota, .outside, printed⟩, log⟩ run (.inl rfl)]
        exact guarded_begin guarded rfl state rfl (.inl rfl)
      | false =>
        have run : Device.goOn a ⟨ota, .outside, printed⟩ = ([.begin ota.size ota.cmd],
            ⟨ota.answer (ofString "ERR: " ++ a.error), .refused, []⟩) := by
          simp only [Device.goOn, if_pos state, ok, Bool.false_eq_true, if_false]
        rw [watch_goOn ⟨⟨ota, .outside, printed⟩, log⟩ run (.inl rfl)]
        exact guarded_begin guarded rfl state rfl (.inr rfl)
    | _ =>
      have other : ota.state ≠ .runUpdate := by
        rw [state]
        decide
      have run : Device.goOn a ⟨ota, .outside, printed⟩ = ([], ⟨ota, .outside, printed⟩) := by
        simp only [Device.goOn, if_neg other]
      rw [watch_goOn ⟨⟨ota, .outside, printed⟩, log⟩ run (.inl rfl)]
      exact guarded
  | refused =>
    rw [watch_goOn _ rfl (.inr rfl)]
    exact guarded.silent id (.inl rfl)
  | accepted =>
    rw [watch_goOn _ rfl (.inl rfl)]
    obtain ⟨state, begun⟩ := guarded.opening trivial
    obtain ⟨i, nonce, last, holds, -⟩ := guarded.ready state
    exact guarded.call ⟨i, nonce, last, begun, holds.md5⟩ rfl Pc.noConfusion
      (fun _ _ => Call.noConfusion) fun _ => trivial
  | starting =>
    rw [watch_goOn _ rfl (.inl rfl)]
    obtain ⟨state, begun⟩ := guarded.opening trivial
    obtain ⟨i, nonce, last, holds, -⟩ := guarded.ready state
    exact guarded.call (fun _ => ⟨i, nonce, last, begun, holds.size⟩) rfl Pc.noConfusion
      (fun _ _ => Call.noConfusion) fun _ => trivial
  | announced =>
    rw [watch_goOn _ rfl (.inl rfl)]
    obtain ⟨state, begun⟩ := guarded.opening trivial
    obtain ⟨i, nonce, last, holds, -⟩ := guarded.ready state
    exact guarded.call ⟨i, nonce, last, begun, holds.address, holds.port⟩ rfl Pc.noConfusion
      (fun _ _ => Call.noConfusion) fun _ => trivial
  | connecting =>
    rw [watch_goOn _ rfl (.inl rfl)]
    cases a.ok with
    | false => exact guarded.silent id (.inr ⟨rfl, Pc.noConfusion⟩)
    | true => exact guarded.silent id (.inr ⟨rfl, Pc.noConfusion⟩)
  | notConnected =>
    rw [watch_goOn _ rfl (.inr rfl)]
    exact guarded.silent id (.inl rfl)
  | receiving total =>
    have run : ∃ pc', Device.goOn a ⟨ota, .receiving total, printed⟩ = ([], ⟨ota, pc', printed⟩) ∧
        ¬ pc'.opening ∧ pc' ≠ .outside := by
      simp only [Device.goOn]
      split_ifs
      all_goals exact ⟨_, rfl, id, Pc.noConfusion⟩
    obtain ⟨pc', run, opening, inside⟩ := run
    rw [watch_goOn ⟨⟨ota, .receiving total, printed⟩, log⟩ run (.inl rfl)]
    exact guarded.silent opening (.inr ⟨rfl, inside⟩)
  | late total =>
    rw [watch_goOn _ rfl (.inr rfl)]
    exact guarded.silent id (.inl rfl)
  | writing total =>
    by_cases some : 0 < a.written
    · have run : Device.goOn a ⟨ota, .writing total, printed⟩ =
          ([.progress (total + a.written) ota.size],
            ⟨ota, .receiving (total + a.written), printed ++ decimal a.written⟩) := by
        simp only [Device.goOn, if_pos some, Device.print]
      rw [watch_goOn ⟨⟨ota, .writing total, printed⟩, log⟩ run (.inl rfl)]
      exact guarded.call (fun zero => absurd zero (by omega)) rfl Pc.noConfusion
        (fun _ _ => Call.noConfusion) id
    · have run : Device.goOn a ⟨ota, .writing total, printed⟩ =
          ([], ⟨ota, .receiving total, printed⟩) := by
        simp only [Device.goOn, if_neg some]
      rw [watch_goOn ⟨⟨ota, .writing total, printed⟩, log⟩ run (.inl rfl)]
      exact guarded.silent id (.inr ⟨rfl, Pc.noConfusion⟩)
  | flushed =>
    rw [watch_goOn _ rfl (.inl rfl)]
    exact guarded.silent id (.inr ⟨rfl, Pc.noConfusion⟩)
  | succeeded =>
    cases reboot : ota.rebootOnSuccess with
    | true =>
      have run : Device.goOn a ⟨ota, .succeeded, printed⟩ = ([], ⟨ota, .restarted, printed⟩) := by
        simp only [Device.goOn, if_pos reboot]
      rw [watch_goOn ⟨⟨ota, .succeeded, printed⟩, log⟩ run (.inl rfl)]
      exact guarded.silent id (.inr ⟨rfl, Pc.noConfusion⟩)
    | false =>
      have run : Device.goOn a ⟨ota, .succeeded, printed⟩ =
          ([], Device.handled ⟨ota, .succeeded, printed⟩) := by
        simp only [Device.goOn, reboot, Bool.false_eq_true, if_false]
      rw [watch_goOn ⟨⟨ota, .succeeded, printed⟩, log⟩ run (.inr rfl)]
      exact guarded.silent id (.inl rfl)
  | failed =>
    rw [watch_goOn _ rfl (.inr rfl)]
    exact guarded.silent id (.inl rfl)
  | restarted =>
    rw [watch_goOn _ rfl (.inl rfl)]
    exact guarded

end Steps

/-! ## Runs -/

/-- A device with a password, after `begin`. -/
inductive Locked (md5 : List UInt8 → Digest) : ArduinoOTAClass → Prop where
  | password (text : WString) (port : Nat) (reboot : Bool) :
    Locked md5 (((ArduinoOTAClass.construct port).setPassword md5 text).setRebootOnSuccess reboot).begin
  | hash (text : WString) (port : Nat) (reboot : Bool) (some : cstr text ≠ [])
      (fits : (cstr text).length + 66 < 2 ^ 16) :
    Locked md5 (((ArduinoOTAClass.construct port).setPasswordHash text).setRebootOnSuccess reboot).begin

theorem Locked.start {md5 : List UInt8 → Digest} {s : ArduinoOTAClass} (locked : Locked md5 s) :
    s.password.length ≠ 0 ∧ 0 ∉ s.password ∧ s.password.length + 66 < 2 ^ 16 ∧
      s.udp = .init ∧ s.state = .idle := by
  cases locked with
  | password text port reboot =>
    have length : (md5Builder md5 text).length = 32 := Digest.length_text _
    refine ⟨?_, md5Builder_plain md5 text, ?_, rfl, rfl⟩
    · change (md5Builder md5 text).length ≠ 0
      rw [length]
      decide
    · change (md5Builder md5 text).length + 66 < 2 ^ 16
      rw [length]
      decide
  | hash text port reboot some fits =>
    refine ⟨?_, not_mem_cstr text, fits, rfl, rfl⟩
    change (cstr text).length ≠ 0
    rw [Ne, List.length_eq_zero_iff]
    exact some

/-- The device as it is set up. -/
def Watched.start (s : ArduinoOTAClass) : Watched := ⟨⟨s, .outside, []⟩, []⟩

/-- In every run, OTA_RUNUPDATE is entered only on the answer to the challenge of the invitation
that was accepted last, and the update that follows, at most one, is run with what it said. -/
theorem updates_authorized (md5 : List UInt8 → Digest) {s : ArduinoOTAClass}
    (locked : Locked md5 s) (events : List Event) :
    Sound md5 s.password (after (watch md5) events (.start s)).log := by
  obtain ⟨some, plain, fits, udp, idle⟩ := locked.start
  have start : Guarded md5 s.password (.start s) := by
    refine ⟨rfl, ?_, .nil, ?_, ?_, ?_⟩
    · change s.udp.Settled
      rw [udp]
      exact ⟨rfl, fun buf => absurd rfl buf, rfl⟩
    · intro waits
      rw [Watched.start, idle] at waits
      cases waits
    · intro runs
      rw [Watched.start, idle] at runs
      cases runs
    · intro opens
      cases opens
  have preserves : ∀ (event : Event) (w : Watched), Guarded md5 s.password w →
      Guarded md5 s.password (watch md5 event w).2 := by
    intro event w guarded
    cases event with
    | receive d micros => exact guarded_receive some plain fits guarded d micros
    | goOn a => exact guarded_goOn guarded a
  exact (after_preserves preserves events _ start).sound

/-- An invitation, the answer to its challenge and the begin of the update. -/
theorem updates_authorized_once :
    let digest : Digest := ⟨List.replicate 32 0x30, rfl, fun c mem =>
      .inl (by rw [List.eq_of_mem_replicate mem]; decide)⟩
    let md5 : List UInt8 → Digest := fun _ => digest
    let s := (((ArduinoOTAClass.construct 0).setPassword md5 [0x61]).setRebootOnSuccess true).begin
    let invited := ofString "0 8266 1 " ++ digest.text ++ [0x0a]
    let answered := ofString "200 " ++ digest.text ++ [0x20] ++ digest.text ++ [0x0a]
    let events : List Event :=
      [.receive ⟨invited, 1, 2⟩ 0, .receive ⟨answered, 1, 2⟩ 0, .goOn ⟨true, true, false, 1, []⟩]
    Sound md5 s.password (after (watch md5) events (.start s)).log ∧
      (after (watch md5) events (.start s)).device.pc = .accepted := by
  intro digest md5 s invited answered events
  have locked : Locked md5 s := .password [0x61] 0 true
  exact ⟨updates_authorized md5 locked events, by decide⟩

end Ota
end Esp8266.Source
