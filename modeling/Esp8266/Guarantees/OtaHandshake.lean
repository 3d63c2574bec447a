import Esp8266.Guarantees.OtaAuthorization
import Esp8266.Source.Espota

/-!
# The OTA handshake

espota.py and ArduinoOTA agree on the two messages of the handshake: the device reads from the
invitation the command, port, size and MD5 that were written into it, and from the answer to its
challenge the cnonce and the response.
-/
set_option autoImplicit false

namespace Esp8266.Source

/-- Nothing is trimmed from a string without white space. -/
theorem WString.trim_eq {s : WString} (solid : ∀ c ∈ s, ¬ (c = 0x20 ∨ (0x09 ≤ c ∧ c ≤ 0x0d))) :
    s.trim = s := by
  have whole (t : WString) (all : ∀ c ∈ t, ¬ (c = 0x20 ∨ (0x09 ≤ c ∧ c ≤ 0x0d))) :
      (t.dropWhile fun c => c = 0x20 ∨ (0x09 ≤ c ∧ c ≤ 0x0d)) = t := by
    cases t with
    | nil => rfl
    | cons c t =>
      rw [List.dropWhile_cons_of_neg]
      simpa using all c List.mem_cons_self
  rw [WString.trim]
  simp only
  rw [whole s solid, whole s.reverse (fun c mem => solid c (List.mem_reverse.mp mem)),
    List.reverse_reverse]

namespace Ota
open Esp8266.Lib.Decimal Esp8266.Source.WString Esp8266.Source.Updater

namespace ArduinoOTAClass

/-! ## What the device reads -/

theorem parseDigits_append {digits : WString} (all : ∀ c ∈ digits, IsDigit c) {stop : UInt8}
    (ends : ¬ IsDigit stop) (rest : List UInt8) : ∀ (room : Nat) (data : WString),
    digits.length < room → parseDigits room data (digits ++ stop :: rest) =
      (atoi (data ++ digits), stop :: rest) := by
  have outside (c : UInt8) : (c < 0x30 ∨ c > 0x39) ↔ ¬ IsDigit c := by
    rw [IsDigit, not_and_or, UInt8.not_le, UInt8.not_le]
  induction digits with
  | nil =>
    intro room data fits
    cases room with
    | zero => cases fits
    | succ room =>
      rw [List.nil_append, parseDigits, if_pos ((outside stop).mpr ends), List.append_nil]
  | cons c digits ih =>
    intro room data fits
    cases room with
    | zero => cases fits
    | succ room =>
      have digit : ¬ (c < 0x30 ∨ c > 0x39) := by
        rw [outside, not_not]
        exact all c List.mem_cons_self
      rw [List.cons_append, parseDigits, if_neg digit,
        ih (fun d mem => all d (List.mem_cons_of_mem _ mem)) room _ (Nat.lt_of_succ_lt_succ fits),
        List.append_assoc]
      rfl

/-- A number below 2^31 is read back up to the first byte that is no digit. -/
theorem parseInt_decimal {n : Nat} (small : n < 2 ^ 31) {stop : UInt8} (ends : ¬ IsDigit stop)
    (rest : List UInt8) : parseInt (decimal n ++ stop :: rest) = (n, stop :: rest) := by
  have start : (decimal n ++ stop :: rest).dropWhile (· = 0x20) = decimal n ++ stop :: rest := by
    cases digits : decimal n with
    | nil => exact absurd digits (decimal_ne_nil n)
    | cons c text =>
      have digit : IsDigit c := isDigit_of_mem_decimal (n := n) (by
        rw [digits]
        exact List.mem_cons_self)
      rw [List.cons_append, List.dropWhile_cons_of_neg]
      rintro blank
      rw [decide_eq_true_eq] at blank
      rw [blank] at digit
      exact absurd digit (by decide)
  have fits : (decimal n).length < 16 := by
    have := length_decimal_le (n := n) (k := 10) (by decide) (by omega)
    omega
  rw [parseInt, start, parseDigits_append (fun c => isDigit_of_mem_decimal) ends rest 16 [] fits,
    List.nil_append, atoi, value_decimal, Nat.min_eq_left (by omega)]

theorem parseInt_blank (bytes : List UInt8) : parseInt (0x20 :: bytes) = parseInt bytes := by
  rw [parseInt, List.dropWhile_cons_of_pos (by decide), ← parseInt]

theorem readStringUntil_append {stop : UInt8} {text : WString} (plain : 0 ∉ text)
    (inside : stop ∉ text) (rest : List UInt8) :
    readStringUntil stop (text ++ stop :: rest) = (text, rest) := by
  induction text with
  | nil => rw [List.nil_append, readStringUntil, if_pos (.inr rfl)]
  | cons c text ih =>
    rw [List.mem_cons, not_or] at plain inside
    have goesOn : ¬ (c = 0 ∨ c = stop) := by
      rintro (zero | same)
      · exact plain.1 zero.symm
      · exact inside.1 same.symm
    rw [List.cons_append, readStringUntil, if_neg goesOn, ih plain.2 inside.2]

/-- `_onRx` for a datagram that comes in. -/
def onDatagram (md5 : List UInt8 → Digest) (d : Datagram) (micros : Nat) (s : ArduinoOTAClass) :
    ArduinoOTAClass :=
  { s with udp := s.udp.recv d }.onRx md5 micros

/-- An invitation with a command and an MD5 sum is accepted. -/
theorem onInvitation_accepts (md5 : List UInt8 → Digest) (micros : Nat) {s : ArduinoOTAClass}
    {d : Datagram} (bytes : s.udp.rxBuf = some d.bytes) (source : s.udp.srcAddr = d.address)
    (port : s.udp.srcPort = d.port) (written : s.udp.txBuf = [])
    (command : (invitation d).cmd = uFlash ∨ (invitation d).cmd = uFs)
    (text : (invitation d).md5.length = 32) :
    ∃ goesOn s', s.onInvitation md5 micros = (goesOn, s') ∧ s'.password = s.password ∧
      s'.udp.chained = s.udp.chained ∧ s'.udp.firstBufTaken = s.udp.firstBufTaken ∧
      s'.udp.txBuf = [] ∧ s'.Holds (invitation d) ∧
      (s.password.length = 0 → s'.state = .runUpdate) ∧
      (s.password.length ≠ 0 → s'.state = .waitAuth ∧ (∃ data, s'.nonce = (md5 data).text) ∧
        s'.udp.sent = ⟨ofString "AUTH " ++ s'.nonce, d.address, d.port⟩ :: s.udp.sent) := by
  have known : ¬ ((parseInt d.bytes).1 ≠ uFlash ∧ (parseInt d.bytes).1 ≠ uFs) := by
    rintro ⟨sketch, fs⟩
    exact command.elim sketch fs
  have sum : ¬ (WString.trim (readStringUntil 0x0a
      ((parseInt (parseInt (parseInt d.bytes).2).2).2.drop 1)).1).length ≠ 32 := not_not.mpr text
  simp only [onInvitation, token_eq, skip_eq, bytes, Option.getD_some, if_neg known, if_neg sum]
  by_cases unlocked : s.password.length = 0
  · rw [if_neg (not_not.mpr unlocked)]
    refine ⟨_, _, rfl, rfl, rfl, rfl, written, ⟨source, rfl, rfl, rfl, rfl⟩, fun _ => rfl, ?_⟩
    intro locked
    exact absurd unlocked locked
  · rw [if_pos unlocked]
    refine ⟨_, _, rfl, rfl, rfl, rfl, rfl, ⟨source, rfl, rfl, rfl, rfl⟩, ?_, ?_⟩
    · intro none
      exact absurd none unlocked
    · intro _
      refine ⟨rfl, ⟨_, rfl⟩, ?_⟩
      simp only [answer, UdpContext.append, UdpContext.send, written, List.nil_append, source, port]

/-- The command, the cnonce and the response that OTA_WAITAUTH reads from a datagram. -/
def readResponse (bytes : List UInt8) : Nat × WString × WString :=
  let (cmd, bytes) := parseInt bytes
  let (cnonce, bytes) := readStringUntil 0x20 (bytes.drop 1)
  let (response, _) := readStringUntil 0x0a bytes
  (cmd, cnonce, response)

theorem onDatagram_idle (md5 : List UInt8 → Digest) (micros : Nat) {s : ArduinoOTAClass}
    {d : Datagram} (settled : s.udp.Settled) (idle : s.state = .idle)
    (command : (invitation d).cmd = uFlash ∨ (invitation d).cmd = uFs)
    (text : (invitation d).md5.length = 32) :
    let s' := s.onDatagram md5 d micros
    s'.password = s.password ∧ s'.udp.Settled ∧ s'.Holds (invitation d) ∧
      (s.password.length = 0 → s'.state = .runUpdate) ∧
      (s.password.length ≠ 0 → s'.state = .waitAuth ∧ (∃ data, s'.nonce = (md5 data).text) ∧
        s'.udp.sent.head? = some ⟨ofString "AUTH " ++ s'.nonce, d.address, d.port⟩) := by
  obtain ⟨goesOn, s', run, password, chained, taken, written, holds, unlocked, locked⟩ :=
    onInvitation_accepts md5 micros (s := { s with udp := s.udp.current d }) rfl rfl rfl
      settled.written command text
  simp only [idle] at run
  simp only [onDatagram, onRx, UdpContext.next_recv settled, idle, run, Bool.not_true,
    Bool.false_eq_true, if_false]
  obtain ⟨udp, settled', sent, finish⟩ := flush_spec goesOn chained taken written
  rw [finish]
  refine ⟨password, settled', holds.withUdp, unlocked, fun some => ?_⟩
  obtain ⟨state, nonce, last⟩ := locked some
  refine ⟨state, nonce, ?_⟩
  rw [sent, last, List.head?_cons]

theorem onResponse_decides (md5 : List UInt8 → Digest) {s : ArduinoOTAClass} {d : Datagram}
    (bytes : s.udp.rxBuf = some d.bytes) {cnonce response : WString}
    (read : readResponse d.bytes = (uAuth, cnonce, response))
    (cnonce_length : cnonce.length = 32) (response_length : response.length = 32) :
    (s.onResponse md5).2.state = .runUpdate ↔
      md5Builder md5 (s.password ++ [0x3a] ++ s.nonce ++ [0x3a] ++ cnonce) = response := by
  have cmd : (parseInt d.bytes).1 = uAuth := congrArg Prod.fst read
  have first : (readStringUntil 0x20 ((parseInt d.bytes).2.drop 1)).1 = cnonce :=
    congrArg (fun r => r.2.1) read
  have second : (readStringUntil 0x0a (readStringUntil 0x20 ((parseInt d.bytes).2.drop 1)).2).1 =
      response := congrArg (fun r => r.2.2) read
  have lengths : ¬ (cnonce.length ≠ 32 ∨ response.length ≠ 32) := by
    rintro (wrong | wrong)
    · exact wrong cnonce_length
    · exact wrong response_length
  rw [← WString.equalsConstantTime_iff (md5Builder_plain md5 _)]
  simp only [onResponse, token_eq, skip_eq, bytes, Option.getD_some, cmd, first, second, ne_eq,
    not_true, if_false, if_neg lengths]
  split_ifs with same
  · exact ⟨fun _ => same, fun _ => rfl⟩
  · exact ⟨fun impossible => impossible.elim, fun right => absurd right same⟩

/-- The answer to a challenge decides. -/
theorem onDatagram_waitAuth (md5 : List UInt8 → Digest) (micros : Nat) {s : ArduinoOTAClass}
    {d : Datagram} (settled : s.udp.Settled) (waits : s.state = .waitAuth)
    {cnonce response : WString} (read : readResponse d.bytes = (uAuth, cnonce, response))
    (cnonce_length : cnonce.length = 32) (response_length : response.length = 32) :
    (s.onDatagram md5 d micros).state = .runUpdate ↔
      md5Builder md5 (s.password ++ [0x3a] ++ s.nonce ++ [0x3a] ++ cnonce) = response := by
  rw [← onResponse_decides md5 (s := { s with udp := s.udp.current d }) (d := d) rfl read
    cnonce_length response_length]
  simp only [onDatagram, onRx, UdpContext.next_recv settled, waits, Bool.not_true,
    Bool.false_eq_true, if_false]
  split_ifs
  · exact Iff.rfl
  · exact Iff.rfl

end ArduinoOTAClass

/-! ## What espota.py writes -/

theorem Digest.low (d : Digest) {c : UInt8} (mem : c ∈ d.text) : 0x30 ≤ c := by
  rcases d.hex c mem with digit | letter
  · exact digit.1
  · exact UInt8.le_trans (by decide) letter.1

theorem Digest.solid (d : Digest) {c : UInt8} (mem : c ∈ d.text) :
    ¬ (c = 0x20 ∨ (0x09 ≤ c ∧ c ≤ 0x0d)) ∧ c ≠ 0x0a := by
  have low := d.low mem
  constructor
  · rintro (rfl | ⟨-, high⟩)
    · exact absurd low (by decide)
    · exact absurd (UInt8.le_trans low high) (by decide)
  · rintro rfl
    exact absurd low (by decide)

end Ota

namespace Espota
open Esp8266.Lib.Decimal Esp8266.Source.WString Esp8266.Source.Ota
open Esp8266.Source.Ota.ArduinoOTAClass

theorem invitation_read (md5 : List UInt8 → Digest) {serve : Serve}
    (command : serve.command < 2 ^ 31) (port : serve.localPort ≤ 65535)
    (size : serve.contents.length < 2 ^ 31) (address udpPort : Nat) :
    Ota.invitation ⟨serve.invitation md5, address, udpPort⟩ =
      ⟨address, serve.localPort, serve.command, serve.contentSize, serve.fileMd5 md5⟩ := by
  have blank : ¬ IsDigit 0x20 := by decide
  have message : serve.invitation md5 = decimal serve.command ++ 0x20 ::
      (decimal serve.localPort ++ 0x20 ::
        (decimal serve.contentSize ++ 0x20 :: (serve.fileMd5 md5 ++ 0x0a :: []))) := by
    simp only [Serve.invitation, List.append_assoc, List.cons_append, List.nil_append]
  have text : readStringUntil 0x0a (serve.fileMd5 md5 ++ 0x0a :: []) = (serve.fileMd5 md5, []) :=
    readStringUntil_append (Digest.plain _) (fun mem => (Digest.solid _ mem).2 rfl) []
  simp only [Ota.invitation, message, parseInt_decimal command blank,
    parseInt_decimal (n := serve.localPort) (by omega) blank,
    parseInt_decimal (n := serve.contentSize) size blank, parseInt_blank, List.drop_succ_cons,
    List.drop_zero, text]
  rw [Nat.mod_eq_of_lt (by omega : serve.localPort < 2 ^ 16),
    WString.trim_eq (s := serve.fileMd5 md5) fun c mem => (Digest.solid _ mem).1]

theorem reply_read (md5 : List UInt8 → Digest) (serve : Serve) (nonce : List UInt8) :
    readResponse (decimal auth ++ [0x20] ++ serve.cnonce md5 ++ [0x20] ++
      serve.result md5 nonce ++ [0x0a]) = (uAuth, serve.cnonce md5, serve.result md5 nonce) := by
  have message : decimal auth ++ [0x20] ++ serve.cnonce md5 ++ [0x20] ++
      serve.result md5 nonce ++ [0x0a] = decimal auth ++ 0x20 :: (serve.cnonce md5 ++ 0x20 ::
        (serve.result md5 nonce ++ 0x0a :: [])) := by
    simp only [List.append_assoc, List.cons_append, List.nil_append]
  have first : readStringUntil 0x20 (serve.cnonce md5 ++ 0x20 ::
      (serve.result md5 nonce ++ 0x0a :: [])) = (serve.cnonce md5, serve.result md5 nonce ++ 0x0a :: []) :=
    readStringUntil_append (Digest.plain _) (fun mem => (Digest.solid _ mem).1 (.inl rfl)) _
  have second : readStringUntil 0x0a (serve.result md5 nonce ++ 0x0a :: []) =
      (serve.result md5 nonce, []) :=
    readStringUntil_append (Digest.plain _) (fun mem => (Digest.solid _ mem).2 rfl) []
  have blank : ¬ IsDigit 0x20 := by decide
  simp only [readResponse, message, parseInt_decimal (n := auth) (by decide) blank,
    List.drop_succ_cons, List.drop_zero, first, second]
  rfl

/-- The challenge of a device is answered. -/
theorem challenge_answered (md5 : List UInt8 → Digest) (serve : Serve) (nonce : Digest) :
    serve.onAnswer md5 (ofString "AUTH " ++ nonce.text) =
      .authenticate (decimal auth ++ [0x20] ++ serve.cnonce md5 ++ [0x20] ++
        serve.result md5 nonce.text ++ [0x0a]) := by
  have whole : (ofString "AUTH " ++ nonce.text).take 128 = ofString "AUTH " ++ nonce.text := by
    apply List.take_of_length_le
    rw [List.length_append, nonce.length_text]
    decide
  have words : split (ofString "AUTH " ++ nonce.text) = [ofString "AUTH", nonce.text] := by
    have auth : ofString "AUTH " ++ nonce.text = ofString "AUTH" ++ 0x20 :: nonce.text := rfl
    rw [split, auth, List.splitOnP_append_cons_of_forall_mem (by decide +kernel) _ (by decide),
      List.splitOnP_eq_singleton]
    · have some : nonce.text ≠ [] := by
        intro none
        have length := nonce.length_text
        rw [none] at length
        cases length
      simp only [List.filter_cons, decide_eq_true some, List.filter_nil]
      rfl
    · intro c mem
      have low := nonce.low mem
      rw [decide_eq_false_iff_not]
      rintro (rfl | ⟨-, high⟩ | ⟨-, high⟩)
      · exact absurd low (by decide)
      · exact absurd (UInt8.le_trans low high) (by decide)
      · exact absurd (UInt8.le_trans low high) (by decide)
  have other : ofString "AUTH " ++ nonce.text ≠ ofString "OK" := by
    intro same
    have first : some (0x41 : UInt8) = some 0x4f := congrArg List.head? same
    exact absurd first (by decide)
  have starts : ofString "AUTH" <+: ofString "AUTH " ++ nonce.text := ⟨0x20 :: nonce.text, rfl⟩
  simp only [Serve.onAnswer, whole, if_neg other, if_pos starts, words]
  rfl

/-- No password, or one that was set with `setPassword`. -/
def Secured (md5 : List UInt8 → Digest) (s : ArduinoOTAClass) : Prop :=
  s.password = [] ∨ ∃ text port, s.password = ((construct port).setPassword md5 text).password

/-- The two strings that the device and `serve` take the MD5 sum of. -/
theorem challenge_inj {password password' nonce cnonce : WString} :
    challenge password nonce cnonce = challenge password' nonce cnonce ↔ password = password' := by
  simp only [challenge, List.append_assoc, List.append_cancel_right_eq]

/-- The invitation is read as it was written. Without a password the update follows; with one, the
reply to the challenge is read as it was written, and OTA_RUNUPDATE is entered if the passwords
agree, and otherwise only if two different strings have one MD5 sum. -/
theorem handshake_agreed (md5 : List UInt8 → Digest) (serve : Serve)
    (command : serve.command = flash ∨ serve.command = spiffs)
    (port : 1 ≤ serve.localPort ∧ serve.localPort ≤ 65535) (size : serve.contents.length < 2 ^ 31)
    {s : ArduinoOTAClass} (idle : s.state = .idle) (settled : s.udp.Settled)
    (secured : Secured md5 s) (address udpPort micros micros' : Nat) :
    let invited := s.onDatagram md5 ⟨serve.invitation md5, address, udpPort⟩ micros
    (invited.cmd = serve.command ∧ invited.otaPort = serve.localPort ∧
      invited.size = serve.contents.length ∧ invited.md5 = (md5 serve.contents).text) ∧
    (s.password = [] → invited.state = .runUpdate) ∧
    (s.password ≠ [] → invited.state = .waitAuth ∧
      ∃ sent reply, invited.udp.sent.head? = some ⟨sent, address, udpPort⟩ ∧
        serve.onAnswer md5 sent = .authenticate reply ∧
        readResponse reply = (uAuth, serve.cnonce md5, serve.result md5 invited.nonce) ∧
        let answered := invited.onDatagram md5 ⟨reply, address, udpPort⟩ micros'
        let passmd5 := (md5 serve.password).text
        let device := challenge s.password invited.nonce (serve.cnonce md5)
        let host := challenge passmd5 invited.nonce (serve.cnonce md5)
        (passmd5 = s.password → answered.state = .runUpdate) ∧
        (passmd5 ≠ s.password → device ≠ host ∧
          (answered.state = .runUpdate ↔ (md5 device).text = (md5 host).text))) := by
  intro invited
  have small : serve.command < 2 ^ 31 := by
    rcases command with sketch | fs
    · rw [sketch]
      decide
    · rw [fs]
      decide
  have read := invitation_read md5 small port.2 size address udpPort
  obtain ⟨kept, settled', holds, unlocked, locked⟩ := onDatagram_idle md5 micros
    (d := ⟨serve.invitation md5, address, udpPort⟩) settled idle (by rw [read]; exact command)
    (by rw [read]; exact Digest.length_text _)
  rw [read] at holds
  refine ⟨⟨holds.cmd, holds.port, holds.size, holds.md5⟩, ?_, ?_⟩
  · intro none
    exact unlocked (by rw [none]; rfl)
  · intro some
    obtain ⟨state, ⟨data, nonce⟩, last⟩ := locked fun none => some (List.length_eq_zero_iff.mp none)
    have answer := challenge_answered md5 serve (md5 data)
    rw [← nonce] at answer
    refine ⟨state, _, _, last, answer, reply_read md5 serve _, ?_⟩
    obtain none | ⟨text, udpPort', password⟩ := secured
    · exact absurd none some
    have stored : s.password = md5Builder md5 text := password
    have decides := onDatagram_waitAuth md5 micros' (d := ⟨_, address, udpPort⟩) settled' state
      (reply_read md5 serve invited.nonce) (Digest.length_text _) (Digest.length_text _)
    have built : md5Builder md5 (s.password ++ [0x3a] ++ invited.nonce ++ [0x3a] ++
        serve.cnonce md5) = (md5 (challenge s.password invited.nonce (serve.cnonce md5))).text := by
      rw [stored]
      exact builds_challenge md5 (md5Builder_plain md5 text)
        (by rw [md5Builder, Digest.length_text]; decide) ⟨data, nonce⟩ (Digest.plain _)
        (Digest.length_text _)
    rw [kept, built] at decides
    refine ⟨fun same => ?_, fun different => ⟨?_, ?_⟩⟩
    · rw [decides, ← same]
      rfl
    · rw [Ne, challenge_inj]
      exact Ne.symm different
    · exact decides

theorem handshake_agreed_small :
    let digest : Digest := ⟨List.replicate 32 0x30, rfl, fun c mem =>
      .inl (by rw [List.eq_of_mem_replicate mem]; decide)⟩
    let md5 : List UInt8 → Digest := fun _ => digest
    let serve : Serve := ⟨[], 8266, [0x61], [], [1, 2, 3], flash⟩
    let s := ((construct 0).setPassword md5 [0x61]).begin
    (s.onDatagram md5 ⟨serve.invitation md5, 1, 2⟩ 0).otaPort = 8266 ∧
      (s.onDatagram md5 ⟨serve.invitation md5, 1, 2⟩ 0).state = .waitAuth := by
  intro digest md5 serve s
  have settled : s.udp.Settled := ⟨rfl, fun some => absurd rfl some, rfl⟩
  obtain ⟨⟨-, port, -⟩, -, locked⟩ := handshake_agreed md5 serve (.inl rfl)
    ⟨by decide, by decide⟩ (by decide) (s := s) rfl settled (.inr ⟨[0x61], 0, rfl⟩) 1 2 0 0
  exact ⟨port, (locked (List.cons_ne_nil _ _)).1⟩

end Espota
end Esp8266.Source
