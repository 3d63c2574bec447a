import Mathlib.Data.UInt
import Esp8266.Source.Gdbstub

/-!
# Packets of the GDB stub, sent and received

The sender adds the `}` of an escaped character and the character it sends to the checksum, the
receiver the character itself. These differ by 93 for each of the four escaped characters, so
that a packet is taken back exactly where it escapes nothing.
-/
set_option autoImplicit false

namespace Esp8266.Source.Gdbstub
open Esp8266.Lib.Hexadecimal Sender

/-- The packet of a payload, after any other packet. -/
def frame (stale : UInt8) (payload : List UInt8) : List UInt8 :=
  (payload.foldl (fun s c => s.gdbPacketChar c) (gdbPacketStart ⟨stale, []⟩)).gdbPacketEnd.sent

/-- The number of the characters that are escaped. -/
def escapes (payload : List UInt8) : Nat := payload.countP fun c => decide (Escaped c)

/-! ## Sending -/

/-- What is sent for a character. -/
def encoded (c : UInt8) : List UInt8 := if Escaped c then [0x7d, c ^^^ 0x20] else [c]

/-- Each escaped character adds 93 to the checksum, besides itself. -/
theorem gdbPacketChar_eq (c : UInt8) (s : Sender) :
    s.gdbPacketChar c =
      ⟨s.chsum + c + if Escaped c then 93 else 0, s.sent ++ encoded c⟩ := by
  unfold gdbPacketChar encoded
  by_cases escaped : Escaped c
  · have slip : (0x7d : UInt8) + (c ^^^ 0x20) = c + 93 := by
      rcases escaped with rfl | rfl | rfl | rfl <;> rfl
    simp only [if_pos escaped, gdbSendChar, List.append_assoc]
    rw [UInt8.add_assoc, slip, UInt8.add_assoc]
    rfl
  · simp only [if_neg escaped, gdbSendChar]
    rw [UInt8.add_zero]

/-- The whole payload. -/
theorem sendPayload_eq (payload : List UInt8) (s : Sender) :
    payload.foldl (fun s c => s.gdbPacketChar c) s =
      ⟨s.chsum + payload.sum + UInt8.ofNat (93 * escapes payload),
        s.sent ++ payload.flatMap encoded⟩ := by
  induction payload generalizing s with
  | nil => simp [escapes]
  | cons c rest ih =>
    have count : escapes (c :: rest) = escapes rest + if Escaped c then 1 else 0 := by
      rw [escapes, List.countP_cons]
      simp only [decide_eq_true_eq]
      rfl
    rw [List.foldl_cons, ih, gdbPacketChar_eq, List.sum_cons, List.flatMap_cons,
      List.append_assoc, count]
    congr 1
    split
    · rw [Nat.mul_add, UInt8.ofNat_add, show UInt8.ofNat (93 * 1) = 93 from rfl]
      grind
    · rw [Nat.add_zero, UInt8.add_zero, UInt8.add_assoc s.chsum]

theorem hexChars_plain {d : Nat} (small : d < 16) : ¬ Escaped (hexChars d) := by
  revert d
  decide

/-- The two digits of a checksum. -/
theorem gdbPacketEnd_sent (s : Sender) : s.gdbPacketEnd.sent =
    s.sent ++ [0x23, hexChars (s.chsum.toNat / 16), hexChars (s.chsum.toNat % 16)] := by
  have high : (((s.chsum.toNat : Int) >>> (4 : Nat)) % 16).toNat = s.chsum.toNat / 16 := by
    have := s.chsum.toNat_lt
    rw [Int.shiftRight_eq_div_pow]
    omega
  have low : (((s.chsum.toNat : Int) >>> (0 : Nat)) % 16).toNat = s.chsum.toNat % 16 := by
    rw [Int.shiftRight_eq_div_pow]
    omega
  have small := s.chsum.toNat_lt
  simp only [gdbPacketEnd, gdbPacketHex, gdbPacketChar_eq, gdbSendChar, high, low, encoded,
    if_neg (hexChars_plain (Nat.mod_lt s.chsum.toNat (by decide))),
    if_neg (hexChars_plain (show s.chsum.toNat / 16 < 16 by omega)), List.append_assoc]
  rfl

/-- A packet is its payload with the escapes, and a checksum that counts these. -/
theorem frame_eq (stale : UInt8) (payload : List UInt8) : frame stale payload =
    0x24 :: payload.flatMap encoded ++ [0x23,
      hexChars ((payload.sum + UInt8.ofNat (93 * escapes payload)).toNat / 16),
      hexChars ((payload.sum + UInt8.ofNat (93 * escapes payload)).toNat % 16)] := by
  rw [frame, sendPayload_eq, gdbPacketEnd_sent]
  simp only [gdbPacketStart, gdbSendChar, UInt8.zero_add]
  rfl

/-! ## Receiving -/

theorem gdbGetHexVal_digits : ∀ high < 16, ∀ low < 16,
    (gdbGetHexVal [hexChars high, hexChars low] 8).1 = (16 * high + low : Nat) := by
  decide

/-- The digits of a byte are read as this byte. -/
theorem gdbGetHexVal_byte (c : UInt8) :
    (gdbGetHexVal [hexChars (c.toNat / 16), hexChars (c.toNat % 16)] 8).1 = c.toNat := by
  have byte := c.toNat_lt
  rw [gdbGetHexVal_digits _ (by omega) _ (Nat.mod_lt _ (by decide)), Nat.div_add_mod]

namespace Receiver

variable {σ : Type*} (gdbHandleCommand : List UInt8 → σ → Int × σ)

/-- The characters that come in one after the other. -/
def receive (r : Receiver σ) (chars : List UInt8) : Receiver σ :=
  chars.foldl (gdbReadCommand gdbHandleCommand) r

/-- A character within a packet is taken back as it was, if there is room. -/
theorem receive_encoded (r : Receiver σ) (c : UInt8) {chsum : UInt8} {cmd : List UInt8}
    (inside : r.waiting = .packet chsum cmd) (room : cmd.length + 1 < pbufLen) :
    r.receive gdbHandleCommand (encoded c) =
      { r with waiting := .packet (chsum + c) (cmd ++ [c]) } := by
  have stored : ∀ r' : Receiver σ, r'.storeChar chsum cmd c =
      { r' with waiting := .packet (chsum + c) (cmd ++ [c]) } := by
    intro r'
    refine if_neg (Nat.not_le_of_lt ?_)
    rw [List.length_append, List.length_singleton]
    exact room
  unfold encoded
  split
  · have decoded : c ^^^ 0x20 ^^^ 0x20 = c := by
      rw [UInt8.xor_assoc]
      exact UInt8.xor_zero
    rw [receive, List.foldl_cons, List.foldl_cons, List.foldl_nil]
    have escape : r.gdbReadCommand gdbHandleCommand 0x7d =
        { r with waiting := .escape chsum cmd } := by
      rw [gdbReadCommand, inside]
      rfl
    rw [escape]
    exact (congrArg (storeChar chsum cmd · _) decoded).trans (stored _)
  · rename_i plain
    obtain ⟨hash, plain⟩ := not_or.1 plain
    obtain ⟨dollar, plain⟩ := not_or.1 plain
    obtain ⟨brace, -⟩ := not_or.1 plain
    rw [receive, List.foldl_cons, List.foldl_nil, gdbReadCommand, inside]
    simp only [if_neg hash, if_neg dollar, if_neg brace]
    exact stored r

/-- The payload, of which the checksum counts the characters themselves. -/
theorem receive_payload (payload : List UInt8) (r : Receiver σ) {chsum : UInt8}
    {cmd : List UInt8} (inside : r.waiting = .packet chsum cmd)
    (room : cmd.length + payload.length < pbufLen) :
    r.receive gdbHandleCommand (payload.flatMap encoded) =
      { r with waiting := .packet (chsum + payload.sum) (cmd ++ payload) } := by
  induction payload generalizing r chsum cmd with
  | nil =>
    rw [List.sum_nil, UInt8.add_zero, List.append_nil, ← inside]
    rfl
  | cons c rest ih =>
    rw [List.length_cons] at room
    rw [List.flatMap_cons, receive, List.foldl_append]
    change receive gdbHandleCommand (receive gdbHandleCommand r (encoded c)) _ = _
    rw [receive_encoded gdbHandleCommand r c inside (by omega),
      ih _ rfl (by rw [List.length_append, List.length_singleton]; omega), List.sum_cons,
      UInt8.add_assoc, List.append_assoc]
    rfl

/-- A whole packet is checked against the sum of its payload. -/
theorem receive_frame (r : Receiver σ) (ready : r.waiting = .start) (stale : UInt8)
    (payload : List UInt8) (room : payload.length < pbufLen) :
    r.receive gdbHandleCommand (frame stale payload) =
      r.checkPacket gdbHandleCommand payload.sum payload [
        hexChars ((payload.sum + UInt8.ofNat (93 * escapes payload)).toNat / 16),
        hexChars ((payload.sum + UInt8.ofNat (93 * escapes payload)).toNat % 16)] := by
  have started : r.gdbReadCommand gdbHandleCommand 0x24 =
      { r with waiting := .packet 0 [] } := by
    rw [gdbReadCommand, ready]
    rfl
  rw [frame_eq, receive, List.cons_append, List.foldl_cons, started, List.foldl_append]
  change List.foldl _ (receive gdbHandleCommand { r with waiting := .packet 0 [] } _) _ = _
  rw [receive_payload gdbHandleCommand payload { r with waiting := .packet 0 [] } rfl
    (by rw [List.length_nil]; omega), UInt8.zero_add, List.nil_append]
  rfl

/-- The checksums agree where nothing is escaped. -/
theorem sums_agree_iff {payload : List UInt8} (short : payload.length ≤ 255) :
    payload.sum + UInt8.ofNat (93 * escapes payload) = payload.sum ↔
      ∀ c ∈ payload, ¬ Escaped c := by
  have few : escapes payload ≤ payload.length := List.countP_le_length
  have none_escaped : escapes payload = 0 ↔ ∀ c ∈ payload, ¬ Escaped c := by
    rw [escapes, List.countP_eq_zero]
    exact forall₂_congr fun c _ => not_congr decide_eq_true_iff
  rw [← none_escaped, ← UInt8.toNat_inj, UInt8.toNat_add, UInt8.toNat_ofNat']
  have byte := payload.sum.toNat_lt
  omega

/-- A packet that the stub sends is one that it takes back, with the same payload, exactly where no
character of the payload is escaped. -/
theorem receive_frame_iff (r : Receiver σ) (ready : r.waiting = .start) (stale : UInt8)
    (payload : List UInt8) (short : payload.length ≤ 255) :
    (r.receive gdbHandleCommand (frame stale payload)).notes =
        r.notes ++ [.sent 0x2b, .handled payload] ↔
      ∀ c ∈ payload, ¬ Escaped c := by
  rw [receive_frame gdbHandleCommand r ready stale payload (Nat.lt_succ_of_le short),
    ← sums_agree_iff short, checkPacket, gdbGetHexVal_byte]
  split
  · rename_i agree
    exact iff_of_true rfl (UInt8.toNat_inj.1 (Int.ofNat_inj.1 agree))
  · rename_i differ
    refine iff_of_false (fun same => ?_) fun agree => differ (by rw [agree])
    have lengths := congrArg List.length (List.append_cancel_left same)
    exact absurd lengths (Nat.ne_of_lt Nat.one_lt_two)

/-- A receiver that has just been entered. -/
def entered : Receiver Unit := ⟨.start, false, (), []⟩

/-- The answer `OK`. -/
theorem receive_frame_ok :
    (entered.receive (fun _ _ => (stOk, ())) (frame 0 [0x4f, 0x4b])).notes =
        entered.notes ++ [.sent 0x2b, .handled [0x4f, 0x4b]] ↔
      ∀ c ∈ [0x4f, 0x4b], ¬ Escaped c :=
  receive_frame_iff (fun _ _ => (stOk, ())) entered rfl 0 [0x4f, 0x4b] (by decide)

/-- The packet of `*` is `$}\n#87`, where the receiver counts 2a. -/
theorem asterisk_refused :
    frame 0 [0x2a] = [0x24, 0x7d, 0x0a, 0x23, 0x38, 0x37] ∧
      (entered.receive (fun _ _ => (stOk, ())) (frame 0 [0x2a])).notes = [.sent 0x2d] ∧
      (entered.receive (fun _ _ => (stOk, ())) (frame 0 [0x2a])).notes ≠
        entered.notes ++ [.sent 0x2b, .handled [0x2a]] :=
  ⟨rfl, rfl, fun same => absurd (congrArg List.length same) (by decide)⟩

end Receiver

end Esp8266.Source.Gdbstub
