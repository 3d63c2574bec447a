import Esp8266.Lib.Word16
import Esp8266.Source.MdnsTransfer

/-!
# The header of an mDNS message

The counts and the identifier go to the wire and come back, and so do the flags. The operation
code and the reserved bits are masked in their place and not moved down, so that a member of four
or three bits keeps none, or the wrong one, of them.
-/
set_option autoImplicit false

namespace Esp8266.Source.MdnsTransfer
open Esp8266.Lib.Word16

/-! ## Words -/

theorem ntohs_append16 (value : UInt16) :
    ∃ high low, append16 value = [high, low] ∧ ntohs high low = value :=
  ⟨highByte value, lowByte value, rfl, ofBytes_bytes value⟩

theorem append16_ntohs (high low : UInt8) : append16 (ntohs high low) = [high, low] := by
  change [highByte (ofBytes high low), lowByte (ofBytes high low)] = _
  rw [highByte_ofBytes, lowByte_ofBytes]

/-! ## Reading -/

section

variable {packet : List UInt8} {position : Nat}

theorem drop_add (bytes : List UInt8) {more : List UInt8}
    (rest : packet.drop position = bytes ++ more) :
    packet.drop (position + bytes.length) = more := by
  rw [← List.drop_drop, rest, List.drop_left]

theorem udpReadBuffer_eq (bytes : List UInt8) {more : List UInt8} (some : bytes ≠ [])
    (rest : packet.drop position = bytes ++ more) :
    udpReadBuffer packet position bytes.length = (true, bytes, position + bytes.length) := by
  rw [udpReadBuffer, if_neg (fun none => some (List.eq_nil_of_length_eq_zero none)), rest,
    List.take_left]
  simp only [decide_true]

theorem udpRead8_eq {b : UInt8} {more : List UInt8} (value : UInt8)
    (rest : packet.drop position = b :: more) :
    udpRead8 packet position value = (true, b, position + 1) := by
  have read := udpReadBuffer_eq [b] (List.cons_ne_nil _ _) rest
  rw [List.length_singleton] at read
  rw [udpRead8, read]
  rfl

theorem udpRead16_eq {high low : UInt8} {more : List UInt8}
    (rest : packet.drop position = high :: low :: more) :
    udpRead16 packet position = (some (ntohs high low), position + 2) := by
  have read := udpReadBuffer_eq [high, low] (List.cons_ne_nil _ _) rest
  rw [show [high, low].length = 2 from rfl] at read
  rw [udpRead16, read]

theorem readMDNSMsgHeader_eq {b0 b1 b2 b3 b4 b5 b6 b7 b8 b9 b10 b11 : UInt8} {more : List UInt8}
    (rest : packet.drop position =
      b0 :: b1 :: b2 :: b3 :: b4 :: b5 :: b6 :: b7 :: b8 :: b9 :: b10 :: b11 :: more) :
    readMDNSMsgHeader packet position =
      (some (.ofBytes (ntohs b0 b1) b2 b3 (ntohs b4 b5) (ntohs b6 b7) (ntohs b8 b9)
        (ntohs b10 b11)), position + 12) := by
  have rest2 := drop_add [_, _] rest
  have rest3 := drop_add [_] rest2
  have rest4 := drop_add [_] rest3
  have rest6 := drop_add [_, _] rest4
  have rest8 := drop_add [_, _] rest6
  have rest10 := drop_add [_, _] rest8
  simp only [List.length_cons, List.length_nil] at rest2 rest3 rest4 rest6 rest8 rest10
  rw [readMDNSMsgHeader, udpRead16_eq rest]
  simp only
  rw [udpRead8_eq 0 rest2]
  simp only
  rw [udpRead8_eq 0 rest3]
  simp only
  rw [udpRead16_eq rest4]
  simp only
  rw [udpRead16_eq rest6]
  simp only
  rw [udpRead16_eq rest8]
  simp only
  rw [udpRead16_eq rest10]

end

/-! ## Flags and codes -/

/-- The third byte comes back, apart from an operation code that is not 0. -/
theorem ofBytes_b1 : ∀ (qr : Bool) (opcode : Fin 16) (aa tc rd : Bool),
    let b1 := bit qr <<< 7 ||| byte opcode <<< 3 ||| bit aa <<< 2 ||| bit tc <<< 1 ||| bit rd
    decide (b1 &&& 0x80 ≠ 0) = qr ∧ (bits4 (b1 &&& 0x78) = opcode ↔ opcode = 0) ∧
      decide (b1 &&& 0x04 ≠ 0) = aa ∧ decide (b1 &&& 0x02 ≠ 0) = tc ∧
      decide (b1 &&& 0x01 ≠ 0) = rd := by
  decide

/-- The fourth byte comes back, apart from reserved bits that are not 0. -/
theorem ofBytes_b2 : ∀ (ra : Bool) (z : Fin 8) (rCode : Fin 16),
    let b2 := bit ra <<< 7 ||| byte z <<< 4 ||| byte rCode
    decide (b2 &&& 0x80 ≠ 0) = ra ∧ (bits3 (b2 &&& 0x70) = z ↔ z = 0) ∧
      bits4 (b2 &&& 0x0f) = rCode := by
  decide

theorem b1_ofBytes (b1 : UInt8) :
    bit (b1 &&& 0x80 ≠ 0) <<< 7 ||| byte (bits4 (b1 &&& 0x78)) <<< 3 |||
        bit (b1 &&& 0x04 ≠ 0) <<< 2 ||| bit (b1 &&& 0x02 ≠ 0) <<< 1 ||| bit (b1 &&& 0x01 ≠ 0) = b1 ↔
      b1 &&& 0x78 = 0 := by
  revert b1
  exact forall_byte (by decide)

theorem b2_ofBytes (b2 : UInt8) :
    bit (b2 &&& 0x80 ≠ 0) <<< 7 ||| byte (bits3 (b2 &&& 0x70)) <<< 4 |||
        byte (bits4 (b2 &&& 0x0f)) = b2 ↔
      b2 &&& 0x70 = 0 := by
  revert b2
  exact forall_byte (by decide)

/-! ## The codec -/

/-- Reading what was written gives the header back if the operation code and the reserved bits
are 0. -/
theorem ofBytes_written (h : MsgHeader) :
    MsgHeader.ofBytes h.id h.b1 h.b2 h.qdCount h.anCount h.nsCount h.arCount = h ↔
      h.opcode = 0 ∧ h.z = 0 := by
  obtain ⟨id, qr, opcode, aa, tc, rd, ra, z, rCode, qdCount, anCount, nsCount, arCount⟩ := h
  obtain ⟨qr', opcode', aa', tc', rd'⟩ := ofBytes_b1 qr opcode aa tc rd
  obtain ⟨ra', z', rCode'⟩ := ofBytes_b2 ra z rCode
  rw [MsgHeader.ofBytes, MsgHeader.mk.injEq]
  constructor
  · rintro ⟨-, -, opcodes, -, -, -, -, reserved, -⟩
    exact ⟨opcode'.mp opcodes, z'.mp reserved⟩
  · rintro ⟨query, zero⟩
    exact ⟨rfl, qr', opcode'.mpr query, aa', tc', rd', ra', z'.mpr zero, rCode', rfl, rfl, rfl, rfl⟩

theorem read_written (h : MsgHeader) (front behind : List UInt8) :
    readMDNSMsgHeader (front ++ (writeMDNSMsgHeader h ++ behind)) front.length =
      (some (.ofBytes h.id h.b1 h.b2 h.qdCount h.anCount h.nsCount h.arCount),
        front.length + 12) := by
  obtain ⟨i, i', id, idBack⟩ := ntohs_append16 h.id
  obtain ⟨q, q', qd, qdBack⟩ := ntohs_append16 h.qdCount
  obtain ⟨a, a', an, anBack⟩ := ntohs_append16 h.anCount
  obtain ⟨n, n', ns, nsBack⟩ := ntohs_append16 h.nsCount
  obtain ⟨r, r', ar, arBack⟩ := ntohs_append16 h.arCount
  have written : writeMDNSMsgHeader h =
      [i, i', h.b1, h.b2, q, q', a, a', n, n', r, r'] := by
    rw [writeMDNSMsgHeader, id, qd, an, ns, ar]
    rfl
  have rest : (front ++ (writeMDNSMsgHeader h ++ behind)).drop front.length =
      i :: i' :: h.b1 :: h.b2 :: q :: q' :: a :: a' :: n :: n' :: r :: r' :: behind := by
    rw [List.drop_left, written]
    rfl
  rw [readMDNSMsgHeader_eq rest, idBack, qdBack, anBack, nsBack, arBack]

/-- Twelve bytes. -/
abbrev HeaderBytes := {bytes : List UInt8 // bytes.length = 12}

/-- **Writing and reading headers.** A header comes back if its operation code and its reserved
bits are 0, and only then; bytes come back if those bits are not set in them, and only then. -/
theorem header_codec (h : MsgHeader) (bytes : HeaderBytes) (front behind : List UInt8) :
    (readMDNSMsgHeader (front ++ (writeMDNSMsgHeader h ++ behind)) front.length =
        (some h, front.length + 12) ↔
      h.opcode = 0 ∧ h.z = 0) ∧
    ∃ h', readMDNSMsgHeader (front ++ (bytes.1 ++ behind)) front.length =
        (some h', front.length + 12) ∧
      (writeMDNSMsgHeader h' = bytes.1 ↔
        bytes.1.getD 2 0 &&& 0x78 = 0 ∧ bytes.1.getD 3 0 &&& 0x70 = 0) := by
  constructor
  · rw [read_written, Prod.mk.injEq, Option.some.injEq, ofBytes_written, and_iff_left rfl]
  · obtain ⟨bytes, twelve⟩ := bytes
    obtain ⟨b0, b1, b2, b3, b4, b5, b6, b7, b8, b9, b10, b11, rfl⟩ :
        ∃ b0 b1 b2 b3 b4 b5 b6 b7 b8 b9 b10 b11,
          bytes = [b0, b1, b2, b3, b4, b5, b6, b7, b8, b9, b10, b11] := by
      simp only [List.length_eq_succ_iff, List.length_eq_zero_iff] at twelve
      obtain ⟨b0, _, rfl, b1, _, rfl, b2, _, rfl, b3, _, rfl, b4, _, rfl, b5, _, rfl, b6, _, rfl,
        b7, _, rfl, b8, _, rfl, b9, _, rfl, b10, _, rfl, b11, _, rfl, rfl⟩ := twelve
      exact ⟨b0, b1, b2, b3, b4, b5, b6, b7, b8, b9, b10, b11, rfl⟩
    refine ⟨_, readMDNSMsgHeader_eq (by rw [List.drop_left]; rfl), ?_⟩
    have third := b1_ofBytes b2
    have fourth := b2_ofBytes b3
    simp only [writeMDNSMsgHeader, MsgHeader.b1, MsgHeader.b2, MsgHeader.ofBytes, append16_ntohs,
      List.cons_append, List.nil_append, List.cons.injEq, true_and, and_true]
    exact and_congr third fourth

/-- The operation code 1 comes back as 8. -/
theorem header_codec_opcode :
    let h : MsgHeader :=
      { id := 0, qr := false, opcode := 1, aa := false, tc := false, rd := false, ra := false,
        z := 0, rCode := 0, qdCount := 1, anCount := 0, nsCount := 0, arCount := 0 }
    writeMDNSMsgHeader h = [0, 0, 8, 0, 0, 1, 0, 0, 0, 0, 0, 0] ∧
      (readMDNSMsgHeader (writeMDNSMsgHeader h) 0).1 = some { h with opcode := 8 } ∧
      (readMDNSMsgHeader (writeMDNSMsgHeader h) 0).1 ≠ some h := by
  decide

end Esp8266.Source.MdnsTransfer
