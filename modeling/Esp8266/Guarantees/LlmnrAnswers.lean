import Esp8266.Lib.Word16
import Esp8266.Source.Llmnr

/-!
# Answers to LLMNR queries

A query with the own name is answered, whatever follows the name: the zero behind it is read and
not looked at, bytes that are missing of the datagram are not missed, and the question of the answer
is always one for an address.
-/
set_option autoImplicit false

namespace Esp8266.Source.Llmnr
open Esp8266.Lib.Word16 Esp8266.Source.WString

/-! ## Messages -/

def wordBytes (value : UInt16) : List UInt8 := [highByte value, lowByte value]

/-- The header of a query with one question and nothing else. -/
def queryHeader (id flags : UInt16) : List UInt8 :=
  wordBytes id ++ wordBytes flags ++ [0, 1, 0, 0, 0, 0, 0, 0]

/-- A query, of operation 0, of which no conflict is known. -/
def Acceptable (flags : UInt16) : Prop := flags &&& badFlags = 0

/-- A name of one label. -/
def labelBytes (name : WString) : List UInt8 := UInt8.ofNat name.length :: name

/-- A question for a name of one label. -/
def question (name : WString) (qtype qclass : UInt16) : List UInt8 :=
  labelBytes name ++ [0] ++ wordBytes qtype ++ wordBytes qclass

/-- The address record of a name. -/
def record (name : WString) (ip : UInt32) : List UInt8 := labelBytes name ++ rr ip

/-- The response to a question, with the address record if it is asked for. -/
def response (name : WString) (ip : UInt32) (id qtype qclass : UInt16) : List UInt8 :=
  header id (qtype = 1 ∧ qclass = 1) ++ question name qtype qclass ++
    if qtype = 1 ∧ qclass = 1 then record name ip else []

/-! ## Reading -/

/-- The word that `_conn_read16` reads. -/
def wordAt (rx : List UInt8) : UInt16 := (read16 rx).1

/-- The byte that `_conn_read8` reads. -/
def byteAt (rx : List UInt8) : UInt8 := (read8 rx).1

theorem wordAt_cons (high low : UInt8) (rx : List UInt8) :
    wordAt (high :: low :: rx) = ofBytes high low := by
  have high_lt := high.toNat_lt
  have low_lt := low.toNat_lt
  change (high.toUInt32.toUInt16.toUInt32 <<< 8 ||| low.toUInt32).toUInt16 = _
  rw [← UInt16.toNat_inj, toNat_ofBytes, UInt32.toNat_toUInt16, UInt32.toNat_or,
    UInt32.toNat_shiftLeft, UInt16.toNat_toUInt32, UInt32.toNat_toUInt16, UInt8.toNat_toUInt32,
    UInt8.toNat_toUInt32]
  change ((high.toNat % 2 ^ 16) <<< 8 % 2 ^ 32 ||| low.toNat) % 2 ^ 16 = _
  rw [Nat.mod_eq_of_lt (by omega : high.toNat < 2 ^ 16), Nat.shiftLeft_eq,
    Nat.mod_eq_of_lt (by omega : high.toNat * 2 ^ 8 < 2 ^ 32), Nat.mul_comm,
    ← Nat.two_pow_add_eq_or_of_lt low_lt]
  omega

theorem wordAt_short {rx : List UInt8} (short : rx.length < 2) : wordAt rx = 0xffff := by
  have all : ∀ high : UInt8,
      (high.toUInt32.toUInt16.toUInt32 <<< 8 ||| 0xffffffff : UInt32).toUInt16 = 0xffff :=
    forall_byte (by decide)
  rcases rx with _ | ⟨high, _ | ⟨_, rx⟩⟩
  · rfl
  · exact all high
  · simp only [List.length_cons] at short
    omega

theorem read16_eq (rx : List UInt8) : read16 rx = (wordAt rx, rx.drop 2) := by
  rcases rx with _ | ⟨_, _ | ⟨_, rx⟩⟩ <;> rfl

theorem read8_eq (rx : List UInt8) : read8 rx = (byteAt rx, rx.drop 1) := by
  rcases rx with _ | ⟨_, rx⟩ <;> rfl

/-! ## The name of the question -/

/-- What `qname` holds of a name of this length that is read from the datagram: bytes that are
missing are those it held before. -/
def nameRead (memory : Memory) (length : Nat) (rx : List UInt8) : List UInt8 :=
  (readS memory.1 length rx).1.take length

theorem length_readS (memory : Memory) {length : Nat} (short : length ≤ 63) (rx : List UInt8) :
    (readS memory.1 length rx).1.length = 64 := by
  have sized := memory.2
  simp only [readS, List.length_append, List.length_take, List.length_drop]
  omega

/-- For `strcmp` the names agree if they have the same bytes. -/
theorem strcmp_set {name buffer : List UInt8} (plain : 0 ∉ name)
    (longer : name.length < buffer.length) :
    cstr name = cstr (buffer.set name.length 0) ↔ buffer.take name.length = name := by
  have length : (buffer.take name.length).length = name.length := by
    rw [List.length_take, Nat.min_eq_left (Nat.le_of_lt longer)]
  rw [List.set_eq_take_append_cons_drop, if_pos longer, cstr_of_not_mem plain]
  generalize buffer.take name.length = text at length ⊢
  rcases cstr_append text with ⟨-, whole⟩ | ⟨behind, ends⟩
  · rw [cstr_append_of_not_mem whole]
    change name = text ++ [] ↔ _
    rw [List.append_nil]
    exact eq_comm
  · rw [cstr_append_zero]
    refine iff_of_false (fun same => ?_) (fun same => plain ?_)
    · have shorter := congrArg List.length ends
      rw [← same, length, List.length_append, List.length_cons] at shorter
      omega
    · rw [← same, ends]
      exact List.mem_append_right _ List.mem_cons_self

/-- What is sent if the bytes behind the name are these. -/
def reply (name : WString) (ip : UInt32) (id : UInt16) (rest : List UInt8) : List UInt8 :=
  let have_rr : Bool := wordAt (rest.drop 1) = 1 ∧ wordAt (rest.drop 3) = 1
  header id have_rr ++ labelBytes name ++ q ++ if have_rr then record name ip else []

section

variable (r : LLMNRResponder) (net : Interfaces) (remote_ip : UInt32) (memory : Memory)

theorem header_cons {packet : List UInt8} (long : 12 ≤ packet.length) :
    ∃ b0 b1 b2 b3 b4 b5 b6 b7 b8 b9 b10 b11 rest,
      packet = b0 :: b1 :: b2 :: b3 :: b4 :: b5 :: b6 :: b7 :: b8 :: b9 :: b10 :: b11 :: rest := by
  have twelve : (packet.take 12).length = 12 := by
    rw [List.length_take, Nat.min_eq_left long]
  rw [← List.take_append_drop 12 packet]
  generalize packet.take 12 = front at twelve ⊢
  simp only [List.length_eq_succ_iff, List.length_eq_zero_iff] at twelve
  obtain ⟨b0, _, rfl, b1, _, rfl, b2, _, rfl, b3, _, rfl, b4, _, rfl, b5, _, rfl, b6, _, rfl,
    b7, _, rfl, b8, _, rfl, b9, _, rfl, b10, _, rfl, b11, _, rfl, rfl⟩ := twelve
  exact ⟨b0, b1, b2, b3, b4, b5, b6, b7, b8, b9, b10, b11, _, rfl⟩

/-- Behind a header with one question, the name decides. -/
theorem processPacket_query (id flags : UInt16) (length : UInt8) (text sent : List UInt8) :
    r.processPacket net remote_ip memory (queryHeader id flags ++ length :: text) = some sent ↔
      Acceptable flags ∧ length.toNat = r.hostname.length ∧
        nameRead memory r.hostname.length text = r.hostname ∧
        sent = reply r.hostname (net.ip remote_ip) id (text.drop r.hostname.length) := by
  have one : ofBytes 0 1 = 1 := by decide
  have zero : ofBytes 0 0 = 0 := by decide
  have first : byteAt (length :: text) = length := by
    change length.toUInt32.toUInt8 = length
    exact UInt8.toUInt8_toUInt32 length
  simp only [LLMNRResponder.processPacket, read16_eq, read8_eq, List.drop_drop, queryHeader,
    wordBytes, List.cons_append, List.nil_append, Nat.reduceAdd, List.drop_succ_cons,
    List.drop_zero, wordAt_cons, ofBytes_bytes, one, zero, first]
  by_cases acceptable : flags &&& badFlags = 0
  · rw [if_neg (not_not_intro acceptable), if_neg (not_not_intro rfl), if_neg (by simp)]
    by_cases same : length.toNat = r.hostname.length
    · rw [if_neg (not_not_intro same), same]
      have longer : r.hostname.length < (readS memory.1 r.hostname.length text).1.length := by
        rw [length_readS memory r.short]
        exact Nat.lt_succ_of_le r.short
      have strcmp := strcmp_set r.plain longer
      by_cases name : nameRead memory r.hostname.length text = r.hostname
      · have kept : ((readS memory.1 r.hostname.length text).1.set r.hostname.length 0).take
            r.hostname.length = r.hostname := by
          rw [List.take_set_of_le (Nat.le_refl _)]
          exact name
        have label : length = UInt8.ofNat r.hostname.length := by
          rw [← same, UInt8.ofNat_toNat]
        rw [if_neg (not_not_intro (strcmp.mpr name)), kept, label, Option.some.injEq]
        exact ⟨fun sent => ⟨acceptable, rfl, name, sent.symm⟩, fun right => right.2.2.2.symm⟩
      · rw [if_pos (fun equal => name (strcmp.mp equal))]
        exact iff_of_false (Option.some_ne_none _).symm fun right => name right.2.2.1
    · rw [if_pos same]
      exact iff_of_false (Option.some_ne_none _).symm fun right => same right.2.1
  · rw [if_pos acceptable]
    exact iff_of_false (Option.some_ne_none _).symm fun right => acceptable right.1

/-- Nothing else is answered. -/
theorem processPacket_other {packet : List UInt8}
    (other : ∀ id flags length text, packet ≠ queryHeader id flags ++ length :: text) :
    r.processPacket net remote_ip memory packet = none := by
  simp only [LLMNRResponder.processPacket, read16_eq, List.drop_drop]
  by_cases long : 12 ≤ packet.length
  · obtain ⟨b0, b1, b2, b3, b4, b5, b6, b7, b8, b9, b10, b11, rest, rfl⟩ := header_cons long
    simp only [Nat.reduceAdd, List.drop_succ_cons, List.drop_zero, wordAt_cons]
    split
    · rfl
    split
    · rfl
    rename_i one
    split
    · rfl
    rename_i zero
    rcases rest with _ | ⟨length, text⟩
    · refine if_pos fun same => ?_
      have short := r.short
      rw [← same] at short
      exact absurd short (by decide)
    · exfalso
      simp only [ne_eq, not_or, not_not] at one zero
      obtain ⟨rfl, rfl⟩ := ofBytes_inj.mp (one.trans (show (1 : UInt16) = ofBytes 0 1 by decide))
      have none : (0 : UInt16) = ofBytes 0 0 := by decide
      obtain ⟨rfl, rfl⟩ := ofBytes_inj.mp (zero.1.trans none)
      obtain ⟨rfl, rfl⟩ := ofBytes_inj.mp (zero.2.1.trans none)
      obtain ⟨rfl, rfl⟩ := ofBytes_inj.mp (zero.2.2.trans none)
      refine other (ofBytes b0 b1) (ofBytes b2 b3) length text ?_
      rw [queryHeader, wordBytes, wordBytes, highByte_ofBytes, lowByte_ofBytes, highByte_ofBytes,
        lowByte_ofBytes]
      rfl
  · have last : wordAt (packet.drop 10) = 0xffff :=
      wordAt_short (by rw [List.length_drop]; omega)
    split
    · rfl
    split
    · rfl
    refine if_pos (.inr (.inr ?_))
    rw [last]
    decide

/-! ## Queries for the own name -/

/-- The datagram has an acceptable query header, and a name behind it that is taken for this one;
behind its bytes there is the rest. -/
def Reached (name : WString) (memory : Memory) (packet : List UInt8) (id : UInt16)
    (rest : List UInt8) : Prop :=
  ∃ flags text, Acceptable flags ∧
    packet = queryHeader id flags ++ UInt8.ofNat name.length :: text ∧
    nameRead memory name.length text = name ∧ rest = text.drop name.length

theorem processPacket_eq_some (packet sent : List UInt8) :
    r.processPacket net remote_ip memory packet = some sent ↔
      ∃ id rest, Reached r.hostname memory packet id rest ∧
        sent = reply r.hostname (net.ip remote_ip) id rest := by
  have short := r.short
  by_cases query : ∃ id flags length text, packet = queryHeader id flags ++ length :: text
  · constructor
    · obtain ⟨id, flags, length, text, rfl⟩ := query
      intro answered
      obtain ⟨acceptable, same, name, sent⟩ :=
        (processPacket_query r net remote_ip memory id flags length text sent).mp answered
      refine ⟨id, _, ⟨flags, text, acceptable, ?_, name, rfl⟩, sent⟩
      rw [← same, UInt8.ofNat_toNat]
    · rintro ⟨id, rest, ⟨flags, text, acceptable, rfl, name, rfl⟩, sent⟩
      refine (processPacket_query r net remote_ip memory id flags _ text _).mpr
        ⟨acceptable, ?_, name, sent⟩
      exact UInt8.toNat_ofNat_of_lt (show r.hostname.length < 256 by omega)
  · rw [processPacket_other r net remote_ip memory fun id flags length text same =>
      query ⟨id, flags, length, text, same⟩]
    refine iff_of_false (Option.some_ne_none _).symm ?_
    rintro ⟨id, _, ⟨flags, text, -, rfl, -⟩, -⟩
    exact query ⟨id, flags, _, text, rfl⟩

theorem nameRead_whole {length : Nat} {text : List UInt8} (whole : length ≤ text.length) :
    nameRead memory length text = text.take length := by
  rw [nameRead, readS, List.take_append_of_le_length (by rw [List.length_take]; omega),
    List.take_take, Nat.min_self]

theorem nameRead_append (name rest : List UInt8) :
    nameRead memory name.length (name ++ rest) = name := by
  rw [nameRead_whole memory (by rw [List.length_append]; omega), List.take_left]

theorem question_append (name : WString) (qtype qclass : UInt16) (rest : List UInt8) :
    question name qtype qclass ++ rest =
      UInt8.ofNat name.length ::
        (name ++ (0 :: (wordBytes qtype ++ (wordBytes qclass ++ rest)))) := by
  simp only [question, labelBytes, List.cons_append, List.append_assoc, List.nil_append]

/-- A question for an address. -/
theorem reply_address (name : WString) (ip : UInt32) (id : UInt16) (rest : List UInt8) :
    reply name ip id (q ++ rest) = response name ip id 1 1 := by
  have first : wordAt ((q ++ rest).drop 1) = 1 := wordAt_cons 0 1 (0 :: 1 :: rest)
  have second : wordAt ((q ++ rest).drop 3) = 1 := wordAt_cons 0 1 rest
  have text : labelBytes name ++ q = question name 1 1 := by
    rw [question, List.append_assoc, List.append_assoc]
    rfl
  rw [reply, response, first, second, List.append_assoc (header _ _), text]
  rfl

/-- The question of an answer is one for an address. -/
theorem response_question {name : WString} {ip ip' : UInt32} {id id' qtype qclass : UInt16}
    {rest : List UInt8} (same : reply name ip id rest = response name ip' id' qtype qclass) :
    qtype = 1 ∧ qclass = 1 := by
  simp only [reply, response, question, List.append_assoc] at same
  have behind := (List.append_inj same rfl).2
  have types := List.append_cancel_left behind
  simp only [q, wordBytes, List.cons_append, List.nil_append, List.cons.injEq, true_and] at types
  obtain ⟨typeHigh, typeLow, classHigh, classLow, -⟩ := types
  rw [← ofBytes_bytes qtype, ← ofBytes_bytes qclass, ← typeHigh, ← typeLow, ← classHigh,
    ← classLow]
  exact ⟨by decide, by decide⟩

/-- **Answers.** Exactly the queries for the own name are answered, with their own question and the
address where it is asked for, if what is taken for such a query has the end of the name and the
address type and class behind it, and only then. -/
theorem query_answered (packet : List UInt8) :
    (∀ sent, r.processPacket net remote_ip memory packet = some sent ↔
      ∃ id flags qtype qclass rest, Acceptable flags ∧
        packet = queryHeader id flags ++ (question r.hostname qtype qclass ++ rest) ∧
        sent = response r.hostname (net.ip remote_ip) id qtype qclass) ↔
    ∀ id rest, Reached r.hostname memory packet id rest → [0, 0, 1, 0, 1] <+: rest := by
  constructor
  · intro answers id rest reached
    obtain ⟨id', flags', qtype, qclass, rest', -, whole, sent⟩ := (answers _).mp
      ((processPacket_eq_some r net remote_ip memory packet _).mpr ⟨id, rest, reached, rfl⟩)
    obtain ⟨rfl, rfl⟩ := response_question sent
    obtain ⟨flags, text, -, rfl, -, rfl⟩ := reached
    rw [question_append] at whole
    obtain ⟨-, texts⟩ := List.append_inj whole rfl
    rw [(List.cons.inj texts).2, List.drop_left]
    exact List.prefix_append [0, 0, 1, 0, 1] rest'
  · intro follows sent
    rw [processPacket_eq_some]
    constructor
    · rintro ⟨id, rest, reached, rfl⟩
      obtain ⟨behind, address⟩ := follows id rest reached
      obtain ⟨flags, text, acceptable, rfl, name, ends⟩ := reached
      have inside : r.hostname.length ≤ text.length := by
        by_contra short
        rw [← address, List.drop_eq_nil_of_le (by omega)] at ends
        cases ends
      rw [nameRead_whole memory inside] at name
      refine ⟨id, flags, 1, 1, behind, acceptable, ?_, ?_⟩
      · rw [question_append]
        congr 2
        rw [← List.take_append_drop r.hostname.length text, name, ← ends, ← address]
        rfl
      · rw [← address]
        exact reply_address _ _ _ _
    · rintro ⟨id, flags, qtype, qclass, rest, acceptable, rfl, rfl⟩
      rw [question_append] at follows ⊢
      have reached : Reached r.hostname memory
          (queryHeader id flags ++ UInt8.ofNat r.hostname.length :: (r.hostname ++
            (0 :: (wordBytes qtype ++ (wordBytes qclass ++ rest))))) id
          (0 :: (wordBytes qtype ++ (wordBytes qclass ++ rest))) :=
        ⟨flags, _, acceptable, rfl, nameRead_append memory _ _, by rw [List.drop_left]⟩
      refine ⟨id, _, reached, ?_⟩
      obtain ⟨behind, address⟩ := follows id _ reached
      simp only [wordBytes, List.cons_append, List.nil_append, List.cons.injEq, true_and] at address
      obtain ⟨typeHigh, typeLow, classHigh, classLow, -⟩ := address
      have type : qtype = 1 := by
        rw [← ofBytes_bytes qtype, ← typeHigh, ← typeLow]
        decide
      have klass : qclass = 1 := by
        rw [← ofBytes_bytes qclass, ← classHigh, ← classLow]
        decide
      rw [type, klass]
      exact (reply_address r.hostname (net.ip remote_ip) id rest).symm

end

/-- A query for the own IPv6 address is answered with a question for the IPv4 address. -/
theorem query_answered_other_type :
    ¬ ∀ (r : LLMNRResponder) (net : Interfaces) (remote_ip : UInt32) (memory : Memory)
      (packet sent : List UInt8), r.processPacket net remote_ip memory packet = some sent ↔
        ∃ id flags qtype qclass rest, Acceptable flags ∧
          packet = queryHeader id flags ++ (question r.hostname qtype qclass ++ rest) ∧
          sent = response r.hostname (net.ip remote_ip) id qtype qclass := by
  intro all
  have sent : (⟨ofString "esp", by decide, by decide⟩ : LLMNRResponder).processPacket
      ⟨false, 0, 0, 0⟩ 0 ⟨List.replicate 64 0, by decide⟩
      (queryHeader 7 0 ++ question (ofString "esp") 28 1) =
        some (reply (ofString "esp") 0 7 [0, 0, 28, 0, 1]) := by
    decide
  obtain ⟨id, flags, qtype, qclass, rest, -, whole, same⟩ := (all _ _ _ _ _ _).mp sent
  obtain ⟨rfl, rfl⟩ := response_question same
  obtain ⟨-, questions⟩ := List.append_inj whole rfl
  have types : some (28 : UInt8) = some 1 := congrArg (fun bytes => bytes[6]?) questions
  exact absurd types (by decide)

end Esp8266.Source.Llmnr
