import Mathlib.Data.List.Chain
import Esp8266.Guarantees.SerialWords

/-!
# How `SoftwareSerial` decodes the changes of its pin

The receiver is told of the times at which its pin changes, and decodes them whenever it is asked.
As long as these times are within a part of a bit of those that `write` drives, a change ends a
stretch of the word that was sent, and the word is delivered with its last stretch, or by a stop bit
that is made up once it is sure to have begun.
-/
set_option autoImplicit false

namespace Esp8266.Source.SoftwareSerial
open Esp8266.Lib Esp8266.Lib.Word32 CircularQueue

variable {s : SoftwareSerial}

/-! ## Measuring -/

theorem stamp_eq (cycle : Nat) (level : Bool) :
    stamp cycle level = 2 * (cycle / 2) + if level then 1 else 0 := by
  have halves := Nat.div_add_mod (stamp cycle level) 2
  have high : stamp cycle level / 2 = cycle / 2 := by
    unfold stamp
    rw [Nat.xor_div_two, Nat.or_div_two]
    cases level <;> simp
  have odd : (cycle ||| 1) % 2 = 1 := Nat.or_mod_two_eq_one.2 (Or.inr rfl)
  have low : stamp cycle level % 2 = if level then 1 else 0 := by
    unfold stamp
    cases level with
    | true => simp
    | false =>
      have flipped : ¬((cycle ||| 1) ^^^ 1) % 2 = 1 := by
        rw [Nat.xor_mod_two_eq_one, odd]
        decide
      simpa using flipped
  omega

theorem stamp_level (cycle : Nat) (level : Bool) : (stamp cycle level).testBit 0 = level := by
  rw [stamp_eq, Nat.testBit_zero]
  cases level <;> simp

/-- The number of bits that `rxBits` counts in a number of cycles. -/
def countBits (bitCycles cycles : Nat) : Nat :=
  let bits := cycles / bitCycles % 256
  if bitCycles >>> 1 < cycles % bitCycles then (bits + 1) % 256 else bits

theorem rxBitsAt_eq (isrCycle : Nat) (s : SoftwareSerial) :
    s.rxBitsAt isrCycle =
      rxLoop (xor (s.isrLastCycle.testBit 0) s.invert)
        (countBits s.bitCycles (sub32 isrCycle s.isrLastCycle))
        (countBits s.bitCycles (sub32 isrCycle s.isrLastCycle))
        { s with isrLastCycle := isrCycle } := rfl

theorem countBits_round {bitCycles cycles : Nat} (positive : 0 < bitCycles)
    (short : cycles ≤ 255 * bitCycles + bitCycles / 2) :
    cycles ≤ countBits bitCycles cycles * bitCycles + bitCycles / 2 ∧
      countBits bitCycles cycles * bitCycles ≤ cycles + bitCycles / 2 := by
  have half : bitCycles >>> 1 = bitCycles / 2 := Nat.shiftRight_eq_div_pow bitCycles 1
  obtain ⟨q, whole⟩ : ∃ q, q = cycles / bitCycles := ⟨_, rfl⟩
  have parts : q * bitCycles + cycles % bitCycles = cycles := by
    rw [whole, Nat.mul_comm]
    exact Nat.div_add_mod cycles bitCycles
  have below := Nat.mod_lt cycles positive
  have few : q ≤ 255 := by
    by_contra more
    have product : 256 * bitCycles ≤ q * bitCycles := Nat.mul_le_mul_right _ (by omega)
    omega
  unfold countBits
  rw [half, ← whole, Nat.mod_eq_of_lt (show q < 256 by omega)]
  dsimp only
  split
  · have fewer : q ≠ 255 := by
      rintro rfl
      omega
    rw [Nat.mod_eq_of_lt (by omega), Nat.succ_mul]
    omega
  · omega

/-- More cycles than `n` bits less half a bit, but not more than can be counted. -/
theorem countBits_least {bitCycles cycles n error : Nat} (small : 2 * error < bitCycles)
    (low : n * bitCycles ≤ cycles + error) (high : cycles ≤ 255 * bitCycles + error) :
    n ≤ countBits bitCycles cycles := by
  have round := @countBits_round bitCycles cycles (by omega) (by omega)
  by_contra more
  have product := Nat.mul_le_mul_right bitCycles (Nat.not_le.1 more)
  rw [Nat.succ_mul] at product
  omega

/-- A number of cycles less than half a bit from `n` bits. -/
theorem countBits_near {bitCycles cycles n error : Nat} (small : 2 * error < bitCycles)
    (few : n < 256) (low : n * bitCycles ≤ cycles + error) (high : cycles ≤ n * bitCycles + error) :
    countBits bitCycles cycles = n := by
  have limit : n * bitCycles ≤ 255 * bitCycles := Nat.mul_le_mul_right _ (by omega)
  have round := @countBits_round bitCycles cycles (by omega) (by omega)
  refine Nat.le_antisymm ?_ (countBits_least small low (by omega))
  by_contra more
  have product := Nat.mul_le_mul_right bitCycles (Nat.not_le.1 more)
  rw [Nat.succ_mul] at product
  omega

/-- The distance of two stamps is that of the cycle counts, but for their lowest bits. -/
theorem stamp_distance {a b : Nat} (la lb : Bool) (some : a + 2 ≤ b) (short : b + 2 < a + 2 ^ 32) :
    b ≤ a + sub32 (stamp (b % 2 ^ 32) lb) (stamp (a % 2 ^ 32) la) + 2 ∧
      a + sub32 (stamp (b % 2 ^ 32) lb) (stamp (a % 2 ^ 32) la) ≤ b + 2 := by
  rw [stamp_eq, stamp_eq]
  unfold sub32
  split <;> split <;> omega

theorem faux_distance {a det : Nat} (level : Bool) (some : 2 ≤ det) (short : det + 2 < 2 ^ 32) :
    let last := stamp (a % 2 ^ 32) level
    det ≤ sub32 (stamp (add32 last det) level) last + 2 ∧
      sub32 (stamp (add32 last det) level) last ≤ det + 2 := by
  intro last
  have last_eq : last = 2 * (a % 2 ^ 32 / 2) + if level then 1 else 0 := stamp_eq _ _
  rw [stamp_eq, last_eq]
  unfold sub32 add32
  split <;> omega

/-! ## Changes of the pin -/

/-- A stretch of a word. -/
structure Piece where
  data : Nat
  parity : Bool
  span : Span

namespace Piece

/-- What is to be read of its word. -/
def pair (s : SoftwareSerial) (a : Piece) : UInt8 × Bool :=
  (UInt8.ofNat a.data, s.keptParity a.parity)

/-- The bits of the stretch are those of its word. -/
structure Fits (s : SoftwareSerial) (a : Piece) : Prop where
  data : a.data < 2 ^ s.dataBits
  equal : ∀ i, a.span.before ≤ i → i < a.span.before + a.span.bits →
    wordBit a.data a.parity s i = a.span.level
  some : 1 ≤ a.span.bits
  inner : a.span.last = false → a.span.before + a.span.bits ≤ s.bodyBits
  final : a.span.last = true → a.span.level = true ∧ 1 ≤ a.span.before ∧
    a.span.before ≤ s.bodyBits ∧ s.bodyBits < a.span.before + a.span.bits

/-- The next stretch goes on with the word, or begins another one. -/
def Next (a b : Piece) : Prop :=
  if a.span.last then b.span.before = 0
  else b.data = a.data ∧ b.parity = a.parity ∧ b.span.before = a.span.before + a.span.bits ∧
    b.span.before ≠ 0

end Piece

/-- A stretch goes on after another one, or where the receiver waits. -/
def Continues : Option Piece → Piece → Prop
  | none, b => b.span.before = 0
  | some a, b => a.Next b

/-- The stretches after `seen` make whole words. -/
def Joined (s : SoftwareSerial) : Option Piece → List Piece → Prop
  | seen, [] => ∀ a ∈ seen, a.span.last = true
  | seen, b :: rest => Continues seen b ∧ b.Fits s ∧ Joined s (some b) rest

/-- The words that begin with one of the stretches. -/
def starts (s : SoftwareSerial) (pieces : List Piece) : List (UInt8 × Bool) :=
  (pieces.filter fun a => a.span.before = 0).map (·.pair s)

/-- A change of the pin, and the stretch that begins with it. -/
structure Stretch where
  time : Nat
  piece : Piece

/-- When a period begins. -/
def Stretch.change (s : SoftwareSerial) (a : Stretch) : Nat × Period :=
  (a.time, s.period a.piece.span)

/-- What the interrupt handler records of a change. -/
def Stretch.stamp (s : SoftwareSerial) (a : Stretch) : Nat :=
  SoftwareSerial.stamp (a.time % 2 ^ 32) (a.change s).2.level

theorem Stretch.stamp_congr {s s' : SoftwareSerial} (same : s'.setup = s.setup) (a : Stretch) :
    a.stamp s' = a.stamp s := by
  unfold Stretch.stamp Stretch.change period
  rw [(setup_fields same).1]

/-- A period lasts for its cycles, but for `slack` of them, or longer where it is not `sync`. -/
def Timed (slack : Nat) (a b : Nat × Period) : Prop :=
  a.1 + a.2.cycles ≤ b.1 + slack ∧ (a.2.sync = true → b.1 ≤ a.1 + a.2.cycles + slack)

/-- Not more bits than a byte can count lie between two changes. -/
def Countable (s : SoftwareSerial) (a b : Stretch) : Prop := b.time ≤ a.time + 255 * s.bitCycles

/-! ## Decoding -/

/-- The receiver has decoded everything before a stretch, or waits for the next word. -/
def Decoding (s : SoftwareSerial) : Option Stretch → Prop
  | none => Standing 0 false 0 s ∧ xor (s.isrLastCycle.testBit 0) s.invert = true
  | some a => Standing a.piece.data a.piece.parity a.piece.span.before s ∧
      s.isrLastCycle = a.stamp s

/-- The word within which the receiver is. -/
def due (s : SoftwareSerial) (seen : Option Stretch) : List (UInt8 × Bool) :=
  (seen.map (·.piece.pair s)).toList

theorem standing_zero {data : Nat} {parity : Bool} (standing : Standing data parity 0 s)
    (data' : Nat) (parity' : Bool) : Standing data' parity' 0 s := by
  obtain ⟨place, byte, kept⟩ := standing
  refine ⟨place, fun i => ?_, ?_⟩
  · have none : ¬(i < 8 ∧ 8 ≤ i + min (0 - 1) s.dataBits) := by omega
    rw [byte i, decide_eq_false none, Bool.false_and, Bool.false_and]
  · have none : ¬s.dataBits + 1 < 0 := by omega
    rw [kept, decide_eq_false none, Bool.false_and, Bool.false_and]

variable {capacity slack : Nat} {par : Bool} {l : Pairs}

theorem Standing.at_cycle {data k : Nat} {parity : Bool} (standing : Standing data parity k s)
    (isrCycle : Nat) : Standing data parity k { s with isrLastCycle := isrCycle } :=
  ⟨standing.place, standing.byte, standing.parity⟩

theorem storeByte_cycle (s : SoftwareSerial) :
    s.storeByte.isrLastCycle = s.isrLastCycle ∧ s.storeByte.isrBuffer = s.isrBuffer := by
  unfold storeByte
  dsimp only
  split
  · exact ⟨rfl, rfl⟩
  · split
    · exact ⟨rfl, rfl⟩
    · split <;> exact ⟨rfl, rfl⟩

/-- A delivered word is kept or told of as lost, and the receiver waits. -/
theorem Received.delivered (received : Received capacity par s l) (data : Nat) (parity : Bool) :
    Received capacity par (s.delivered data parity)
        (l.add capacity [(UInt8.ofNat data, s.keptParity parity)]) ∧
      Standing 0 false 0 (s.delivered data parity) ∧
      (s.delivered data parity).isrLastCycle = s.isrLastCycle := by
  have stored := (received.moved (s.bodyBits - 2) data (s.keptParity parity)).storeByte
  refine ⟨stored.moved _ _ _, standing_moved ?_ ?_ ?_, (storeByte_cycle _).1⟩
  · rw [if_pos rfl, pduBits_congr (storeByte_setup _)]
    show (s.pduBits : Int) - 1 ≤ s.pduBits
    omega
  · intro i
    rw [Nat.zero_testBit, Nat.zero_testBit, Bool.and_false]
  · rw [Bool.and_false]

theorem Decoding.distance {a b : Stretch} (decoding : Decoding s (some a))
    (some : a.time + 2 ≤ b.time) (short : b.time + 2 < a.time + 2 ^ 32) :
    b.time ≤ a.time + sub32 (b.stamp s) s.isrLastCycle + 2 ∧
      a.time + sub32 (b.stamp s) s.isrLastCycle ≤ b.time + 2 := by
  rw [decoding.2]
  exact stamp_distance _ _ some short

theorem Decoding.level {a : Stretch} (decoding : Decoding s (some a)) :
    xor (s.isrLastCycle.testBit 0) s.invert = a.piece.span.level := by
  rw [decoding.2, Stretch.stamp, stamp_level]
  show xor (xor a.piece.span.level s.invert) s.invert = a.piece.span.level
  rw [Bool.xor_assoc, Bool.xor_self, Bool.xor_false]

theorem Configured.body_le (configured : Configured s) : s.bodyBits ≤ 10 := by
  have byte := configured.byte
  unfold bodyBits
  split <;> omega

theorem Piece.Fits.inner_le {a : Piece} (fits : a.Fits s) (configured : Configured s)
    (inner : a.span.last = false) : a.span.bits * s.bitCycles ≤ 10 * s.bitCycles := by
  have room := fits.inner inner
  have body := configured.body_le
  exact Nat.mul_le_mul_right _ (by omega)

/-- The end of a stretch that is not the last one of its word: its bits are counted. -/
theorem decode_inner (configured : Configured s) (slow : 2 * slack + 5 ≤ s.bitCycles)
    (received : Received capacity par s l) {a b : Stretch} (decoding : Decoding s (some a))
    (fits : a.piece.Fits s) (next : a.piece.Next b.piece)
    (timed : Timed slack (a.change s) (b.change s)) (inner : a.piece.span.last = false) :
    Received capacity par (s.rxBitsAt (b.stamp s)) l ∧
      Decoding (s.rxBitsAt (b.stamp s)) (some b) := by
  have level := decoding.level
  have standing := decoding.1
  obtain ⟨least, most⟩ := timed
  have room := fits.inner inner
  have some := fits.some
  have short := configured.short
  have body := configured.body_le
  have few := fits.inner_le configured inner
  have one : s.bitCycles ≤ a.piece.span.bits * s.bitCycles := Nat.le_mul_of_pos_left _ some
  rw [Piece.Next, inner, if_neg Bool.false_ne_true] at next
  obtain ⟨same, same', place, -⟩ := next
  simp only [Stretch.change, period, inner, Bool.not_false, forall_const] at least most
  have distance := @Decoding.distance _ a b decoding (by omega) (by omega)
  have counted : countBits s.bitCycles (sub32 (b.stamp s) s.isrLastCycle) = a.piece.span.bits :=
    @countBits_near _ _ _ (slack + 2) (by omega) (by omega) (by omega) (by omega)
  obtain ⟨curBit, curByte, curParity, looped, stands⟩ :=
    (standing.at_cycle (b.stamp s)).within (configured.at_cycle _) room (Nat.le_refl _) fits.equal
  have decoded : s.rxBitsAt (b.stamp s) =
      SoftwareSerial.moved curBit curByte curParity { s with isrLastCycle := b.stamp s } := by
    rw [rxBitsAt_eq, level, counted]
    exact looped
  rw [decoded]
  refine ⟨(received.at_cycle _).moved _ _ _, ?_, rfl⟩
  rw [same, same', place]
  exact stands

/-- The last stretch of a word has ended once all bits before the stop bits are counted. -/
theorem decode_end (configured : Configured s) (received : Received capacity par s l) {a : Stretch}
    (decoding : Decoding s (some a)) (fits : a.piece.Fits s) (final : a.piece.span.last = true)
    {isrCycle : Nat} (reach : s.bodyBits <
      a.piece.span.before + countBits s.bitCycles (sub32 isrCycle s.isrLastCycle)) :
    Received capacity par (s.rxBitsAt isrCycle) (l.add capacity [a.piece.pair s]) ∧
      Standing 0 false 0 (s.rxBitsAt isrCycle) ∧ (s.rxBitsAt isrCycle).isrLastCycle = isrCycle := by
  have level := decoding.level
  obtain ⟨high, begun, before, whole⟩ := fits.final final
  have highs : ∀ i, a.piece.span.before ≤ i → i < s.bodyBits →
      wordBit a.piece.data a.piece.parity s i = true :=
    fun i above below => (fits.equal i above (by omega)).trans high
  have looped := (decoding.1.at_cycle isrCycle).delivers (configured.at_cycle _) fits.data begun
    before reach (Nat.le_refl _) highs
  have decoded : s.rxBitsAt isrCycle =
      SoftwareSerial.delivered a.piece.data a.piece.parity
        { s with isrLastCycle := isrCycle } := by
    rw [rxBitsAt_eq, level, high]
    exact looped
  rw [decoded]
  exact (received.at_cycle isrCycle).delivered a.piece.data a.piece.parity

/-- The end of the last stretch of a word, however long it lasted: the word is delivered. -/
theorem decode_last (configured : Configured s) (slow : 2 * slack + 5 ≤ s.bitCycles)
    (received : Received capacity par s l) {a b : Stretch} (decoding : Decoding s (some a))
    (fits : a.piece.Fits s) (next : a.piece.Next b.piece)
    (timed : Timed slack (a.change s) (b.change s)) (countable : Countable s a b)
    (final : a.piece.span.last = true) :
    Received capacity par (s.rxBitsAt (b.stamp s)) (l.add capacity [a.piece.pair s]) ∧
      Decoding (s.rxBitsAt (b.stamp s)) (some b) := by
  obtain ⟨-, -, -, reach⟩ := fits.final final
  obtain ⟨least, -⟩ := timed
  have some := fits.some
  have short := configured.short
  have one : s.bitCycles ≤ a.piece.span.bits * s.bitCycles := Nat.le_mul_of_pos_left _ some
  rw [Piece.Next, final, if_pos rfl] at next
  simp only [Stretch.change, period] at least
  unfold Countable at countable
  have distance := @Decoding.distance _ a b decoding (by omega) (by omega)
  have counted :
      a.piece.span.bits ≤ countBits s.bitCycles (sub32 (b.stamp s) s.isrLastCycle) :=
    @countBits_least _ _ _ (slack + 2) (by omega) (by omega) (by omega)
  obtain ⟨kept, waits, cycle⟩ := decode_end configured received decoding fits final
    (show s.bodyBits < _ + countBits s.bitCycles (sub32 (b.stamp s) s.isrLastCycle) by omega)
  refine ⟨kept, ?_, ?_⟩
  · rw [next]
    exact standing_zero waits _ _
  · rw [cycle, b.stamp_congr (rxBitsAt_setup _ s)]

theorem decode_first (received : Received capacity par s l) {b : Stretch}
    (decoding : Decoding s none) (begins : b.piece.span.before = 0) :
    Received capacity par (s.rxBitsAt (b.stamp s)) l ∧
      Decoding (s.rxBitsAt (b.stamp s)) (some b) := by
  obtain ⟨waits, level⟩ := decoding
  have rest : s.rxCurBit ≥ s.pduBits - 1 := by
    have place := waits.place
    rw [if_pos rfl] at place
    exact place
  have skipped : ∀ fuel bits (s : SoftwareSerial), s.rxCurBit ≥ s.pduBits - 1 →
      s.rxLoop true fuel bits = s := by
    intro fuel bits s rest
    cases fuel with
    | zero => rfl
    | succ fuel =>
      rw [rxLoop]
      split
      · rfl
      · exact if_pos rfl
  have decoded : s.rxBitsAt (b.stamp s) = { s with isrLastCycle := b.stamp s } := by
    rw [rxBitsAt_eq, level]
    exact skipped _ _ _ rest
  have waits' := waits.at_cycle (b.stamp s)
  rw [decoded]
  refine ⟨received.at_cycle _, ?_, rfl⟩
  rw [begins]
  exact standing_zero waits' _ _

variable {c : SoftwareSerial} {seen : Option Stretch} {unread rest : List Stretch}

theorem Stretch.change_congr (same : s.setup = c.setup) (a : Stretch) :
    a.change s = a.change c := by
  obtain ⟨invert, _, _, _, bitCycles, _⟩ := setup_fields same
  rw [Stretch.change, Stretch.change, period, period, invert, bitCycles]

theorem Piece.pair_congr (same : s.setup = c.setup) (a : Piece) : a.pair s = a.pair c := by
  rw [Piece.pair, Piece.pair, keptParity, keptParity, (setup_fields same).2.2.1]

theorem Piece.Fits.congr {a : Piece} (fits : a.Fits c) (same : s.setup = c.setup) : a.Fits s := by
  have body := bodyBits_congr same
  obtain ⟨data, equal, some, inner, final⟩ := fits
  rw [← (setup_fields same).2.1] at data
  rw [← body] at inner final
  exact ⟨data, fun i above below => (wordBit_congr same _ _ _).trans (equal i above below), some,
    inner, final⟩

/-- A change is decoded: the word that ends with it is delivered. -/
theorem decode_change (same : s.setup = c.setup) (configured : Configured c)
    (slow : 2 * slack + 5 ≤ c.bitCycles) (received : Received capacity par s l) {b : Stretch}
    (decoding : Decoding s seen) (fits : ∀ a ∈ seen, a.piece.Fits c)
    (continues : Continues (seen.map (·.piece)) b.piece)
    (timed : ∀ a ∈ seen, Timed slack (a.change c) (b.change c))
    (countable : ∀ a ∈ seen, a.piece.span.last = true → Countable c a b) :
    ∃ new, due c seen ++ starts c [b.piece] = new ++ due c (some b) ∧
      Received capacity par (s.rxBitsAt (b.stamp c)) (l.add capacity new) ∧
      Decoding (s.rxBitsAt (b.stamp c)) (some b) := by
  have bitCycles := (setup_fields same).2.2.2.2.1
  have configured' := configured.congr same
  rw [← b.stamp_congr same]
  rw [← bitCycles] at slow
  cases seen with
  | none =>
    have begins : b.piece.span.before = 0 := continues
    obtain ⟨kept, next⟩ := decode_first received decoding begins
    refine ⟨[], ?_, ?_, next⟩
    · simp [due, starts, begins]
    · rw [Pairs.add_nil received.length_le]
      exact kept
  | some a =>
    have fits' := (fits a rfl).congr same
    have next : a.piece.Next b.piece := continues
    have timed' := timed a rfl
    rw [← a.change_congr same, ← b.change_congr same] at timed'
    cases final : a.piece.span.last with
    | true =>
      have countable' : Countable s a b := by
        rw [Countable, bitCycles]
        exact countable a rfl final
      obtain ⟨kept, decoded⟩ := decode_last configured' slow received decoding fits' next timed'
        countable' final
      rw [Piece.Next, final, if_pos rfl] at next
      rw [a.piece.pair_congr same] at kept
      exact ⟨[a.piece.pair c], by simp [due, starts, next], kept, decoded⟩
    | false =>
      obtain ⟨kept, decoded⟩ := decode_inner configured' slow received decoding fits' next timed'
        final
      rw [Piece.Next, final, if_neg Bool.false_ne_true] at next
      obtain ⟨data, parity, -, later⟩ := next
      refine ⟨[], ?_, ?_, decoded⟩
      · simp [due, starts, later, Piece.pair, data, parity]
      · rw [Pairs.add_nil received.length_le]
        exact kept

theorem starts_append (xs ys : List Piece) : starts c (xs ++ ys) = starts c xs ++ starts c ys := by
  rw [starts, starts, starts, List.filter_append, List.map_append]

theorem decode_all (configured : Configured c) (slow : 2 * slack + 5 ≤ c.bitCycles)
    (unread : List Stretch) :
    ∀ (s : SoftwareSerial) (l : Pairs) (seen : Option Stretch), s.setup = c.setup →
      Received capacity par s l → Decoding s seen → (∀ a ∈ seen, a.piece.Fits c) →
      Joined c (seen.map (·.piece)) ((unread ++ rest).map (·.piece)) →
      (seen.toList ++ unread).IsChain (fun a b => Timed slack (a.change c) (b.change c)) →
      (seen.toList ++ unread).IsChain (fun a b => a.piece.span.last = true → Countable c a b) →
      ∃ new seen', due c seen ++ starts c (unread.map (·.piece)) = new ++ due c seen' ∧
        Received capacity par
          ((unread.map (Stretch.stamp c)).foldl (fun s isrCycle => s.rxBitsAt isrCycle) s)
          (l.add capacity new) ∧
        Decoding ((unread.map (Stretch.stamp c)).foldl (fun s isrCycle => s.rxBitsAt isrCycle) s)
          seen' ∧
        (∀ a ∈ seen', a.piece.Fits c) ∧ Joined c (seen'.map (·.piece)) (rest.map (·.piece)) ∧
        seen' = (seen.toList ++ unread).getLast? := by
  induction unread with
  | nil =>
    intro s l seen same received decoding fits joined _ _
    refine ⟨[], seen, ?_, ?_, decoding, fits, joined, ?_⟩
    · simp [starts]
    · rw [Pairs.add_nil received.length_le]
      exact received
    · cases seen <;> rfl
  | cons b unread ih =>
    intro s l seen same received decoding fits joined timed counted
    obtain ⟨continues, fits', joined'⟩ := joined
    have first : ∀ a ∈ seen, Timed slack (a.change c) (b.change c) ∧
        (a.piece.span.last = true → Countable c a b) := by
      intro a here
      cases here
      exact ⟨(List.isChain_cons_cons.1 timed).1, (List.isChain_cons_cons.1 counted).1⟩
    obtain ⟨new, split, kept, decoded⟩ := decode_change same configured slow received decoding fits
      continues (fun a here => (first a here).1) (fun a here => (first a here).2)
    have timed' := timed.right_of_append
    have counted' := counted.right_of_append
    have same' : (s.rxBitsAt (b.stamp c)).setup = c.setup := (rxBitsAt_setup _ s).trans same
    obtain ⟨later, seen', split', last⟩ := ih _ _ (some b) same' kept decoded
      (by rintro a here; cases here; exact fits') joined' timed' counted'
    rw [← Pairs.add_append received.length_le] at last
    refine ⟨new ++ later, seen', ?_, last.1, last.2.1, last.2.2.1, last.2.2.2.1, ?_⟩
    · rw [List.append_assoc, ← split', ← List.append_assoc, ← split, List.append_assoc,
        ← starts_append]
      rfl
    · rw [last.2.2.2.2]
      cases seen <;> simp

/-! ## Polling -/

theorem rxLoop_isrBuffer (level : Bool) (fuel : Nat) :
    ∀ (bits : Nat) (s : SoftwareSerial), (s.rxLoop level fuel bits).isrBuffer = s.isrBuffer :=
  fun bits s => @rxLoop_preserves (fun t => t.isrBuffer = s.isrBuffer)
    (fun _ _ _ _ same => same) (fun t same => (storeByte_cycle t).2.trans same) level fuel bits s
    rfl

theorem rxBitsAt_isrBuffer (isrCycle : Nat) (s : SoftwareSerial) :
    (s.rxBitsAt isrCycle).isrBuffer = s.isrBuffer := by
  rw [rxBitsAt_eq, rxLoop_isrBuffer]

theorem foldl_isrBuffer (isrCycles : List Nat) (s : SoftwareSerial) :
    (isrCycles.foldl (fun s isrCycle => s.rxBitsAt isrCycle) s).isrBuffer = s.isrBuffer := by
  induction isrCycles generalizing s with
  | nil => rfl
  | cons isrCycle rest ih => rw [List.foldl_cons, ih, rxBitsAt_isrBuffer]

/-- The receiver with its recorded changes taken. -/
def taken (s : SoftwareSerial) : SoftwareSerial := { s with isrBuffer := s.isrBuffer.flush }

theorem Received.taken (received : Received capacity par s l) :
    Received capacity par s.taken l :=
  ⟨received.valid, received.size, received.mode, (flush_eq received.isr).1, received.holds,
    received.lost, received.missed⟩

theorem Decoding.recorded (decoding : Decoding s seen) (isrBuffer : CircularQueue Nat) :
    Decoding { s with isrBuffer } seen := by
  cases seen with
  | none => exact ⟨⟨decoding.1.place, decoding.1.byte, decoding.1.parity⟩, decoding.2⟩
  | some a => exact ⟨⟨decoding.1.place, decoding.1.byte, decoding.1.parity⟩, decoding.2⟩

/-- Where no change was lost, only a stop bit may be made up before those recorded are decoded. -/
theorem rxBits_eq (received : Received capacity par s l) (told : l.missed = false) (now : Nat) :
    s.rxBits now = if s.isrBuffer.contents = [] then
        (if s.rxCurBit ≥ -1 ∧ s.rxCurBit < s.pduBits - s.stopBits ∧
            s.detectionCycles < sub32 now s.isrLastCycle then
          s.rxBitsAt (stamp (add32 s.isrLastCycle s.detectionCycles) !s.invert)
        else s).taken
      else s.isrBuffer.contents.foldl (fun s isrCycle => s.rxBitsAt isrCycle) s.taken := by
  have none : s.isrOverflow = false := received.missed.trans told
  have counted : s.isrBuffer.available = s.isrBuffer.contents.length := available_eq _
  unfold rxBits
  simp only [none, Bool.false_eq_true, if_false, counted, List.length_eq_zero_iff]
  by_cases empty : s.isrBuffer.contents = []
  · rw [if_pos empty]
    simp only [empty, true_and]
    split
    · have still :
          (s.rxBitsAt (stamp (add32 s.isrLastCycle s.detectionCycles) !s.invert)).isrBuffer =
            s.isrBuffer := rxBitsAt_isrBuffer _ s
      rw [still, forEach_eq received.isr, empty, SoftwareSerial.taken, still]
      rfl
    · rw [forEach_eq received.isr, empty]
      rfl
  · rw [if_neg empty]
    simp only [empty, false_and, if_false]
    rw [forEach_eq received.isr]
    rfl

/-- The receiver stands before the stop bits of a word. -/
theorem Decoding.before_stop (configured : Configured s) (decoding : Decoding s seen)
    (fits : ∀ a ∈ seen, a.piece.Fits s) :
    (s.rxCurBit ≥ -1 ∧ s.rxCurBit < s.pduBits - s.stopBits) ↔
      ∃ a, seen = some a ∧ 1 ≤ a.piece.span.before ∧ a.piece.span.before ≤ s.bodyBits := by
  have total := pduBits_eq s
  have stop := configured.stop
  cases seen with
  | none =>
    have place := decoding.1.place
    rw [if_pos rfl] at place
    constructor
    · intro inside
      omega
    · rintro ⟨a, none, -⟩
      cases none
  | some a =>
    have place := decoding.1.place
    constructor
    · intro inside
      refine ⟨a, rfl, ?_⟩
      split at place <;> omega
    · rintro ⟨_, same, begun, before⟩
      cases same
      rw [if_neg (by omega)] at place
      omega

theorem detectionCycles_eq (configured : Configured s) {a : Stretch}
    (decoding : Decoding s (some a)) (begun : 1 ≤ a.piece.span.before)
    (before : a.piece.span.before ≤ s.bodyBits) :
    s.detectionCycles = (s.bodyBits + 1 - a.piece.span.before) * s.bitCycles := by
  have total := pduBits_eq s
  have place := decoding.1.place
  have body := configured.body_le
  have short := configured.short
  rw [if_neg (by omega)] at place
  have bits : (s.pduBits - s.stopBits - s.rxCurBit : Int).toNat =
      s.bodyBits + 1 - a.piece.span.before := by omega
  have few : (s.bodyBits + 1 - a.piece.span.before) * s.bitCycles ≤ 10 * s.bitCycles :=
    Nat.mul_le_mul_right _ (by omega)
  rw [detectionCycles, bits]
  exact Nat.mod_eq_of_lt (by omega)

/-- A stop bit is made up once it is sure to have begun, and the word is delivered. -/
theorem decode_stop (configured : Configured s) (received : Received capacity par s l)
    {a : Stretch} (decoding : Decoding s (some a)) (fits : a.piece.Fits s)
    (final : a.piece.span.last = true) :
    let stop := stamp (add32 s.isrLastCycle s.detectionCycles) !s.invert
    Received capacity par (s.rxBitsAt stop) (l.add capacity [a.piece.pair s]) ∧
      Decoding (s.rxBitsAt stop) none := by
  intro stop
  obtain ⟨high, begun, before, -⟩ := fits.final final
  have detection := detectionCycles_eq configured decoding begun before
  have short := configured.short
  have slow := configured.slow
  have body := configured.body_le
  have few : (s.bodyBits + 1 - a.piece.span.before) * s.bitCycles ≤ 10 * s.bitCycles :=
    Nat.mul_le_mul_right _ (by omega)
  have one : 1 * s.bitCycles ≤ (s.bodyBits + 1 - a.piece.span.before) * s.bitCycles :=
    Nat.mul_le_mul_right _ (by omega)
  have last := decoding.2
  have pin : (a.change s).2.level = !s.invert := by
    show xor a.piece.span.level s.invert = !s.invert
    rw [high, Bool.true_xor]
  rw [Stretch.stamp, pin] at last
  have distance := @faux_distance a.time s.detectionCycles (!s.invert) (by omega) (by omega)
  dsimp only at distance
  rw [← last, detection] at distance
  have counted : countBits s.bitCycles (sub32 stop s.isrLastCycle) =
      s.bodyBits + 1 - a.piece.span.before := by
    rw [show stop = stamp (add32 s.isrLastCycle s.detectionCycles) !s.invert from rfl, detection]
    exact @countBits_near _ _ _ 2 (by omega) (by omega) distance.1 distance.2
  obtain ⟨kept, waits, cycle⟩ := decode_end configured received decoding fits final
    (show s.bodyBits < _ + countBits s.bitCycles (sub32 stop s.isrLastCycle) by omega)
  have up : stop.testBit 0 = !s.invert := stamp_level _ _
  have invert := (setup_fields (rxBitsAt_setup stop s)).1
  refine ⟨kept, waits, ?_⟩
  rw [invert, cycle, up, Bool.not_xor, Bool.xor_self, Bool.not_false]

end Esp8266.Source.SoftwareSerial
