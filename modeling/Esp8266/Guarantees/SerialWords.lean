import Esp8266.Guarantees.SerialPairs

/-!
# The words of `SoftwareSerial`

A word is a start bit, data bits, perhaps a parity bit, and stop bits. `write` drives it onto the
pin as a list of periods, one for each stretch of bits of one level, of which only those with stop
bits may last longer. The loop of `rxBits` counts the bits of each stretch, and makes the word of
them again.
-/
set_option autoImplicit false

namespace Esp8266.Source.SoftwareSerial
open Esp8266.Lib Esp8266.Lib.Word32 CircularQueue

/-! ## Words -/

/-- The settings that `begin` makes for a `SoftwareSerialConfig`. -/
structure Configured (s : SoftwareSerial) : Prop where
  some : 1 ≤ s.dataBits
  byte : s.dataBits ≤ 8
  stop : 1 ≤ s.stopBits
  stops : s.stopBits ≤ 2
  slow : 5 ≤ s.bitCycles
  short : s.bitCycles < 2 ^ 24

/-- What `begin` sets for good. -/
structure Setup where
  txValid : Bool
  invert : Bool
  dataBits : Nat
  parityMode : SoftwareSerialParity
  stopBits : Nat
  bitCycles : Nat

def setup (s : SoftwareSerial) : Setup :=
  ⟨s.txValid, s.invert, s.dataBits, s.parityMode, s.stopBits, s.bitCycles⟩

/-- The bits in front of the stop bits. -/
def bodyBits (s : SoftwareSerial) : Nat :=
  1 + s.dataBits + if s.parityMode ≠ .none then 1 else 0

/-- The bits of a word, where a stop bit is high. -/
def wordBit (data : Nat) (parity : Bool) (s : SoftwareSerial) (i : Nat) : Bool :=
  if i = 0 then false
  else if i ≤ s.dataBits then data.testBit (i - 1)
  else if s.parityMode ≠ .none ∧ i = s.dataBits + 1 then parity
  else true

/-- The parity bit that `write` sends. -/
def sentParity (parity : SoftwareSerialParity) (byte : Nat) : Bool :=
  match parity with
  | .even => decide (parityEven byte = 1)
  | .odd => decide (parityOdd byte = 1)
  | .space => false
  | _ => true

variable {s : SoftwareSerial}

theorem pduBits_eq (s : SoftwareSerial) : s.pduBits + 1 = s.bodyBits + s.stopBits := by
  unfold pduBits bodyBits
  omega

theorem wordBit_stop {data : Nat} {parity : Bool} {i : Nat} (behind : s.bodyBits ≤ i) :
    wordBit data parity s i = true := by
  unfold bodyBits at behind
  unfold wordBit
  rw [if_neg (by omega), if_neg (by omega), if_neg]
  rintro ⟨kept, rfl⟩
  rw [if_pos kept] at behind
  omega

theorem parityEven_le (byte : Nat) : parityEven byte ≤ 1 := Nat.and_le_right
theorem parityOdd_le (byte : Nat) : parityOdd byte ≤ 1 := Nat.and_le_right

/-- The two parities of a byte differ. -/
theorem parityOdd_eq (byte : Nat) : parityOdd byte = 1 - parityEven byte := by
  have nibble : ∀ n : Fin 16, (0x9669 >>> n.val) &&& 1 = 1 - ((0x6996 >>> n.val) &&& 1) := by
    decide
  have small : (byte ^^^ byte >>> 4) &&& 0xf < 16 := Nat.lt_succ_of_le Nat.and_le_right
  exact nibble ⟨_, small⟩

theorem ones_testBit {j : Nat} (inside : j < 32) : (2 ^ 32 - 1).testBit j = true := by
  rw [Nat.testBit_two_pow_sub_one, decide_eq_true inside]

/-- An inverted parity bit in front of stop bits. -/
theorem inverted_testBit {bit j : Nat} (small : bit ≤ 1) (inside : j < 32) :
    ((2 ^ 32 - 1) ^^^ bit).testBit j = if j = 0 then decide (bit = 0) else true := by
  rw [Nat.testBit_xor, ones_testBit inside, Bool.true_xor]
  by_cases first : j = 0
  · have cases : bit = 0 ∨ bit = 1 := by omega
    rcases cases with rfl | rfl <;> simp [first]
  · rw [if_neg first, Nat.testBit_lt_two_pow]
    · rfl
    · exact Nat.lt_of_le_of_lt small (Nat.one_lt_two_pow first)

theorem parityWord_testBit (parity : SoftwareSerialParity) (byte : Nat) {j : Nat}
    (inside : j < 32) :
    (s.parityWord parity byte).testBit j =
      if j = 0 ∧ s.parityMode ≠ .none then sentParity parity byte else true := by
  have even := parityEven_le byte
  have odd := parityOdd_eq byte
  have ones := ones_testBit inside
  unfold parityWord
  by_cases kept : s.parityMode = .none
  · rw [if_neg (fun both => both.2 kept), if_neg (fun both => both.2 kept), ones]
  · have bit : ∀ b ≤ 1, sentParity parity byte = decide (b = 0) →
        ((2 ^ 32 - 1) ^^^ b).testBit j =
          if j = 0 ∧ s.parityMode ≠ .none then sentParity parity byte else true := by
      intro b small sent
      rw [inverted_testBit small inside, sent]
      by_cases first : j = 0 <;> simp [first, kept]
    cases parity with
    | none =>
      rw [if_neg (fun both => both.1 rfl), ones]
      exact (ite_self true).symm
    | even =>
      rw [if_pos ⟨by decide, kept⟩]
      apply bit (parityOdd byte) (parityOdd_le byte)
      exact decide_eq_decide.2 (by omega)
    | odd =>
      rw [if_pos ⟨by decide, kept⟩]
      apply bit (parityEven byte) even
      exact decide_eq_decide.2 (by omega)
    | mark =>
      rw [if_pos ⟨by decide, kept⟩]
      exact bit 0 (by decide) rfl
    | space =>
      rw [if_pos ⟨by decide, kept⟩]
      exact bit 1 (by decide) rfl

/-- The pattern of a byte holds its word, inverted where the levels are. -/
theorem pattern_testBit (configured : Configured s) (parity : SoftwareSerialParity) {byte i : Nat}
    (fits : byte < 2 ^ s.dataBits) (inside : i ≤ s.pduBits) :
    (s.pattern parity byte).testBit i =
      xor (wordBit byte (sentParity parity byte) s i) s.invert := by
  have many := pduBits_eq s
  have eight := configured.byte
  have stops := configured.stops
  have body : s.bodyBits ≤ 10 := by
    unfold bodyBits
    split <;> omega
  have plain :
      ((s.parityWord parity byte <<< s.dataBits % 2 ^ 32 ||| byte) <<< 1 % 2 ^ 32).testBit i =
        wordBit byte (sentParity parity byte) s i := by
    rw [Nat.testBit_mod_two_pow, Nat.testBit_shiftLeft, Nat.testBit_or, Nat.testBit_mod_two_pow,
      Nat.testBit_shiftLeft, decide_eq_true (show i < 32 by omega), Bool.true_and]
    unfold wordBit
    by_cases start : i = 0
    · simp [start]
    · rw [if_neg start, decide_eq_true (show i ≥ 1 by omega), Bool.true_and,
        decide_eq_true (show i - 1 < 32 by omega), Bool.true_and]
      by_cases data : i ≤ s.dataBits
      · rw [if_pos data, decide_eq_false (by omega), Bool.false_and, Bool.false_or]
      · have high : byte.testBit (i - 1) = false :=
          Nat.testBit_lt_two_pow (Nat.lt_of_lt_of_le fits
            (Nat.pow_le_pow_right (by decide) (by omega)))
        rw [if_neg data, decide_eq_true (by omega), Bool.true_and, high, Bool.or_false,
          parityWord_testBit parity byte (by omega)]
        have place : i - 1 - s.dataBits = 0 ↔ i = s.dataBits + 1 := by omega
        exact if_congr (by rw [place, and_comm]) rfl rfl
  unfold pattern
  cases inverted : s.invert with
  | false => simpa [inverted] using plain
  | true =>
    simp only [if_true]
    rw [Nat.testBit_xor, plain, ones_testBit (by omega)]

/-! ## What a receiver never changes -/

@[simp] theorem storeByte_setup (s : SoftwareSerial) : s.storeByte.setup = s.setup := by
  unfold storeByte
  dsimp only
  split
  · rfl
  · split
    · rfl
    · split <;> rfl

theorem rxLoop_setup (level : Bool) (fuel bits : Nat) (s : SoftwareSerial) :
    (s.rxLoop level fuel bits).setup = s.setup :=
  @rxLoop_preserves (fun t => t.setup = s.setup) (fun _ _ _ _ same => same)
    (fun t same => (storeByte_setup t).trans same) level fuel bits s rfl

theorem rxBitsAt_setup (isrCycle : Nat) (s : SoftwareSerial) :
    (s.rxBitsAt isrCycle).setup = s.setup := rxLoop_setup _ _ _ _

theorem rxBits_setup (now : Nat) (s : SoftwareSerial) : (s.rxBits now).setup = s.setup := by
  have folded : ∀ (isrCycles : List Nat) (s : SoftwareSerial),
      (isrCycles.foldl (fun s isrCycle => s.rxBitsAt isrCycle) s).setup = s.setup := by
    intro isrCycles
    induction isrCycles with
    | nil => intro s; rfl
    | cons isrCycle rest ih => intro s; exact (ih _).trans (rxBitsAt_setup isrCycle s)
  unfold rxBits
  extract_lets isrAvail s1 s2
  have first : s1.setup = s.setup := by
    unfold s1
    split <;> rfl
  have second : s2.setup = s1.setup := by
    unfold s2
    split
    · exact rxBitsAt_setup _ _
    · rfl
  split
  rename_i isrCycles isrBuffer _
  exact (folded isrCycles { s2 with isrBuffer }).trans (second.trans first)

theorem setup_fields {s s' : SoftwareSerial} (same : s'.setup = s.setup) :
    s'.invert = s.invert ∧ s'.dataBits = s.dataBits ∧ s'.parityMode = s.parityMode ∧
      s'.stopBits = s.stopBits ∧ s'.bitCycles = s.bitCycles ∧ s'.txValid = s.txValid :=
  ⟨congrArg Setup.invert same, congrArg Setup.dataBits same, congrArg Setup.parityMode same,
    congrArg Setup.stopBits same, congrArg Setup.bitCycles same, congrArg Setup.txValid same⟩

variable {s' : SoftwareSerial}

theorem pduBits_congr (same : s'.setup = s.setup) : s'.pduBits = s.pduBits := by
  obtain ⟨_, dataBits, parityMode, stopBits, _, _⟩ := setup_fields same
  rw [pduBits, pduBits, dataBits, parityMode, stopBits]

theorem bodyBits_congr (same : s'.setup = s.setup) : s'.bodyBits = s.bodyBits := by
  obtain ⟨_, dataBits, parityMode, _, _, _⟩ := setup_fields same
  rw [bodyBits, bodyBits, dataBits, parityMode]

theorem wordBit_congr (same : s'.setup = s.setup) (data : Nat) (parity : Bool) (i : Nat) :
    wordBit data parity s' i = wordBit data parity s i := by
  obtain ⟨_, dataBits, parityMode, _, _, _⟩ := setup_fields same
  rw [wordBit, wordBit, dataBits, parityMode]

theorem Configured.congr (configured : Configured s) (same : s'.setup = s.setup) :
    Configured s' := by
  obtain ⟨_, dataBits, _, stopBits, bitCycles, _⟩ := setup_fields same
  obtain ⟨some, byte, stop, stops, slow, short⟩ := configured
  exact ⟨dataBits ▸ some, dataBits ▸ byte, stopBits ▸ stop, stopBits ▸ stops, bitCycles ▸ slow,
    bitCycles ▸ short⟩

theorem Configured.at_cycle (configured : Configured s) (isrCycle : Nat) :
    Configured { s with isrLastCycle := isrCycle } :=
  configured.congr rfl

/-! ## Stretches of one level -/

/-- A stretch of bits of one level in a word, with the number of bits before it. -/
structure Span where
  before : Nat
  bits : Nat
  level : Bool
  last : Bool

def spansFrom (before count : Nat) (level : Bool) : List Bool → List Span
  | [] => [⟨before, count, level, true⟩]
  | b :: rest =>
    if b = level then spansFrom before (count + 1) level rest
    else ⟨before, count, level, false⟩ :: spansFrom (before + count) 1 b rest

/-- The stretches of a word. -/
def spans (data : Nat) (parity : Bool) (s : SoftwareSerial) : List Span :=
  spansFrom 0 1 false ((List.range s.pduBits).map fun i => wordBit data parity s (i + 1))

/-- How a stretch is driven onto the pin. Only one with stop bits may last longer. -/
def period (s : SoftwareSerial) (span : Span) : Period :=
  ⟨xor span.level s.invert, span.bits * s.bitCycles, !span.last⟩

/-! ## Writing -/

theorem writePeriod_eq (dutyCycle offCycle : Nat) (withStopBit : Bool) (s : SoftwareSerial) :
    s.writePeriod dutyCycle offCycle withStopBit =
      (if dutyCycle ≠ 0 then [⟨true, dutyCycle, !(withStopBit && !s.invert)⟩] else []) ++
      (if offCycle ≠ 0 then [⟨false, offCycle, !(withStopBit && s.invert)⟩] else []) := by
  unfold writePeriod
  cases withStopBit <;> cases s.invert <;> simp

/-- Between two words: what is pending ends with stop bits. -/
structure Between (s : SoftwareSerial) (driven : List Period) (t : Sending) : Prop where
  view : t.line ++ s.writePeriod t.dutyCycle t.offCycle true = driven
  level : t.b = !s.invert
  stop : t.withStopBit = true
  high : s.invert = false → t.offCycle = 0

/-- Within a word: what is pending ends with a stretch of `count` bits. -/
structure Within (s : SoftwareSerial) (driven : List Period) (count : Nat) (level : Bool)
    (t : Sending) : Prop where
  view : t.line ++ s.writePeriod t.dutyCycle t.offCycle t.withStopBit =
    driven ++ [⟨xor level s.invert, count * s.bitCycles, true⟩]
  pin : t.b = xor level s.invert
  high : t.b = true → t.offCycle = 0 ∧ t.dutyCycle = count * s.bitCycles ∧ t.withStopBit = false
  low : t.b = false → t.offCycle = count * s.bitCycles
  inverted : s.invert = true → t.withStopBit = false

variable {driven : List Period} {t : Sending} {count : Nat} {level : Bool}

theorem count_cycles (configured : Configured s) (some : 1 ≤ count) (few : count ≤ 12) :
    count * s.bitCycles ≠ 0 ∧ count * s.bitCycles < 2 ^ 32 := by
  have slow := configured.slow
  have short := configured.short
  constructor
  · exact Nat.mul_ne_zero (by omega) (by omega)
  · calc count * s.bitCycles ≤ 12 * s.bitCycles := Nat.mul_le_mul_right _ few
      _ < 2 ^ 32 := by omega

/-- A word begins with its start bit. -/
theorem Between.start (configured : Configured s) (between : Between s driven t) :
    Within s driven 1 false (s.writeBit (xor false s.invert) t) := by
  obtain ⟨view, level, stop, high⟩ := between
  have slow := configured.slow
  have short := configured.short
  have added : add32 0 s.bitCycles = s.bitCycles := by
    rw [add32_of_lt (by omega), Nat.zero_add]
  cases inverted : s.invert with
  | false =>
    rw [inverted] at level high
    have off := high rfl
    have sent : s.writeBit (xor false false) t =
        { t with b := false, offCycle := s.bitCycles } := by
      simp [writeBit, level, off, added]
    rw [sent]
    have pending : s.bitCycles ≠ 0 := by omega
    refine ⟨?_, by simp [inverted], fun high => ?_, fun _ => by simp, fun other => ?_⟩
    · rw [← view, writePeriod_eq, writePeriod_eq]
      simp [off, stop, inverted, pending]
    · cases high
    · rw [inverted] at other
      cases other
  | true =>
    rw [inverted] at level
    have sent : s.writeBit (xor false true) t =
        ⟨true, s.bitCycles, 0, false, driven⟩ := by
      simp [writeBit, level, added, stop, view]
    rw [sent]
    have pending : s.bitCycles ≠ 0 := by omega
    refine ⟨?_, by simp [inverted], fun _ => by simp, fun low => ?_, fun _ => rfl⟩
    · rw [writePeriod_eq]
      simp [inverted, pending]
    · cases low

theorem Within.driven_eq (within : Within s driven count level t) (high : t.b = true)
    (some : count * s.bitCycles ≠ 0) : t.line = driven := by
  obtain ⟨off, duty, stop⟩ := within.high high
  have view := within.view
  have pin := within.pin
  rw [high] at pin
  rw [writePeriod_eq, off, duty, stop, ← pin] at view
  simpa [some] using view

theorem Within.same (configured : Configured s) (within : Within s driven count level t)
    (some : 1 ≤ count) (few : count + 1 ≤ 12) :
    Within s driven (count + 1) level (s.writeBit (xor level s.invert) t) := by
  have now := count_cycles configured some (by omega)
  have later := count_cycles configured (show 1 ≤ count + 1 by omega) few
  have added : add32 (count * s.bitCycles) s.bitCycles = (count + 1) * s.bitCycles := by
    rw [Nat.succ_mul] at later ⊢
    exact add32_of_lt later.2
  obtain ⟨view, pin, high, low, inverted⟩ := id within
  cases out : t.b with
  | true =>
    obtain ⟨off, duty, stop⟩ := high out
    have line := within.driven_eq out now.1
    rw [out] at pin
    have sent : s.writeBit (xor level s.invert) t =
        { t with b := true, dutyCycle := (count + 1) * s.bitCycles } := by
      rw [← pin]
      simp [writeBit, out, duty, added]
    rw [sent]
    refine ⟨?_, pin, fun _ => ⟨off, rfl, stop⟩, fun other => ?_, inverted⟩
    · rw [writePeriod_eq, ← pin]
      simp [off, stop, line, later.1]
    · cases other
  | false =>
    have off := low out
    rw [out] at pin
    have sent : s.writeBit (xor level s.invert) t =
        { t with b := false, offCycle := (count + 1) * s.bitCycles } := by
      rw [← pin]
      simp [writeBit, out, off, added]
    rw [sent]
    refine ⟨?_, pin, fun other => ?_, fun _ => rfl, inverted⟩
    · rw [writePeriod_eq, off, ← pin] at view
      have held : (t.withStopBit && s.invert) = false := by
        cases up : s.invert with
        | false => exact Bool.and_false _
        | true => rw [inverted up]; rfl
      rw [writePeriod_eq, ← pin]
      simp only [held, now.1, later.1, ne_eq, not_false_eq_true, if_true, Bool.not_false,
        ← List.append_assoc] at view ⊢
      rw [List.append_left_inj] at view ⊢
      exact view
    · cases other

theorem Within.change (configured : Configured s) (within : Within s driven count level t)
    (some : 1 ≤ count) (few : count ≤ 12) :
    Within s (driven ++ [⟨xor level s.invert, count * s.bitCycles, true⟩]) 1 (!level)
      (s.writeBit (xor (!level) s.invert) t) := by
  have slow := configured.slow
  have short := configured.short
  have added : add32 0 s.bitCycles = s.bitCycles := by
    rw [add32_of_lt (by omega), Nat.zero_add]
  have now := count_cycles configured some few
  have pending : s.bitCycles ≠ 0 := by omega
  obtain ⟨view, pin, high, low, inverted⟩ := id within
  have other : xor (!level) s.invert = !t.b := by rw [pin, Bool.not_xor]
  cases out : t.b with
  | true =>
    obtain ⟨off, duty, stop⟩ := high out
    have line := within.driven_eq out now.1
    rw [out] at pin other
    have sent : s.writeBit (xor (!level) s.invert) t =
        { t with b := false, offCycle := s.bitCycles } := by
      rw [other]
      simp [writeBit, out, off, added]
    rw [sent]
    refine ⟨?_, other.symm, fun up => ?_, fun _ => by simp, inverted⟩
    · rw [writePeriod_eq, other, ← pin]
      simp [duty, stop, line, now.1, pending]
    · cases up
  | false =>
    rw [out] at pin other
    have sent : s.writeBit (xor (!level) s.invert) t =
        ⟨true, s.bitCycles, 0, false,
          driven ++ [⟨xor level s.invert, count * s.bitCycles, true⟩]⟩ := by
      rw [other, ← view]
      simp [writeBit, out, added]
    rw [sent]
    refine ⟨?_, other.symm, fun _ => by simp, fun down => ?_, fun _ => rfl⟩
    · rw [writePeriod_eq, other]
      simp [pending]
    · cases down

theorem Within.stop (configured : Configured s) (within : Within s driven count true t)
    (some : 1 ≤ count) (few : count ≤ 12) :
    Between s (driven ++ [⟨!s.invert, count * s.bitCycles, false⟩])
      { t with withStopBit := true } := by
  have now := count_cycles configured some few
  obtain ⟨view, pin, high, low, inverted⟩ := id within
  rw [Bool.true_xor] at pin
  cases up : s.invert with
  | false =>
    rw [up, Bool.not_false] at pin
    obtain ⟨off, duty, stop⟩ := high pin
    have line := within.driven_eq pin now.1
    refine ⟨?_, by simp [up, pin], rfl, fun _ => off⟩
    rw [writePeriod_eq]
    simp [off, duty, line, up, now.1]
  | true =>
    rw [up, Bool.not_true] at pin
    have off := low pin
    refine ⟨?_, by simp [up, pin], rfl, fun other => ?_⟩
    · rw [writePeriod_eq, off, inverted up] at view
      rw [writePeriod_eq]
      simp only [up, off, now.1, ne_eq, not_false_eq_true, if_true, Bool.not_false, Bool.not_true,
        Bool.and_false, Bool.and_true, Bool.true_xor, ← List.append_assoc] at view ⊢
      rw [List.append_left_inj] at view ⊢
      exact view
    · rw [up] at other
      cases other

/-- The bits of a word drive its stretches, of which the last one is pending. -/
theorem Within.rest (configured : Configured s) (bits : List Bool) :
    ∀ (driven : List Period) (before count : Nat) (level : Bool) (t : Sending),
      Within s driven count level t → 1 ≤ count → count + bits.length ≤ 12 →
      ∃ (done : List Span) (final : Span), spansFrom before count level bits = done ++ [final] ∧
        (∀ span ∈ done, span.last = false) ∧ final.last = true ∧
        final.level = (level :: bits).getLast (List.cons_ne_nil level bits) ∧
        1 ≤ final.bits ∧ final.bits ≤ 12 ∧
        Within s (driven ++ done.map s.period) final.bits final.level
          (bits.foldl (fun t b => s.writeBit (xor b s.invert) t) t) := by
  induction bits with
  | nil =>
    intro driven before count level t within some few
    refine ⟨[], ⟨before, count, level, true⟩, rfl, ?_, rfl, rfl, some, few, ?_⟩
    · exact fun _ member => absurd member List.not_mem_nil
    · rw [List.map_nil, List.append_nil]
      exact within
  | cons b rest ih =>
    intro driven before count level t within some few
    rw [List.length_cons] at few
    rw [List.foldl_cons, spansFrom]
    by_cases same : b = level
    · subst same
      rw [if_pos rfl]
      have next := within.same configured some (by omega)
      obtain ⟨done, final, split, inner, last, ends, some', few', after⟩ :=
        ih driven before (count + 1) b _ next (by omega) (by omega)
      refine ⟨done, final, split, inner, last, ?_, some', few', after⟩
      rw [ends, List.getLast_cons_cons]
    · rw [if_neg same]
      have other : b = !level := by
        cases b <;> cases level <;> simp_all
      have next := within.change configured some (by omega)
      rw [← other] at next
      obtain ⟨done, final, split, inner, last, ends, some', few', after⟩ :=
        ih _ (before + count) 1 b _ next (by omega) (by omega)
      refine ⟨⟨before, count, level, false⟩ :: done, final, ?_, ?_, last, ?_, some', few', ?_⟩
      · rw [split, List.cons_append]
      · intro span member
        rcases List.mem_cons.1 member with rfl | member
        · rfl
        · exact inner span member
      · rw [ends, List.getLast_cons_cons]
      · rw [List.map_cons]
        have parts : driven ++ s.period ⟨before, count, level, false⟩ :: done.map s.period =
            driven ++ [⟨xor level s.invert, count * s.bitCycles, true⟩] ++ done.map s.period := by
          rw [List.append_assoc]
          rfl
        rw [parts]
        exact after

/-- The data bits of a byte. -/
def dataOf (s : SoftwareSerial) (val : UInt8) : Nat := val.toNat &&& (1 <<< s.dataBits - 1)

theorem dataOf_lt (s : SoftwareSerial) (val : UInt8) : s.dataOf val < 2 ^ s.dataBits := by
  rw [dataOf, Nat.one_shiftLeft, Nat.and_two_pow_sub_one_eq_mod]
  exact Nat.mod_lt _ (Nat.two_pow_pos _)

theorem pduBits_bounds (configured : Configured s) : 2 ≤ s.pduBits ∧ s.pduBits + 1 ≤ 12 := by
  have some := configured.some
  have byte := configured.byte
  have stop := configured.stop
  have stops := configured.stops
  unfold pduBits
  split <;> omega

theorem word_getLast (configured : Configured s) (data : Nat) (parity : Bool) :
    (false :: (List.range s.pduBits).map fun i => wordBit data parity s (i + 1)).getLast
      (List.cons_ne_nil _ _) = true := by
  obtain ⟨n, many⟩ : ∃ n, s.pduBits = n + 1 := ⟨s.pduBits - 1, by
    have bounds := pduBits_bounds configured
    omega⟩
  have stop := configured.stop
  have body := pduBits_eq s
  have high : wordBit data parity s (n + 1) = true := wordBit_stop (by omega)
  simp only [List.getLast_eq_getElem, List.length_cons, List.length_map, List.length_range,
    Nat.add_sub_cancel, many, List.getElem_cons_succ, List.getElem_map, List.getElem_range]
  exact high

/-- The periods of a byte are the stretches of its word. -/
theorem Between.word (configured : Configured s) (between : Between s driven t)
    (parity : SoftwareSerialParity) (val : UInt8) :
    Between s
      (driven ++ (spans (s.dataOf val) (sentParity parity (s.dataOf val)) s).map s.period)
      (s.writeByte parity t val) := by
  have bounds := pduBits_bounds configured
  have bits : ∀ i ≤ s.pduBits, (s.pattern parity (s.dataOf val)).testBit i =
      xor (wordBit (s.dataOf val) (sentParity parity (s.dataOf val)) s i) s.invert :=
    fun i inside => pattern_testBit configured parity (dataOf_lt s val) inside
  obtain ⟨done, final, split, inner, last, ends, some, few, after⟩ :=
    Within.rest configured ((List.range s.pduBits).map fun i =>
      wordBit (s.dataOf val) (sentParity parity (s.dataOf val)) s (i + 1)) driven 0 1 false _
      (between.start configured) (Nat.le_refl 1) (by
        rw [List.length_map, List.length_range]
        omega)
  rw [word_getLast configured] at ends
  have sent : (List.range (s.pduBits + 1)).foldl
      (fun t i => s.writeBit ((s.pattern parity (s.dataOf val)).testBit i) t) t =
      ((List.range s.pduBits).map fun i =>
        wordBit (s.dataOf val) (sentParity parity (s.dataOf val)) s (i + 1)).foldl
        (fun t b => s.writeBit (xor b s.invert) t) (s.writeBit (xor false s.invert) t) := by
    rw [List.range_succ_eq_map, List.foldl_cons, List.foldl_map, List.foldl_map, bits 0 (by omega)]
    apply List.foldl_ext
    intro t i member
    rw [bits (i + 1) (List.mem_range.1 member)]
  rw [ends] at after
  have closed := after.stop configured some few
  have pending : s.period final = ⟨!s.invert, final.bits * s.bitCycles, false⟩ := by
    rw [period, ends, last, Bool.true_xor, Bool.not_true]
  rw [← pending, List.append_assoc, ← List.map_singleton, ← List.map_append, ← split] at closed
  unfold writeByte
  change Between s _ { (List.range (s.pduBits + 1)).foldl
      (fun t i => s.writeBit ((s.pattern parity (s.dataOf val)).testBit i) t) t with
    withStopBit := true }
  rw [sent]
  exact closed

theorem words_congr (same : s'.setup = s.setup) (parity : SoftwareSerialParity) (val : UInt8) :
    (spans (s'.dataOf val) (sentParity parity (s'.dataOf val)) s').map s'.period =
      (spans (s.dataOf val) (sentParity parity (s.dataOf val)) s).map s.period := by
  obtain ⟨invert, dataBits, _, _, bitCycles, _⟩ := setup_fields same
  have data : s'.dataOf val = s.dataOf val := by rw [dataOf, dataOf, dataBits]
  have drives : s'.period = s.period := by
    funext span
    rw [period, period, invert, bitCycles]
  rw [data, drives, spans, spans, pduBits_congr same]
  simp only [wordBit_congr same]

/-- What `write` drives onto the pin: the words of the bytes, one after the other. -/
theorem write_eq (configured : Configured s) (valid : s.txValid = true) (now : Nat)
    (vals : List UInt8) (parity : SoftwareSerialParity) :
    (s.write now vals parity).1 = some (vals.flatMap fun val =>
      (spans (s.dataOf val) (sentParity parity (s.dataOf val)) s).map s.period) := by
  obtain ⟨s', polled⟩ : ∃ s', s' = if s.rxValid then s.rxBits now else s := ⟨_, rfl⟩
  have same : s'.setup = s.setup := by
    rw [polled]
    split
    · exact rxBits_setup now s
    · rfl
  have valid' : s'.txValid = true := (setup_fields same).2.2.2.2.2.trans valid
  have words : ∀ (vals : List UInt8) (driven : List Period) (t : Sending), Between s' driven t →
      Between s' (driven ++ vals.flatMap fun val =>
        (spans (s'.dataOf val) (sentParity parity (s'.dataOf val)) s').map s'.period)
        (vals.foldl (s'.writeByte parity) t) := by
    intro vals
    induction vals with
    | nil => intro driven t between; simpa using between
    | cons val rest ih =>
      intro driven t between
      have next := ih _ _ (between.word (configured.congr same) parity val)
      rw [List.append_assoc] at next
      exact next
  have start : Between s' [] ⟨!s'.invert, 0, 0, true, []⟩ :=
    ⟨by simp [writePeriod], rfl, rfl, fun _ => rfl⟩
  have all := (words vals [] _ start).view
  unfold write
  rw [← polled]
  simp only [valid', Bool.not_true, Bool.false_eq_true, if_false]
  rw [all, List.nil_append]
  simp only [words_congr same]

/-! ## Counting bits -/

/-- The receiver stands behind `k` bits of a word. -/
structure Standing (data : Nat) (parity : Bool) (k : Nat) (s : SoftwareSerial) : Prop where
  place : if k = 0 then (s.pduBits : Int) - 1 ≤ s.rxCurBit else s.rxCurBit = k - 2
  byte : ∀ i, s.rxCurByte.testBit i = (decide (i < 8 ∧ 8 ≤ i + min (k - 1) s.dataBits) &&
    data.testBit (i + min (k - 1) s.dataBits - 8))
  parity : s.rxCurParity = (decide (s.dataBits + 1 < k) && parity)

variable {data k : Nat} {parity : Bool}

theorem standing_moved {curBit : Int} {curByte : Nat} {curParity : Bool}
    (place : if k = 0 then (s.pduBits : Int) - 1 ≤ curBit else curBit = k - 2)
    (byte : ∀ i, curByte.testBit i = (decide (i < 8 ∧ 8 ≤ i + min (k - 1) s.dataBits) &&
      data.testBit (i + min (k - 1) s.dataBits - 8)))
    (kept : curParity = (decide (s.dataBits + 1 < k) && parity)) :
    Standing data parity k (s.moved curBit curByte curParity) := ⟨place, byte, kept⟩

/-- Data bits of one level are shifted in from the top. -/
theorem shifted_testBit {cur n d : Nat} (few : n ≤ 8)
    (bits : ∀ i, cur.testBit i = (decide (i < 8 ∧ 8 ≤ i + d) && data.testBit (i + d - 8)))
    (equal : ∀ j, d ≤ j → j < d + n → data.testBit j = level) (i : Nat) :
    (if level then cur >>> n ||| (255 <<< (8 - n)) % 256 else cur >>> n).testBit i =
      (decide (i < 8 ∧ 8 ≤ i + (d + n)) && data.testBit (i + (d + n) - 8)) := by
  have ones : ((255 <<< (8 - n)) % 256).testBit i = decide (i < 8 ∧ 8 ≤ i + n) := by
    rw [show (256 : Nat) = 2 ^ 8 from rfl, Nat.testBit_mod_two_pow, Nat.testBit_shiftLeft,
      show (255 : Nat) = 2 ^ 8 - 1 from rfl, Nat.testBit_two_pow_sub_one, ← Bool.decide_and,
      ← Bool.decide_and]
    exact decide_eq_decide.2 (by omega)
  have old : (cur >>> n).testBit i =
      (decide (i + n < 8 ∧ 8 ≤ i + (d + n)) && data.testBit (i + (d + n) - 8)) := by
    rw [Nat.testBit_shiftRight, bits, show n + i + d = i + (d + n) by omega, Nat.add_comm n i]
  by_cases top : i < 8 ∧ 8 ≤ i + n
  · have new := equal (i + (d + n) - 8) (by omega) (by omega)
    cases level with
    | true =>
      rw [if_pos rfl, Nat.testBit_or, ones, new, decide_eq_true top, decide_eq_true (by omega)]
      simp
    | false =>
      rw [if_neg Bool.false_ne_true, old, new]
      simp
  · have same : (decide (i + n < 8 ∧ 8 ≤ i + (d + n))) = decide (i < 8 ∧ 8 ≤ i + (d + n)) :=
      decide_eq_decide.2 (by omega)
    cases level with
    | true =>
      rw [if_pos rfl, Nat.testBit_or, ones, old, same, decide_eq_false top, Bool.or_false]
    | false => rw [if_neg Bool.false_ne_true, old, same]

/-- A round of the loop within a word: the start bit, some data bits or the parity bit. -/
theorem Standing.round (configured : Configured s) (standing : Standing data parity k s)
    (fuel : Nat) (inside : k < s.bodyBits) {bits : Nat} (some : 1 ≤ bits)
    (equal : ∀ i, k ≤ i → i < k + bits → i < s.bodyBits → wordBit data parity s i = level) :
    ∃ c, 1 ≤ c ∧ c ≤ bits ∧ k + c ≤ s.bodyBits ∧ ∃ curBit curByte curParity,
      s.rxLoop level (fuel + 1) bits =
        (s.moved curBit curByte curParity).rxLoop level fuel (bits - c) ∧
      Standing data parity (k + c) (s.moved curBit curByte curParity) := by
  have body := pduBits_eq s
  have stop := configured.stop
  have eight := configured.byte
  have none : ¬bits = 0 := by omega
  obtain ⟨place, byte, par⟩ := standing
  by_cases start : k = 0
  · subst start
    have low : level = false := (equal 0 (by omega) (by omega) (by omega)).symm.trans rfl
    rw [if_pos rfl] at place
    have rest : s.rxCurBit ≥ s.pduBits - 1 := place
    refine ⟨1, Nat.le_refl 1, some, by omega, -1, s.rxCurByte, s.rxCurParity, ?_,
      standing_moved ?_ byte ?_⟩
    · rw [rxLoop, if_neg none, if_pos rest, low, if_neg Bool.false_ne_true]
      rfl
    · rw [if_neg (by omega)]
      rfl
    · rw [par, decide_eq_false (by omega), decide_eq_false (by omega)]
  · rw [if_neg start] at place
    have busy : ¬s.rxCurBit ≥ s.pduBits - 1 := by omega
    by_cases within : k ≤ s.dataBits
    · have bitsLeft : s.rxCurBit ≥ -1 ∧ s.rxCurBit < s.dataBits - 1 := by omega
      have count : (s.dataBits - 1 - s.rxCurBit : Int).toNat = s.dataBits + 1 - k := by omega
      have room : s.dataBits + 1 ≤ s.bodyBits := by
        unfold bodyBits
        omega
      obtain ⟨n, taken⟩ : ∃ n, n = min bits (s.dataBits + 1 - k) := ⟨_, rfl⟩
      have before : min (k - 1) s.dataBits = k - 1 := Nat.min_eq_left (by omega)
      have after : min (k + n - 1) s.dataBits = k - 1 + n := by omega
      rw [before] at byte
      have shifted := shifted_testBit (show n ≤ 8 by omega) byte (by
        intro j above below
        have at_word := equal (j + 1) (by omega) (by omega) (by omega)
        rw [wordBit, if_neg (by omega), if_pos (by omega), Nat.add_sub_cancel] at at_word
        exact at_word)
      refine ⟨n, by omega, by omega, by omega, s.rxCurBit + n,
        if level then s.rxCurByte >>> n ||| (255 <<< (8 - n)) % 256 else s.rxCurByte >>> n,
        s.rxCurParity, ?_, standing_moved ?_ ?_ ?_⟩
      · rw [rxLoop, if_neg none, if_neg busy, if_pos bitsLeft, count, ← taken]
        rfl
      · rw [if_neg (by omega), place]
        push_cast
        omega
      · intro i
        rw [after]
        exact shifted i
      · rw [par, decide_eq_false (by omega), decide_eq_false (by omega)]
    · have last : k = s.dataBits + 1 := by
        unfold bodyBits at inside
        split at inside <;> omega
      have kept : s.parityMode ≠ .none := by
        intro none
        unfold bodyBits at inside
        rw [if_neg (fun kept => kept none)] at inside
        omega
      have full : s.bodyBits = s.dataBits + 2 := by
        unfold bodyBits
        rw [if_pos kept]
        omega
      have bitsDone : ¬(s.rxCurBit ≥ -1 ∧ s.rxCurBit < s.dataBits - 1) := by omega
      have at_parity : s.parityMode ≠ .none ∧ s.rxCurBit = s.dataBits - 1 := ⟨kept, by omega⟩
      have sent := equal k (by omega) (by omega) inside
      rw [wordBit, if_neg start, if_neg within, if_pos ⟨kept, last⟩] at sent
      refine ⟨1, Nat.le_refl 1, some, by omega, s.rxCurBit + 1, s.rxCurByte, level, ?_,
        standing_moved ?_ ?_ ?_⟩
      · rw [rxLoop, if_neg none, if_neg busy, if_neg bitsDone, if_pos at_parity]
        rfl
      · rw [if_neg (by omega), place]
        push_cast
        omega
      · intro i
        rw [byte i, Nat.min_eq_right (by omega), Nat.min_eq_right (by omega)]
      · rw [decide_eq_true (by omega), Bool.true_and]
        exact sent.symm

/-- Bits of one level in front of the stop bits are counted one and all. -/
theorem Standing.within (configured : Configured s) (standing : Standing data parity k s)
    {fuel bits : Nat} (inside : k + bits ≤ s.bodyBits) (enough : bits ≤ fuel)
    (equal : ∀ i, k ≤ i → i < k + bits → wordBit data parity s i = level) :
    ∃ curBit curByte curParity,
      s.rxLoop level fuel bits = s.moved curBit curByte curParity ∧
      Standing data parity (k + bits) (s.moved curBit curByte curParity) := by
  induction fuel generalizing s k bits with
  | zero =>
    have none : bits = 0 := by omega
    subst none
    exact ⟨s.rxCurBit, s.rxCurByte, s.rxCurParity, rfl, standing⟩
  | succ fuel ih =>
    by_cases none : bits = 0
    · subst none
      refine ⟨s.rxCurBit, s.rxCurByte, s.rxCurParity, ?_, standing⟩
      rw [rxLoop, if_pos rfl]
      rfl
    · obtain ⟨c, one, few, room, curBit, curByte, curParity, round, next⟩ :=
        standing.round configured fuel (by omega) (Nat.pos_of_ne_zero none)
          (fun i above below _ => equal i above below)
      have inside' : k + c + (bits - c) ≤ s.bodyBits := by omega
      obtain ⟨curBit', curByte', curParity', rest, last⟩ :=
        ih (configured.congr (rfl : (s.moved curBit curByte curParity).setup = s.setup)) next
          inside' (by omega)
          (fun i above below => equal i (by omega) (by omega))
      refine ⟨curBit', curByte', curParity', round.trans rest, ?_⟩
      rw [show k + bits = k + c + (bits - c) by omega]
      exact last

/-- The parity bit that comes with a byte. -/
def keptParity (parity : Bool) (s : SoftwareSerial) : Bool :=
  decide (s.parityMode ≠ .none) && parity

/-- A receiver that has taken a word. -/
def delivered (data : Nat) (parity : Bool) (s : SoftwareSerial) : SoftwareSerial :=
  (s.moved (s.bodyBits - 2) data (s.keptParity parity)).storeByte.moved s.pduBits 0 false

theorem Standing.stores (configured : Configured s) (standing : Standing data parity s.bodyBits s)
    (fits : data < 2 ^ s.dataBits) (begun : 1 ≤ s.bodyBits) {bits : Nat} (some : ¬bits = 0)
    (fuel : Nat) : s.rxLoop true (fuel + 1) bits = s.delivered data parity := by
  have total := pduBits_eq s
  have stop := configured.stop
  have eight := configured.byte
  obtain ⟨place, byte, par⟩ := standing
  rw [if_neg (by omega)] at place
  have room : s.dataBits + 1 ≤ s.bodyBits := by
    unfold bodyBits
    omega
  have kept : s.keptParity parity = (decide (s.dataBits + 1 < s.bodyBits) && parity) := by
    unfold keptParity bodyBits
    congr 1
    by_cases none : s.parityMode = .none
    · rw [if_neg (fun kept => kept none)]
      exact decide_eq_decide.2 ⟨fun kept => absurd none kept, fun less => by omega⟩
    · rw [if_pos none]
      exact decide_eq_decide.2 ⟨fun _ => by omega, fun _ => none⟩
  have shifted : s.rxCurByte >>> (8 - s.dataBits) = data := by
    apply Nat.eq_of_testBit_eq
    intro i
    rw [Nat.testBit_shiftRight, byte, Nat.min_eq_right (by omega),
      show 8 - s.dataBits + i + s.dataBits - 8 = i by omega]
    by_cases low : i < s.dataBits
    · rw [decide_eq_true (by omega), Bool.true_and]
    · rw [decide_eq_false (by omega), Bool.false_and, Nat.testBit_lt_two_pow]
      exact Nat.lt_of_lt_of_le fits (Nat.pow_le_pow_right (by decide) (by omega))
  have complete : { s with rxCurByte := s.rxCurByte >>> (8 - s.dataBits) } =
      s.moved (s.bodyBits - 2) data (s.keptParity parity) := by
    rw [moved, shifted, kept, ← par, ← place]
  have busy : ¬s.rxCurBit ≥ s.pduBits - 1 := by omega
  have bitsDone : ¬(s.rxCurBit ≥ -1 ∧ s.rxCurBit < s.dataBits - 1) := by omega
  have parityDone : ¬(s.parityMode ≠ .none ∧ s.rxCurBit = s.dataBits - 1) := by
    rintro ⟨mode, here⟩
    have full : s.bodyBits = s.dataBits + 2 := by
      unfold bodyBits
      rw [if_pos mode]
      omega
    omega
  have reached : ¬s.rxCurBit < s.pduBits - s.stopBits - 1 := by omega
  have here : s.rxCurBit = s.pduBits - s.stopBits - 1 := by omega
  rw [rxLoop, if_neg some, if_neg busy, if_neg bitsDone, if_neg parityDone, if_neg reached,
    if_pos here, if_pos rfl, complete]
  dsimp only
  rw [pduBits_congr (storeByte_setup _)]
  rfl

/-- Bits that reach the stop bits, and are high up to there, deliver the word, however many there
are. -/
theorem Standing.delivers (configured : Configured s) (standing : Standing data parity k s)
    (fits : data < 2 ^ s.dataBits) {fuel bits : Nat} (begun : 1 ≤ k) (before : k ≤ s.bodyBits)
    (reach : s.bodyBits < k + bits) (enough : bits ≤ fuel)
    (equal : ∀ i, k ≤ i → i < s.bodyBits → wordBit data parity s i = true) :
    s.rxLoop true fuel bits = s.delivered data parity := by
  induction fuel generalizing s k bits with
  | zero => omega
  | succ fuel ih =>
    by_cases inside : k < s.bodyBits
    · obtain ⟨c, one, few, room, curBit, curByte, curParity, round, next⟩ :=
        standing.round configured fuel inside (show 1 ≤ bits by omega)
          (fun i above _ below => equal i above below)
      have reach' : s.bodyBits < k + c + (bits - c) := by omega
      have moved : (s.moved curBit curByte curParity).setup = s.setup := rfl
      exact round.trans (ih (configured.congr moved) next fits (by omega) room reach' (by omega)
        (fun i above below => equal i (by omega) below))
    · have last : k = s.bodyBits := by omega
      subst last
      exact standing.stores configured fits begun (by omega) fuel

end Esp8266.Source.SoftwareSerial
