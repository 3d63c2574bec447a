import Esp8266.Source.Spi

/-!
# Patterns repeated on the SPI bus

A pattern goes out as groups that fill the FIFO and a rest. The rest is always sent: where there
is none, the length 0 wraps and the whole FIFO goes out once more. Few bytes go out at once; there
the test of their number wraps too.
-/
set_option autoImplicit false

namespace Esp8266.Source.SpiClass.Registers

/-! ## Lengths -/

/-- The mask clears both fields. -/
theorem mask_clear {i : Nat} (below : i < 9) :
    (~~~(spimMosi <<< spilMosi ||| spimMiso <<< spilMiso)).toNat.testBit (17 + i) = false := by
  revert i
  decide

theorem field_mask {i : Nat} (below : i < 9) : spimMosi.toNat.testBit i = true := by
  revert i
  decide

/-- The field for MOSI gets the length less one, and what spills over from the field for MISO. -/
theorem mosiField_setDataBits (bits : UInt16) (s : Registers) :
    mosiField (s.setDataBits bits).spi1U1 =
      ((bits - 1).toNat % 2 ^ 9) ||| ((bits - 1).toNat / 2 ^ 9) := by
  have narrow := (bits - 1).toNat_lt
  apply Nat.eq_of_testBit_eq
  intro i
  unfold mosiField setDataBits
  dsimp only
  generalize bits - 1 = x at narrow
  have shifted : ∀ k < 32, ∀ j, (x.toUInt32 <<< UInt32.ofNat k).toNat.testBit j =
      (decide (j < 32) && (decide (j ≥ k) && x.toNat.testBit (j - k))) := by
    intro k small j
    have amount : (UInt32.ofNat k).toNat % 32 = k := by
      rw [UInt32.toNat_ofNat']
      omega
    rw [UInt32.toNat_shiftLeft, amount, Nat.testBit_mod_two_pow, Nat.testBit_shiftLeft]
    rfl
  rw [UInt32.toNat_and, Nat.testBit_and, UInt32.toNat_shiftRight, Nat.testBit_shiftRight,
    Nat.testBit_or, Nat.testBit_mod_two_pow, Nat.testBit_div_two_pow, UInt32.toNat_or,
    Nat.testBit_or, UInt32.toNat_and, Nat.testBit_and, UInt32.toNat_or, Nat.testBit_or]
  have mosi := shifted 17 (by decide) (17 + i)
  have miso := shifted 8 (by decide) (17 + i)
  change (x.toUInt32 <<< spilMosi).toNat.testBit (17 + i) = _ at mosi
  change (x.toUInt32 <<< spilMiso).toNat.testBit (17 + i) = _ at miso
  rw [show spilMosi.toNat % 32 = 17 from rfl, mosi, miso, Nat.add_sub_cancel_left,
    show 17 + i - 8 = i + 9 by omega, decide_eq_true (show 17 + i ≥ 17 by omega),
    decide_eq_true (show 17 + i ≥ 8 by omega), Bool.true_and, Bool.true_and]
  by_cases below : i < 9
  · rw [mask_clear below, field_mask below, decide_eq_true below,
      decide_eq_true (show 17 + i < 32 by omega)]
    simp only [Bool.and_false, Bool.false_or, Bool.true_and, Bool.and_true]
  · have high : x.toNat.testBit (i + 9) = false := Nat.testBit_lt_two_pow
      (Nat.lt_of_lt_of_le narrow (Nat.pow_le_pow_right (by decide) (by omega)))
    have outside : spimMosi.toNat.testBit i = false := Nat.testBit_lt_two_pow
      (Nat.lt_of_lt_of_le (by decide : spimMosi.toNat < 2 ^ 9)
        (Nat.pow_le_pow_right (by decide) (by omega)))
    rw [high, outside, decide_eq_false below]
    simp only [Bool.and_false, Bool.false_and, Bool.or_false]

/-- A length of up to 512 bits is kept, and 0 becomes 512. -/
theorem mosiField_setDataBits_of_le {n : Nat} (small : n ≤ 512) (s : Registers) :
    mosiField (s.setDataBits (UInt16.ofNat n)).spi1U1 + 1 = if n = 0 then 512 else n := by
  rw [mosiField_setDataBits]
  split
  · rename_i zero
    rw [zero]
    rfl
  · have less : (UInt16.ofNat n - 1).toNat = n - 1 := by
      rw [UInt16.toNat_sub, UInt16.toNat_ofNat', show (1 : UInt16).toNat = 1 from rfl]
      omega
    rw [less, Nat.mod_eq_of_lt (by omega), Nat.div_eq_of_lt (by omega), Nat.or_zero]
    omega

/-! ## The buffer -/

/-- Bytes of a pattern that goes on. -/
theorem flatten_replicate_range {α : Type*} (f : Nat → α) {size : Nat} (n : Nat) :
    (List.replicate n ((List.range size).map f)).flatten =
      (List.range (n * size)).map fun j => f (j % size) := by
  induction n with
  | zero => rw [Nat.zero_mul]; rfl
  | succ n ih =>
    have copy : ∀ j ∈ List.range size, f j = f ((n * size + j) % size) := by
      intro j member
      rw [Nat.mul_add_mod', Nat.mod_eq_of_lt (List.mem_range.1 member)]
    rw [List.replicate_succ', List.flatten_append, ih, Nat.succ_mul, List.range_add,
      List.map_append, List.map_map, List.flatten_singleton, List.map_congr_left copy]
    rfl

/-- Copies that fit into the buffer. -/
theorem copyPatterns_fits (data : Nat → UInt8) (size : UInt8) (r p : Nat) (buffer : Nat → UInt8)
    (fits : p + r * size.toNat ≤ 64) :
    ∃ buffer', copyPatterns data size r p buffer = some buffer' ∧
      (∀ j < p, buffer' j = buffer j) ∧
      ∀ j < r * size.toNat, buffer' (p + j) = data (j % size.toNat) := by
  induction r generalizing p buffer with
  | zero => exact ⟨buffer, rfl, fun _ _ => rfl, fun j inside => by omega⟩
  | succ r ih =>
    rw [Nat.succ_mul] at fits
    obtain ⟨buffer', copied, kept, rest⟩ := ih (p + size.toNat)
      (fun j => if p ≤ j ∧ j < p + size.toNat then data (j - p) else buffer j) (by omega)
    refine ⟨buffer', ?_, fun j before => ?_, fun j inside => ?_⟩
    · rw [copyPatterns, copyPattern, if_pos (by omega)]
      exact copied
    · rw [kept j (by omega), if_neg (by omega)]
    · by_cases first : j < size.toNat
      · rw [kept (p + j) (by omega), if_pos (by omega), Nat.add_sub_cancel_left,
          Nat.mod_eq_of_lt first]
      · rw [Nat.succ_mul] at inside
        have place := rest (j - size.toNat) (by omega)
        rw [← Nat.mod_eq_sub_mod (Nat.le_of_not_lt first)] at place
        rw [← place]
        congr 1
        omega

/-! ## Commands -/

theorem length_bits (lsbFirst : Bool) (byte : UInt8) : (bits lsbFirst byte).length = 8 := rfl

/-- The bits of the first bytes of the FIFO. -/
def fifoBits (s : Registers) (k : Nat) : List Bool :=
  (List.range k).flatMap fun j => bits s.lsbFirst (s.fifo j)

theorem length_flatMap_bits {α : Type*} (lsbFirst : Bool) (f : α → UInt8) (xs : List α) :
    (xs.flatMap fun x => bits lsbFirst (f x)).length = 8 * xs.length := by
  induction xs with
  | nil => rfl
  | cons x rest ih =>
    rw [List.flatMap_cons, List.length_append, ih, length_bits, List.length_cons]
    omega

/-- The bits that a command for whole bytes shifts out. -/
theorem take_fifo (s : Registers) {k : Nat} (most : k ≤ 64) :
    ((List.range 64).flatMap fun j => bits s.lsbFirst (s.fifo j)).take (8 * k) = s.fifoBits k := by
  have cut : List.range 64 = List.range k ++ (List.range (64 - k)).map (k + ·) := by
    rw [← List.range_add, Nat.add_sub_cancel' most]
  have length : (s.fifoBits k).length = 8 * k := by
    rw [fifoBits, length_flatMap_bits, List.length_range]
  rw [cut, List.flatMap_append]
  exact List.take_left' length

/-- A command for whole bytes. -/
theorem command_eq (s : Registers) {k : Nat} (most : k ≤ 64)
    (field : mosiField s.spi1U1 + 1 = 8 * k) :
    s.command = { s with mosi := s.mosi ++ s.fifoBits k } := by
  rw [command, field, take_fifo s most]

/-- The same command again and again. -/
theorem commands_eq (n : Nat) (s : Registers) {k : Nat} (most : k ≤ 64)
    (field : mosiField s.spi1U1 + 1 = 8 * k) :
    s.commands n = { s with mosi := s.mosi ++ (List.replicate n (s.fifoBits k)).flatten } := by
  induction n generalizing s with
  | zero => rw [List.replicate_zero, List.flatten_nil, List.append_nil]; rfl
  | succ n ih =>
    rw [commands, command_eq s most field, List.replicate_succ, List.flatten_cons,
      ← List.append_assoc]
    exact ih _ field

/-- What is to be shifted out: a pattern several times. -/
def patternBits (lsbFirst : Bool) (data : Nat → UInt8) (size n : Nat) : List Bool :=
  (List.replicate n ((List.range size).map data)).flatten.flatMap (bits lsbFirst)

theorem length_patternBits (lsbFirst : Bool) (data : Nat → UInt8) (size n : Nat) :
    (patternBits lsbFirst data size n).length = 8 * (n * size) := by
  rw [patternBits, flatten_replicate_range]
  refine (length_flatMap_bits lsbFirst id _).trans ?_
  rw [List.length_map, List.length_range]

theorem patternBits_add (lsbFirst : Bool) (data : Nat → UInt8) (size m n : Nat) :
    patternBits lsbFirst data size (m + n) =
      patternBits lsbFirst data size m ++ patternBits lsbFirst data size n := by
  unfold patternBits
  rw [← List.replicate_append_replicate, List.flatten_append, List.flatMap_append]

theorem patternBits_mul (lsbFirst : Bool) (data : Nat → UInt8) (size r q : Nat) :
    patternBits lsbFirst data size (r * q) =
      (List.replicate q (patternBits lsbFirst data size r)).flatten := by
  induction q with
  | zero => rfl
  | succ q ih =>
    rw [Nat.mul_succ, patternBits_add, ih, List.replicate_succ', List.flatten_append,
      List.flatten_singleton]

/-- The FIFO holds copies of the pattern. -/
theorem fifoBits_copies (s : Registers) (data : Nat → UInt8) (size n : Nat)
    (copies : ∀ j < n * size, s.fifo j = data (j % size)) :
    s.fifoBits (n * size) = patternBits s.lsbFirst data size n := by
  rw [patternBits, flatten_replicate_range, List.flatMap_map, fifoBits, List.flatMap_def,
    List.flatMap_def]
  refine congrArg List.flatten (List.map_congr_left fun j member => ?_)
  rw [copies j (List.mem_range.1 member)]

/-- A length in bytes that makes a field. -/
theorem field_of_bytes (s : Registers) {k : Nat} (some_bytes : k ≠ 0) (most : k ≤ 64) :
    mosiField (s.setDataBits (UInt16.ofNat (8 * k))).spi1U1 + 1 = 8 * k := by
  rw [mosiField_setDataBits_of_le (by omega), if_neg (by omega)]

/-- A command for copies of the pattern. -/
theorem command_copies (s : Registers) (data : Nat → UInt8) (size n : Nat)
    (some_bytes : n * size ≠ 0) (most : n * size ≤ 64)
    (copies : ∀ j < n * size, s.fifo j = data (j % size)) :
    (s.setDataBits (UInt16.ofNat (8 * (n * size)))).command.mosi =
      s.mosi ++ patternBits s.lsbFirst data size n := by
  rw [command_eq _ most (field_of_bytes s some_bytes most)]
  exact congrArg (s.mosi ++ ·) (fifoBits_copies _ data size n copies)

/-- Commands for groups of copies. -/
theorem commands_copies (s : Registers) (data : Nat → UInt8) (size r q : Nat)
    (some_bytes : r * size ≠ 0) (most : r * size ≤ 64)
    (copies : ∀ j < r * size, s.fifo j = data (j % size)) :
    ∃ s', (s.setDataBits (UInt16.ofNat (8 * (r * size)))).commands q = s' ∧
      s'.fifo = s.fifo ∧ s'.lsbFirst = s.lsbFirst ∧
      s'.mosi = s.mosi ++ patternBits s.lsbFirst data size (r * q) := by
  refine ⟨_, commands_eq q _ most (field_of_bytes s some_bytes most), rfl, rfl, ?_⟩
  rw [patternBits_mul, fifoBits_copies (s.setDataBits _) data size r copies]
  rfl

/-- A command for no bytes sends the whole FIFO. -/
theorem command_none (s : Registers) :
    (s.setDataBits (UInt16.ofNat 0)).command.mosi = s.mosi ++ s.fifoBits 64 := by
  rw [command_eq _ (Nat.le_refl 64) (mosiField_setDataBits_of_le (Nat.zero_le _) s)]
  rfl

/-- A command sends the FIFO at most once. -/
theorem length_command_le (s : Registers) : s.command.mosi.length ≤ s.mosi.length + 512 := by
  unfold command
  dsimp only
  rw [List.length_append, List.length_take, length_flatMap_bits, List.length_range]
  omega

/-! ## The call -/

/-- The pattern goes out as often as asked for, and nothing else. -/
def Repeats (buffer data : Nat → UInt8) (size : UInt8) (repeat_ : UInt32) (s : Registers) : Prop :=
  ∃ s', s.writePattern buffer data size repeat_ = some s' ∧
    s'.mosi = s.mosi ++ patternBits s.lsbFirst data size.toNat repeat_.toNat

/-- The number of bytes as it is computed. -/
theorem toNat_total (size : UInt8) (repeat_ : UInt32) :
    (repeat_ * size.toUInt32).toNat = repeat_.toNat * size.toNat % 2 ^ 32 := UInt32.toNat_mul ..

theorem total_le_iff (size : UInt8) (repeat_ : UInt32) :
    repeat_ * size.toUInt32 ≤ 64 ↔ repeat_.toNat * size.toNat % 2 ^ 32 ≤ 64 := by
  rw [UInt32.le_iff_toNat_le, toNat_total]
  rfl

/-- The words that hold so many bytes. -/
theorem words_enough (n : UInt8) (few : n.toNat ≤ 64) :
    n.toNat ≤ 4 * (if n &&& 3 ≠ 0 then n / 4 + 1 else n / 4).toNat := by
  have low : (n &&& 3).toNat = n.toNat % 4 :=
    (UInt8.toNat_and ..).trans (Nat.and_two_pow_sub_one_eq_mod n.toNat 2)
  have quarter : (n / 4).toNat = n.toNat / 4 := UInt8.toNat_div ..
  split
  · rw [UInt8.toNat_add, quarter, show (1 : UInt8).toNat = 1 from rfl]
    omega
  · rename_i whole
    rw [not_not, ← UInt8.toNat_inj, low] at whole
    rw [quarter]
    have : (0 : UInt8).toNat = 0 := rfl
    omega

theorem toUInt16_bits (bytes : UInt32) :
    (bytes * 8).toUInt16 = UInt16.ofNat (8 * bytes.toNat) := by
  apply UInt16.toNat_inj.1
  rw [UInt32.toNat_toUInt16, UInt32.toNat_mul, UInt16.toNat_ofNat',
    show (8 : UInt32).toNat = 8 from rfl]
  omega

theorem mul_toUInt16 (r size : UInt8) :
    r.toUInt16 * size.toUInt16 * 8 = UInt16.ofNat (8 * (r.toNat * size.toNat)) := by
  apply UInt16.toNat_inj.1
  rw [UInt16.toNat_mul, UInt16.toNat_mul, UInt16.toNat_ofNat', UInt8.toNat_toUInt16,
    UInt8.toNat_toUInt16, show (8 : UInt16).toNat = 8 from rfl]
  generalize r.toNat * size.toNat = product
  omega

section Branches

variable (buffer data : Nat → UInt8) {size : UInt8} (positive : 1 ≤ size.toNat)
  (most : size.toNat ≤ 64) (repeat_ : UInt32) (s : Registers)

include positive most

theorem size_allowed : ¬ size > 64 := by
  intro large
  have := UInt8.lt_iff_toNat_lt.1 large
  have : (64 : UInt8).toNat = 64 := rfl
  omega

/-- Few bytes go out with one command. -/
theorem few_repeats (some_times : 1 ≤ repeat_.toNat) (few : repeat_.toNat * size.toNat ≤ 64) :
    s.Repeats buffer data size repeat_ := by
  have times : repeat_.toNat ≤ 64 := Nat.le_trans (Nat.le_mul_of_pos_right _ positive) few
  have some_bytes : repeat_.toNat * size.toNat ≠ 0 :=
    Nat.ne_of_gt (Nat.mul_pos some_times positive)
  have total : (repeat_ * size.toUInt32).toNat = repeat_.toNat * size.toNat := by
    rw [toNat_total, Nat.mod_eq_of_lt (by omega)]
  have copies : repeat_.toUInt8.toNat = repeat_.toNat := by
    rw [UInt32.toNat_toUInt8]
    omega
  have rest : (repeat_ * size.toUInt32).toUInt8.toNat = repeat_.toNat * size.toNat := by
    rw [UInt32.toNat_toUInt8, total]
    omega
  have enough := words_enough (repeat_ * size.toUInt32).toUInt8 (by omega)
  rw [rest] at enough
  generalize counted : (if (repeat_ * size.toUInt32).toUInt8 &&& 3 ≠ 0 then
    (repeat_ * size.toUInt32).toUInt8 / 4 + 1 else (repeat_ * size.toUInt32).toUInt8 / 4) = words
    at enough
  obtain ⟨buffer', copied, -, content⟩ :=
    copyPatterns_fits data size repeat_.toUInt8.toNat 0 buffer (by rw [copies]; omega)
  rw [copies] at content
  refine ⟨_, ?_, command_copies (s.fillFifo words.toNat buffer') data size.toNat repeat_.toNat
    some_bytes few fun j inside => ?_⟩
  · rw [writePattern, if_neg (size_allowed positive most),
      if_pos ((total_le_iff size repeat_).2 (by omega))]
    dsimp only
    rw [copied, toUInt16_bits, total, counted]
    rfl
  · have place := content j inside
    rw [Nat.zero_add] at place
    exact (if_pos (Nat.lt_of_lt_of_le inside enough)).trans place

/-- Many bytes go out in groups, and after them the rest, or the FIFO if there is none. -/
theorem many_sent (many : 64 < repeat_.toNat * size.toNat % 2 ^ 32) :
    ∃ s' rest, s.writePattern buffer data size repeat_ = some s' ∧
      s'.mosi = s.mosi ++ patternBits s.lsbFirst data size.toNat
        (64 / size.toNat * (repeat_.toNat / (64 / size.toNat))) ++ rest ∧
      (repeat_.toNat % (64 / size.toNat) = 0 → rest.length = 512) ∧
      (repeat_.toNat % (64 / size.toNat) ≠ 0 → rest =
        patternBits s.lsbFirst data size.toNat (repeat_.toNat % (64 / size.toNat))) := by
  have groups : (64 / size).toNat = 64 / size.toNat := UInt8.toNat_div ..
  have at_least : 1 ≤ 64 / size.toNat := (Nat.one_le_div_iff positive).2 most
  have room : 64 / size.toNat * size.toNat ≤ 64 := Nat.div_mul_le_self 64 size.toNat
  have whole : 64 / size.toNat * size.toNat ≠ 0 := Nat.ne_of_gt (Nat.mul_pos at_least positive)
  have left : repeat_.toNat % (64 / size.toNat) < 64 / size.toNat := Nat.mod_lt _ at_least
  have shorter : repeat_.toNat % (64 / size.toNat) * size.toNat ≤ 64 / size.toNat * size.toNat :=
    Nat.mul_le_mul_right _ (Nat.le_of_lt left)
  have rem : (repeat_ % (64 / size).toUInt32 * size.toUInt32).toNat =
      repeat_.toNat % (64 / size.toNat) * size.toNat := by
    rw [UInt32.toNat_mul, UInt32.toNat_mod, UInt8.toNat_toUInt32, UInt8.toNat_toUInt32, groups]
    exact Nat.mod_eq_of_lt (by omega)
  have quotient : (repeat_ / (64 / size).toUInt32).toNat = repeat_.toNat / (64 / size.toNat) := by
    rw [UInt32.toNat_div, UInt8.toNat_toUInt32, groups]
  obtain ⟨buffer', copied, -, content⟩ :=
    copyPatterns_fits data size (64 / size).toNat 0 buffer (by rw [groups]; omega)
  rw [groups] at content
  generalize grouped : 64 / size.toNat = r at *
  have copies : ∀ j < r * size.toNat, (s.fillFifo 16 buffer').fifo j = data (j % size.toNat) := by
    intro j inside
    have place := content j inside
    rw [Nat.zero_add] at place
    exact (if_pos (by omega)).trans place
  obtain ⟨s₂, grouped_, fifo, order, sent⟩ := commands_copies (s.fillFifo 16 buffer') data
    size.toNat r (repeat_.toNat / r) whole room copies
  have called : s.writePattern buffer data size repeat_ = some ((s₂.setDataBits
      (UInt16.ofNat (8 * (repeat_.toNat % r * size.toNat)))).command) := by
    rw [writePattern, if_neg (size_allowed positive most),
      if_neg (mt (total_le_iff size repeat_).1 (by omega))]
    dsimp only
    rw [copied, toUInt16_bits, rem, quotient, mul_toUInt16, groups, ← grouped_]
    rfl
  by_cases none_left : repeat_.toNat % r = 0
  · refine ⟨_, s₂.fifoBits 64, called, ?_, fun _ => ?_,
      fun some_left => absurd none_left some_left⟩
    · rw [none_left, Nat.zero_mul, Nat.mul_zero, command_none, sent]
      rfl
    · rw [fifoBits, length_flatMap_bits, List.length_range]
  · refine ⟨_, _, called, ?_, fun none_left' => absurd none_left' none_left, fun _ => rfl⟩
    have some_bytes : repeat_.toNat % r * size.toNat ≠ 0 :=
      Nat.ne_of_gt (Nat.mul_pos (Nat.pos_of_ne_zero none_left) positive)
    rw [command_copies s₂ data size.toNat (repeat_.toNat % r) some_bytes (by omega)
      fun j inside => (congrFun fifo j).trans (copies j (by omega)), sent, order]
    rfl

/-- Full groups are followed by the FIFO. -/
theorem not_repeats_full (many : 64 < repeat_.toNat * size.toNat % 2 ^ 32)
    (full : repeat_.toNat % (64 / size.toNat) = 0) : ¬ s.Repeats buffer data size repeat_ := by
  rintro ⟨s', called, repeated⟩
  obtain ⟨s'', rest, called', sent, extra, -⟩ :=
    many_sent buffer data positive most repeat_ s many
  have same : s'' = s' := Option.some.inj (called'.symm.trans called)
  have length := congrArg List.length (sent.symm.trans (same ▸ repeated))
  rw [List.length_append, List.length_append, List.length_append, length_patternBits,
    length_patternBits, extra full, Nat.mul_div_cancel' (Nat.dvd_of_mod_eq_zero full)] at length
  omega

/-- A number of bytes that wraps to few ones sends only these. -/
theorem not_repeats_wrapped (many : 64 < repeat_.toNat * size.toNat)
    (wraps : repeat_.toNat * size.toNat % 2 ^ 32 ≤ 64) : ¬ s.Repeats buffer data size repeat_ := by
  rintro ⟨s', called, repeated⟩
  rw [writePattern, if_neg (size_allowed positive most),
    if_pos ((total_le_iff size repeat_).2 wraps)] at called
  obtain ⟨buffer', -, result⟩ := Option.map_eq_some_iff.1 called
  obtain ⟨s₂, last, before⟩ : ∃ s₂ : Registers, s₂.command = s' ∧ s₂.mosi = s.mosi :=
    ⟨_, result, rfl⟩
  have few := length_command_le s₂
  rw [last, before, repeated, List.length_append, length_patternBits] at few
  omega

/-- Patterns are repeated as asked for where they are few, or where the last group is not full and
the number of bytes does not wrap to few. -/
theorem writePattern_iff (some_times : 1 ≤ repeat_.toNat) :
    s.Repeats buffer data size repeat_ ↔
      repeat_.toNat * size.toNat ≤ 64 ∨
        64 < repeat_.toNat * size.toNat % 2 ^ 32 ∧ repeat_.toNat % (64 / size.toNat) ≠ 0 := by
  constructor
  · intro repeated
    by_contra fails
    rw [not_or, Nat.not_le] at fails
    obtain ⟨many, wrong⟩ := fails
    by_cases wraps : repeat_.toNat * size.toNat % 2 ^ 32 ≤ 64
    · exact not_repeats_wrapped buffer data positive most repeat_ s many wraps repeated
    · have full : repeat_.toNat % (64 / size.toNat) = 0 :=
        not_not.1 fun some_left => wrong ⟨by omega, some_left⟩
      exact not_repeats_full buffer data positive most repeat_ s (by omega) full repeated
  · rintro (few | ⟨many, some_left⟩)
    · exact few_repeats buffer data positive most repeat_ s some_times few
    · obtain ⟨s', rest, called, sent, -, last⟩ :=
        many_sent buffer data positive most repeat_ s many
      refine ⟨s', called, ?_⟩
      rw [sent, last some_left, List.append_assoc, ← patternBits_add, Nat.div_add_mod]

end Branches

/-- A controller that has sent nothing yet. -/
def reset : Registers := ⟨fun _ => 0, 0, false, []⟩

/-- A pixel of three bytes 22 times: a group of 21, and one more. -/
theorem writePattern_pixels :
    reset.Repeats (fun _ => 0) (fun i => UInt8.ofNat i) 3 22 ↔
      (22 : UInt32).toNat * (3 : UInt8).toNat ≤ 64 ∨
        64 < (22 : UInt32).toNat * (3 : UInt8).toNat % 2 ^ 32 ∧
          (22 : UInt32).toNat % (64 / (3 : UInt8).toNat) ≠ 0 :=
  writePattern_iff (fun _ => 0) (fun i => UInt8.ofNat i) (by decide) (by decide) 22 reset
    (by decide)

/-- One byte 128 times goes out 192 times. -/
theorem full_groups_send_more : ¬ reset.Repeats (fun _ => 0) (fun _ => 0x55) 1 128 :=
  not_repeats_full (fun _ => 0) (fun _ => 0x55) (by decide) (by decide) 128 reset (by decide)
    (by decide)

end Esp8266.Source.SpiClass.Registers
