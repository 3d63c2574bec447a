import Esp8266.Source.Crc
import Esp8266.Source.Twi

/-!
# What I2C transfers put on the bus

A write clocks out the address and the bytes up to the first that is refused, whatever the slave
does. A read clocks in as many bytes as asked for and acknowledges all but the last; asked for no
byte, it clocks in 2³² of them.
-/
set_option autoImplicit false

namespace Esp8266.Source.Twi
open Esp8266.Source.Crc (msbBits and_two_pow_ne_zero)

/-! ## Bytes on the bus -/

/-- A byte that the master sends, with the level of SDA in the pulse after it. -/
def sent (byte : UInt8) (level : Bool) : List Signal :=
  (msbBits byte).map .pulse ++ [.pulse true, .read level]

/-- A byte that the slave sends. -/
def taken (byte : UInt8) (nack : Bool) : List Signal :=
  (msbBits byte).flatMap (fun bit => [.pulse true, .read bit]) ++ [.pulse nack]

/-- Bytes of which all but the last are acknowledged. -/
def received : List UInt8 → List Signal
  | [] => []
  | [byte] => taken byte true
  | byte :: rest => taken byte false ++ received rest

def stopped (sendStop : Bool) : List Signal := if sendStop then [.pulse false, .stop] else []

/-- The stop condition or a pulse, and at most ten pulses until SDA is free. -/
def Finish (sendStop : Bool) (signals : List Signal) : Prop :=
  ∃ k ≤ 10, ∃ level, (k < 10 → level = true) ∧
    signals = (if sendStop then [.pulse false, .stop] else [.pulse true]) ++
      (List.replicate k [.read false, .pulse true]).flatten ++ [.read level]

namespace Bus

variable (slave : List Signal → Bool) (t : Bus)

/-- The lines let go, as at the start of a transfer. -/
def released : Bus := t.sclHigh.sdaHigh

/-- No slave holds SDA at the start. -/
def Free : Prop := slave t.released.signals = true

/-- What a transfer begins with. -/
def opened : List Signal := t.released.signals ++ [.read true, .start]

/-- The slave answers the address byte. -/
def Acknowledged (address : UInt8) : Prop :=
  slave (t.opened ++ (msbBits address).map .pulse ++ [.pulse true]) = false

/-! ## Single bits -/

theorem writeBit_eq (bit : Bool) :
    t.writeBit bit = ⟨true, bit, t.signals ++ [.pulse bit]⟩ := by
  cases bit <;> simp [writeBit, sclLow, sdaHigh, sdaLow, sclHigh]

theorem readBit_eq : t.readBit slave =
    (slave (t.signals ++ [.pulse true]), ⟨true, true, t.signals ++
      [.pulse true, .read (slave (t.signals ++ [.pulse true]))]⟩) := by
  simp [readBit, sclLow, sdaHigh, sclHigh, sdaRead]

theorem writeStop_eq : t.writeStop = ⟨true, true, t.signals ++ [.pulse false, .stop]⟩ := by
  simp [writeStop, sclLow, sdaHigh, sdaLow, sclHigh]

theorem twiSclValley_eq : t.twiSclValley = ⟨true, t.sda, t.signals ++ [.pulse t.sda]⟩ := by
  simp [twiSclValley, sclLow, sclHigh]

theorem writeStart_eq (free : t.Free slave) :
    t.writeStart slave = (true, ⟨true, false, t.opened⟩) := by
  have level : slave t.sclHigh.sdaHigh.signals = true := free
  have sda : t.sclHigh.sdaHigh.sda = true := rfl
  simp only [writeStart, sdaRead, level, sda]
  simp [opened, released, sdaLow, sclHigh, sdaHigh]

/-! ## Bytes -/

theorem and_top_bit (byte : UInt8) : decide (byte &&& 0x80 ≠ 0) = byte.toNat.testBit 7 := by
  have top : byte &&& 0x80 ≠ 0 ↔ byte.toNat.testBit 7 = true := by
    rw [ne_eq, ← UInt8.toNat_inj, UInt8.toNat_and]
    exact and_two_pow_ne_zero byte.toNat 7
  rw [Bool.eq_iff_iff, decide_eq_true_iff]
  exact top

theorem testBit_shifted (byte : UInt8) {i : Nat} (below : i < 8) :
    (byte <<< 1).toNat.testBit i = (decide (1 ≤ i) && byte.toNat.testBit (i - 1)) := by
  rw [UInt8.toNat_shiftLeft]
  exact (Nat.testBit_mod_two_pow _ 8 i).trans
    (by rw [decide_eq_true below, Bool.true_and, Nat.testBit_shiftLeft]; rfl)

/-- The loop shifts the bits out from the top. -/
theorem writeBits_signals (n : Nat) (byte : UInt8) :
    (t.writeBits n byte).signals =
      t.signals ++ (List.range n).map fun i =>
        .pulse (decide (i ≤ 7) && byte.toNat.testBit (7 - i)) := by
  induction n generalizing byte t with
  | zero => exact (List.append_nil _).symm
  | succ n ih =>
    have shifted : ∀ i, (decide (i ≤ 7) && (byte <<< 1).toNat.testBit (7 - i)) =
        (decide (i + 1 ≤ 7) && byte.toNat.testBit (7 - (i + 1))) := by
      intro i
      rw [testBit_shifted byte (by omega), ← Bool.and_assoc, ← Bool.decide_and]
      exact congrArg₂ _ (decide_eq_decide.2 (by omega)) (by rw [Nat.sub_add_eq])
    rw [writeBits, ih, writeBit_eq, List.range_succ_eq_map, List.map_cons, List.map_map,
      List.append_assoc, and_top_bit]
    simp only [shifted]
    rfl

/-- A byte is sent bit by bit, and refused if the slave does not pull SDA down after it. -/
theorem writeByte_eq (byte : UInt8) :
    ∃ level, level = slave (t.signals ++ (msbBits byte).map .pulse ++ [.pulse true]) ∧
      t.writeByte slave byte = (!level, ⟨true, true, t.signals ++ sent byte level⟩) := by
  refine ⟨_, rfl, ?_⟩
  have shifted : (t.writeBits 8 byte).signals = t.signals ++ (msbBits byte).map .pulse := by
    rw [writeBits_signals]
    rfl
  rw [writeByte, readBit_eq, shifted, sent, ← List.append_assoc]

/-- A bit that comes in below the others. -/
def shiftedIn (byte : UInt8) (bit : Bool) : UInt8 := byte <<< 1 ||| bit.toUInt8

/-- Bits that are read, and the byte they make. -/
theorem readBits_eq (n : Nat) (byte : UInt8) : ∃ levels : List Bool, levels.length = n ∧
    (t.readBits slave n byte).1 =
      levels.foldl shiftedIn byte ∧
    (t.readBits slave n byte).2.signals =
      t.signals ++ levels.flatMap fun bit => [.pulse true, .read bit] := by
  induction n generalizing byte t with
  | zero => exact ⟨[], rfl, rfl, (List.append_nil _).symm⟩
  | succ n ih =>
    have step := readBit_eq slave t
    generalize slave (t.signals ++ [.pulse true]) = bit at step
    obtain ⟨levels, count, value, signals⟩ :=
      ih ⟨true, true, t.signals ++ [.pulse true, .read bit]⟩ (shiftedIn byte bit)
    have unfolded : t.readBits slave (n + 1) byte = Bus.readBits slave n (shiftedIn byte bit)
        ⟨true, true, t.signals ++ [.pulse true, .read bit]⟩ := by
      conv_lhs => unfold readBits
      rw [step]
      rfl
    rw [unfolded]
    exact ⟨bit :: levels, congrArg (· + 1) count, value, signals.trans (List.append_assoc ..)⟩

/-- Eight bits are those of the byte that they are shifted into. -/
theorem bits_of_levels : ∀ a b c d e f g h : Bool,
    msbBits ([a, b, c, d, e, f, g, h].foldl shiftedIn 0) = [a, b, c, d, e, f, g, h] := by
  decide

/-- A byte is read bit by bit. -/
theorem readByte_eq (nack : Bool) : ∃ byte,
    t.readByte slave nack = (byte, ⟨true, nack, t.signals ++ taken byte nack⟩) := by
  obtain ⟨levels, count, value, signals⟩ := readBits_eq slave t 8 0
  refine ⟨(t.readBits slave 8 0).1, ?_⟩
  have unfolded : t.readByte slave nack =
      ((t.readBits slave 8 0).1, (t.readBits slave 8 0).2.writeBit nack) := rfl
  rw [unfolded, writeBit_eq, signals, value, taken]
  match levels, count with
  | [a, b, c, d, e, f, g, h], _ => rw [bits_of_levels, List.append_assoc]

/-! ## The end of a transfer -/

/-- At most so many pulses until SDA is free. -/
theorem freeSda_signals (n : Nat) (high : t.sda = true) :
    ∃ k ≤ n, ∃ level, (k < n → level = true) ∧ (t.freeSda slave n).signals =
      t.signals ++ (List.replicate k [.read false, .pulse true]).flatten ++ [.read level] := by
  induction n generalizing t with
  | zero =>
    exact ⟨0, Nat.le_refl _, t.sda && slave t.signals, fun less => absurd less (Nat.lt_irrefl 0),
      congrArg (· ++ _) (List.append_nil _).symm⟩
  | succ n ih =>
    obtain ⟨scl, sda, before⟩ := t
    have up : sda = true := high
    subst up
    cases level : slave before with
    | true =>
      have unfolded : freeSda slave (n + 1) ⟨scl, true, before⟩ =
          ⟨scl, true, before ++ [.read true]⟩ := by
        rw [freeSda, sdaRead, level]
        rfl
      rw [unfolded]
      exact ⟨0, Nat.zero_le _, true, fun _ => rfl, congrArg (· ++ _) (List.append_nil _).symm⟩
    | false =>
      have unfolded : freeSda slave (n + 1) ⟨scl, true, before⟩ =
          freeSda slave n ⟨true, true, before ++ [.read false] ++ [.pulse true]⟩ := by
        rw [freeSda, sdaRead, level]
        exact congrArg (freeSda slave n) (twiSclValley_eq _)
      obtain ⟨k, few, level, free, signals⟩ :=
        ih ⟨true, true, before ++ [.read false] ++ [.pulse true]⟩ rfl
      rw [unfolded]
      refine ⟨k + 1, Nat.succ_le_succ few, level, fun less => free (Nat.lt_of_succ_lt_succ less),
        signals.trans ?_⟩
      rw [List.replicate_succ, List.flatten_cons]
      simp only [List.append_assoc]
      rfl

theorem finish_signals (sendStop : Bool) (high : t.sda = true) :
    ∃ tail, Finish sendStop tail ∧ (t.finish slave sendStop).signals = t.signals ++ tail := by
  cases sendStop with
  | true =>
    obtain ⟨k, few, level, free, signals⟩ := freeSda_signals slave t.writeStop 10
      (by rw [writeStop_eq])
    refine ⟨_, ⟨k, few, level, free, rfl⟩, signals.trans ?_⟩
    rw [writeStop_eq]
    simp only [List.append_assoc]
    rfl
  | false =>
    obtain ⟨k, few, level, free, signals⟩ := freeSda_signals slave t.twiSclValley 10
      (by rw [twiSclValley_eq]; exact high)
    refine ⟨_, ⟨k, few, level, free, rfl⟩, signals.trans ?_⟩
    rw [twiSclValley_eq, high]
    simp only [List.append_assoc]
    rfl

theorem length_finish {sendStop : Bool} {tail : List Signal} (finish : Finish sendStop tail) :
    tail.length ≤ 23 := by
  obtain ⟨k, few, level, -, rfl⟩ := finish
  have pulses : (List.replicate k [Signal.read false, .pulse true]).flatten.length = k * 2 := by
    rw [List.length_flatten, List.map_replicate, List.sum_replicate_nat]
    rfl
  cases sendStop <;> simp only [List.length_append, pulses] <;> simp <;> omega

theorem refused_signals (sendStop : Bool) :
    (if sendStop then t.writeStop else t).signals = t.signals ++ stopped sendStop := by
  cases sendStop with
  | true => exact congrArg signals t.writeStop_eq
  | false => exact (List.append_nil _).symm

/-! ## Writing -/

/-- The bytes of a buffer from an index on. -/
def bytesFrom (buf : UInt32 → UInt8) (i : UInt32) (n : Nat) : List UInt8 :=
  (List.range n).map fun k => buf (i + UInt32.ofNat k)

theorem bytesFrom_succ (buf : UInt32 → UInt8) (i : UInt32) (n : Nat) :
    bytesFrom buf i (n + 1) = buf i :: bytesFrom buf (i + 1) n := by
  unfold bytesFrom
  rw [List.range_succ_eq_map, List.map_cons, List.map_map]
  congr 1
  · exact congrArg buf (UInt32.add_zero i)
  · refine List.map_congr_left fun k _ => congrArg buf ?_
    rw [Nat.succ_eq_add_one, UInt32.ofNat_add, UInt32.add_comm (UInt32.ofNat k),
      ← UInt32.add_assoc]
    rfl

/-- The bytes are sent up to and including the first one that is refused. -/
theorem writeLoop_cases (buf : UInt32 → UInt8) (n : Nat) (i : UInt32) (high : t.sda = true) :
    (∃ t', t.writeLoop slave buf n i = (true, t') ∧ t'.sda = true ∧
      t'.signals = t.signals ++ (bytesFrom buf i n).flatMap (sent · false)) ∨
    ∃ t' front byte rest, t.writeLoop slave buf n i = (false, t') ∧
      bytesFrom buf i n = front ++ byte :: rest ∧
      t'.signals = t.signals ++ front.flatMap (sent · false) ++ sent byte true := by
  induction n generalizing i t with
  | zero => exact .inl ⟨t, rfl, high, (List.append_nil _).symm⟩
  | succ n ih =>
    obtain ⟨level, -, written⟩ := writeByte_eq slave t (buf i)
    unfold writeLoop
    rw [written, bytesFrom_succ]
    cases level with
    | true => exact .inr ⟨_, [], buf i, _, rfl, rfl, by rw [List.flatMap_nil, List.append_nil]⟩
    | false =>
      rcases ih ⟨true, true, t.signals ++ sent (buf i) false⟩ (i + 1) rfl with
        ⟨t', same, free, signals⟩ | ⟨t', front, byte, rest, same, cut, signals⟩
      · exact .inl ⟨t', same, free, signals.trans (List.append_assoc ..)⟩
      · refine .inr ⟨t', buf i :: front, byte, rest, same, congrArg _ cut, ?_⟩
        rw [signals, List.flatMap_cons]
        simp only [List.append_assoc]

/-- The address byte and the data up to the first byte that is refused, and the result that tells
which one it was. -/
def WritesAsAsked (address : UInt8) (buf : UInt32 → UInt8) (len : UInt32) (sendStop : Bool) :
    Prop :=
  let bytes := address <<< 1 :: bytesFrom buf 0 len.toNat
  let (ret, t') := t.writeTo slave address buf len sendStop
  (ret = 0 ∧ ∃ tail, Finish sendStop tail ∧
    t'.signals = t.opened ++ bytes.flatMap (sent · false) ++ tail) ∨
  ∃ front byte rest, bytes = front ++ byte :: rest ∧ ret = (if front = [] then 2 else 3) ∧
    t'.signals = t.opened ++ front.flatMap (sent · false) ++ sent byte true ++ stopped sendStop

theorem writesAsAsked (free : t.Free slave) (address : UInt8) (buf : UInt32 → UInt8)
    (len : UInt32) (sendStop : Bool) : t.WritesAsAsked slave address buf len sendStop := by
  obtain ⟨level, -, written⟩ :=
    writeByte_eq slave ⟨true, false, t.opened⟩ (address <<< 1)
  unfold WritesAsAsked writeTo
  rw [writeStart_eq slave t free, UInt8.or_zero]
  dsimp only
  rw [written]
  cases level with
  | true =>
    refine .inr ⟨[], address <<< 1, _, rfl, rfl, ?_⟩
    rw [Bool.not_true]
    dsimp only
    rw [refused_signals, List.flatMap_nil, List.append_nil]
  | false =>
    rcases writeLoop_cases slave ⟨true, true, t.opened ++ sent (address <<< 1) false⟩ buf
      len.toNat 0 rfl with ⟨t', same, high, signals⟩ | ⟨t', front, byte, rest, same, cut, signals⟩
    · obtain ⟨tail, finish, signals'⟩ := finish_signals slave t' sendStop high
      rw [Bool.not_false]
      dsimp only
      rw [same]
      refine .inl ⟨rfl, tail, finish, ?_⟩
      rw [signals', signals, List.flatMap_cons]
      simp only [List.append_assoc]
    · rw [Bool.not_false]
      dsimp only
      rw [same]
      refine .inr ⟨address <<< 1 :: front, byte, rest, congrArg _ cut, rfl, ?_⟩
      dsimp only
      rw [refused_signals, signals, List.flatMap_cons]
      simp only [List.append_assoc]

/-! ## Reading -/

/-- The bytes that are read go to the buffer one after the other. -/
theorem readLoop_spec (n : Nat) (i : UInt32) (buf : UInt32 → UInt8) (small : i.toNat + n < 2 ^ 32) :
    ∃ data : List UInt8, data.length = n ∧
      (t.readLoop slave n i buf).2.signals = t.signals ++ data.flatMap (taken · false) ∧
      ∀ j, (t.readLoop slave n i buf).1 j =
        if i.toNat ≤ j.toNat then data.getD (j.toNat - i.toNat) (buf j) else buf j := by
  induction n generalizing i buf t with
  | zero => exact ⟨[], rfl, (List.append_nil _).symm, fun j => (ite_self _).symm⟩
  | succ n ih =>
    obtain ⟨byte, step⟩ := readByte_eq slave t false
    have next : (i + 1).toNat = i.toNat + 1 := by
      rw [UInt32.toNat_add, show (1 : UInt32).toNat = 1 from rfl]
      exact Nat.mod_eq_of_lt (by omega)
    obtain ⟨data, count, signals, stored⟩ := ih ⟨true, false, t.signals ++ taken byte false⟩
      (i + 1) (Function.update buf i byte) (by omega)
    have unfolded : t.readLoop slave (n + 1) i buf = readLoop slave n (i + 1)
        (Function.update buf i byte) ⟨true, false, t.signals ++ taken byte false⟩ := by
      conv_lhs => unfold readLoop
      rw [step]
    rw [unfolded]
    refine ⟨byte :: data, congrArg (· + 1) count, signals.trans (List.append_assoc ..), fun j => ?_⟩
    rw [stored, next]
    by_cases first : j = i
    · rw [first, if_neg (by omega), if_pos (Nat.le_refl _), Nat.sub_self, Function.update_self]
      rfl
    · rw [Function.update_of_ne first]
      have differ : j.toNat ≠ i.toNat := fun same => first (UInt32.toNat_inj.1 same)
      by_cases later : i.toNat + 1 ≤ j.toNat
      · rw [if_pos later, if_pos (by omega),
          show j.toNat - i.toNat = j.toNat - (i.toNat + 1) + 1 by omega]
        rfl
      · rw [if_neg later, if_neg (by omega)]

theorem received_concat (data : List UInt8) (last : UInt8) :
    received (data ++ [last]) = data.flatMap (taken · false) ++ taken last true := by
  induction data with
  | nil => rfl
  | cons byte rest ih =>
    rw [List.flatMap_cons, List.append_assoc, ← ih, List.cons_append]
    match rest with
    | [] => rfl
    | _ :: _ => rfl

/-- An acknowledged read puts the bytes that it clocks in, and only these, into the buffer, and
acknowledges all but the last; a refused one does nothing. -/
def ReadsAsAsked (address : UInt8) (buf : UInt32 → UInt8) (len : UInt32) (sendStop : Bool) :
    Prop :=
  let (ret, buf', t') := t.readFrom slave address buf len sendStop
  (ret = 0 ↔ t.Acknowledged slave (address <<< 1 ||| 1)) ∧
  (t.Acknowledged slave (address <<< 1 ||| 1) → ∃ data tail, data.length = len.toNat ∧
    Finish sendStop tail ∧
    t'.signals = t.opened ++ sent (address <<< 1 ||| 1) false ++ received data ++ tail ∧
    ∀ i, buf' i = data.getD i.toNat (buf i)) ∧
  (¬ t.Acknowledged slave (address <<< 1 ||| 1) → buf' = buf ∧
    t'.signals = t.opened ++ sent (address <<< 1 ||| 1) true ++ stopped sendStop)

/-- What a read does that is acknowledged: one byte after the loop, also if the loop is long. -/
theorem readFrom_acknowledged (free : t.Free slave) (address : UInt8)
    (acknowledged : t.Acknowledged slave (address <<< 1 ||| 1)) (buf : UInt32 → UInt8)
    (len : UInt32) (sendStop : Bool) :
    ∃ data last tail, data.length = (len - 1).toNat ∧ Finish sendStop tail ∧
      (t.readFrom slave address buf len sendStop).1 = 0 ∧
      (t.readFrom slave address buf len sendStop).2.2.signals =
        t.opened ++ sent (address <<< 1 ||| 1) false ++ received (data ++ [last]) ++ tail ∧
      ∀ i, (t.readFrom slave address buf len sendStop).2.1 i =
        if i = len - 1 then last else data.getD i.toNat (buf i) := by
  obtain ⟨level, answer, written⟩ :=
    writeByte_eq slave ⟨true, false, t.opened⟩ (address <<< 1 ||| 1)
  rw [acknowledged] at answer
  subst answer
  obtain ⟨data, count, signals, stored⟩ := readLoop_spec slave
    ⟨true, true, t.opened ++ sent (address <<< 1 ||| 1) false⟩ (len - 1).toNat 0 buf
    (by have := (len - 1).toNat_lt; simpa using this)
  generalize loop : readLoop slave (len - 1).toNat 0 buf
    ⟨true, true, t.opened ++ sent (address <<< 1 ||| 1) false⟩ = result at signals stored
  obtain ⟨buf', t'⟩ := result
  obtain ⟨last, final⟩ := readByte_eq slave t' true
  obtain ⟨tail, finish, signals'⟩ :=
    finish_signals slave ⟨true, true, t'.signals ++ taken last true⟩ sendStop rfl
  have done : t.readFrom slave address buf len sendStop =
      (0, Function.update buf' (len - 1) last,
        Bus.finish slave sendStop ⟨true, true, t'.signals ++ taken last true⟩) := by
    unfold readFrom
    rw [writeStart_eq slave t free]
    dsimp only
    rw [written]
    dsimp only
    rw [Bool.not_false]
    dsimp only
    rw [loop]
    dsimp only
    rw [final]
  rw [done]
  refine ⟨data, last, tail, count, finish, rfl, ?_, fun i => ?_⟩
  · rw [signals', received_concat]
    dsimp only at signals ⊢
    rw [signals]
    simp only [List.append_assoc]
  · by_cases end_ : i = len - 1
    · rw [end_, if_pos rfl]
      exact Function.update_self ..
    · rw [if_neg end_]
      refine (Function.update_of_ne end_ _ _).trans ((stored i).trans ?_)
      exact if_pos (Nat.zero_le _)

theorem readFrom_refused (free : t.Free slave) (address : UInt8)
    (refused : ¬ t.Acknowledged slave (address <<< 1 ||| 1)) (buf : UInt32 → UInt8)
    (len : UInt32) (sendStop : Bool) :
    ∃ t', t.readFrom slave address buf len sendStop = (2, buf, t') ∧
      t'.signals = t.opened ++ sent (address <<< 1 ||| 1) true ++ stopped sendStop := by
  obtain ⟨level, answer, written⟩ :=
    writeByte_eq slave ⟨true, false, t.opened⟩ (address <<< 1 ||| 1)
  have up : level = true := by
    rw [answer]
    exact Bool.eq_true_of_not_eq_false refused
  subst up
  refine ⟨_, ?_, refused_signals ⟨true, true, t.opened ++ sent (address <<< 1 ||| 1) true⟩ sendStop⟩
  unfold readFrom
  rw [writeStart_eq slave t free]
  dsimp only
  rw [written]
  rfl

/-- A read of at least one byte, or from an address that nobody answers, is as asked for. -/
theorem readsAsAsked (free : t.Free slave) (address : UInt8) (buf : UInt32 → UInt8)
    (len : UInt32) (sendStop : Bool)
    (some_byte : len ≠ 0 ∨ ¬ t.Acknowledged slave (address <<< 1 ||| 1)) :
    t.ReadsAsAsked slave address buf len sendStop := by
  by_cases acknowledged : t.Acknowledged slave (address <<< 1 ||| 1)
  · obtain ⟨data, last, tail, count, finish, ret, signals, stored⟩ :=
      readFrom_acknowledged slave t free address acknowledged buf len sendStop
    have nonzero : len ≠ 0 := some_byte.resolve_right (not_not.2 acknowledged)
    have positive : len.toNat ≠ 0 := fun zero => nonzero (UInt32.toNat_inj.1 zero)
    have before : (len - 1).toNat = len.toNat - 1 := by
      rw [UInt32.toNat_sub_of_le]
      · rfl
      · exact UInt32.le_iff_toNat_le.2 (Nat.one_le_iff_ne_zero.2 positive)
    refine ⟨iff_of_true ret acknowledged, fun _ => ⟨data ++ [last], tail, ?_, finish, signals,
      fun i => (stored i).trans ?_⟩, fun refused => absurd acknowledged refused⟩
    · rw [List.length_append, List.length_singleton, count]
      omega
    · by_cases end_ : i = len - 1
      · rw [if_pos end_, end_, ← count, List.getD_append_right _ _ _ _ (Nat.le_refl _),
          Nat.sub_self]
        rfl
      · have differ : i.toNat ≠ data.length := fun same => end_ (UInt32.toNat_inj.1
          (same.trans count))
        rw [if_neg end_]
        by_cases inside : i.toNat < data.length
        · exact (List.getD_append _ _ _ _ inside).symm
        · rw [List.getD_eq_default _ _ (by omega), List.getD_eq_default _ _
            (by rw [List.length_append, List.length_singleton]; omega)]
  · obtain ⟨t', result, signals⟩ :=
      readFrom_refused slave t free address acknowledged buf len sendStop
    unfold ReadsAsAsked
    rw [result]
    exact ⟨iff_of_false (by decide) acknowledged, fun answered => absurd answered acknowledged,
      fun _ => ⟨rfl, signals⟩⟩

theorem length_taken (byte : UInt8) (nack : Bool) : (taken byte nack).length = 17 := rfl

theorem length_received (data : List UInt8) : (received data).length = 17 * data.length := by
  induction data with
  | nil => rfl
  | cons byte rest ih =>
    match rest with
    | [] => rfl
    | next :: rest =>
      rw [received, List.length_append, ih, length_taken, List.length_cons (a := byte)]
      · omega
      · exact List.cons_ne_nil _ _

/-- Asked for no byte, a read goes on and on. -/
theorem not_reads_zero (free : t.Free slave) (address : UInt8) (buf : UInt32 → UInt8)
    (sendStop : Bool) (acknowledged : t.Acknowledged slave (address <<< 1 ||| 1)) :
    ¬ t.ReadsAsAsked slave address buf 0 sendStop := by
  obtain ⟨data, last, tail, count, finish, -, signals, -⟩ :=
    readFrom_acknowledged slave t free address acknowledged buf 0 sendStop
  rintro ⟨-, asked, -⟩
  obtain ⟨data', tail', none_, finish', signals', -⟩ := asked acknowledged
  have lengths := congrArg List.length (signals.symm.trans signals')
  have round : ((0 : UInt32) - 1).toNat = 2 ^ 32 - 1 := rfl
  have empty : (0 : UInt32).toNat = 0 := rfl
  have few := length_finish finish'
  simp only [List.length_append, length_received, List.length_singleton, count, none_, round,
    empty] at lengths
  omega

end Bus

/-- `requestFrom` reads into its buffer, and returns the number of bytes. -/
def TwoWire.RequestsAsAsked (slave : List Signal → Bool) (address : UInt8) (size : UInt32)
    (sendStop : Bool) (w : TwoWire) : Prop :=
  w.bus.ReadsAsAsked slave address w.rxBuffer (clipped size) sendStop ∧
  ∃ ret, w.bus.readFrom slave address w.rxBuffer (clipped size) sendStop =
      (ret, (w.requestFrom slave address size sendStop).2.rxBuffer,
        (w.requestFrom slave address size sendStop).2.bus) ∧
    (w.requestFrom slave address size sendStop).1 = if ret = 0 then clipped size else 0

theorem clipped_eq_zero {size : UInt32} : clipped size = 0 ↔ size = 0 := by
  unfold clipped
  split
  · rename_i large
    exact iff_of_false (by decide) fun nothing => absurd large (by rw [nothing]; decide)
  · exact Iff.rfl

theorem not_requests_zero (slave : List Signal → Bool) (w : TwoWire) (free : w.bus.Free slave)
    (address : UInt8) (sendStop : Bool)
    (acknowledged : w.bus.Acknowledged slave (address <<< 1 ||| 1)) :
    ¬ w.RequestsAsAsked slave address 0 sendStop := by
  rintro ⟨reads, -⟩
  rw [clipped_eq_zero.2 rfl] at reads
  exact Bus.not_reads_zero slave w.bus free address w.rxBuffer sendStop acknowledged reads

/-- Transfers are as asked for, except for a read of no byte that is acknowledged. -/
theorem transfers_iff (slave : List Signal → Bool) (w : TwoWire) (free : w.bus.Free slave)
    (address : UInt8) (buf : UInt32 → UInt8) (len size : UInt32) (sendStop : Bool) :
    (w.bus.WritesAsAsked slave address buf len sendStop ∧
        w.RequestsAsAsked slave address size sendStop) ↔
      size ≠ 0 ∨ ¬ w.bus.Acknowledged slave (address <<< 1 ||| 1) := by
  rw [and_iff_right (Bus.writesAsAsked slave w.bus free address buf len sendStop)]
  constructor
  · intro reads
    by_contra neither
    obtain ⟨nothing, acknowledged⟩ := not_or.1 neither
    rw [not_not.1 nothing] at reads
    exact not_requests_zero slave w free address sendStop (not_not.1 acknowledged) reads
  · intro allowed
    exact ⟨Bus.readsAsAsked slave w.bus free address w.rxBuffer _ sendStop
      (allowed.imp_left fun some_byte => mt clipped_eq_zero.1 some_byte), _, rfl, rfl⟩

/-- A bus that was not used before. -/
def idle : TwoWire := ⟨⟨true, true, []⟩, fun _ => 0, 0, 0⟩

/-- A read of two bytes on a bus without slaves. -/
theorem transfers_without_slave :
    (idle.bus.WritesAsAsked (fun _ => true) 0x3c (fun _ => 0) 1 true ∧
        idle.RequestsAsAsked (fun _ => true) 0x3c 2 true) ↔
      (2 : UInt32) ≠ 0 ∨ ¬ idle.bus.Acknowledged (fun _ => true) ((0x3c : UInt8) <<< 1 ||| 1) :=
  transfers_iff (fun _ => true) idle rfl 0x3c (fun _ => 0) 1 2 true

/-- A slave that acknowledges its address is read without end. -/
theorem empty_request_reads_on :
    ¬ idle.RequestsAsAsked (fun signals => signals.length != 11) 0x3c 0 true :=
  not_requests_zero (fun signals => signals.length != 11) idle rfl 0x3c true rfl

end Esp8266.Source.Twi
