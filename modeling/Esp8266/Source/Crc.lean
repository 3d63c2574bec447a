import Esp8266.Lib.ShiftRegister

/-!
# The CRC of the command block and of the image

`crc32` of cores/esp8266/crc32.cpp, `crc_update` of bootloaders/eboot/eboot_command.c and
`crc8266`, `store_word` and `add_crc` of tools/elf2bin.py, with `checkFlashCRC` of
cores/esp8266/Esp.cpp. The C loops work on 32-bit words; the Python loop works on unbounded
integers and masks by hand. All three are compared with one register of
`Lib.ShiftRegister`.
-/
set_option autoImplicit false

namespace Esp8266.Source.Crc
open Esp8266.Lib.ShiftRegister

theorem mask_halves {i : UInt32} (positive : 0 < i) : (i >>> 1).toNat < i.toNat := by
  have : 0 < i.toNat := UInt32.lt_iff_toNat_lt.mp positive
  rw [UInt32.toNat_shiftRight, Nat.shiftRight_eq_div_pow]
  exact Nat.div_lt_self this (by decide)

/-- The inner loop of `crc32`, from mask `i` down to zero. -/
def crc32Bits (c : UInt8) (crc i : UInt32) : UInt32 :=
  if 0 < i then
    let bit := decide (crc &&& 0x80000000 ≠ 0)
    let bit := if c.toUInt32 &&& i ≠ 0 then !bit else bit
    let crc := crc <<< 1
    crc32Bits c (if bit then crc ^^^ 0x04c11db7 else crc) (i >>> 1)
  else crc
termination_by i.toNat
decreasing_by exact mask_halves (by assumption)

/-- crc32.cpp:26. -/
def crc32 : List UInt8 → UInt32 → UInt32
  | [], crc => crc
  | c :: ldata, crc => crc32 ldata (crc32Bits c crc 0x80)

/-- The inner loop of `crc_update`. -/
def crcUpdateBits (c : UInt8) (crc i : UInt32) : UInt32 :=
  if 0 < i then
    let bit := decide (crc &&& 0x80000000 ≠ 0)
    let bit := if c.toUInt32 &&& i ≠ 0 then !bit else bit
    let crc := crc <<< 1
    crcUpdateBits c (if bit then crc ^^^ 0x04c11db7 else crc) (i >>> 1)
  else crc
termination_by i.toNat
decreasing_by exact mask_halves (by assumption)

/-- eboot_command.c:3. -/
def crcUpdate : UInt32 → List UInt8 → UInt32
  | crc, [] => crc
  | crc, c :: data => crcUpdate (crcUpdateBits c crc 0x80) data

/-- One pass of the `for i in [0x80, ...]` loop of `crc8266`. -/
def crc8266Bit (byte : Nat) (crc i : Nat) : Nat :=
  let bit := crc &&& 0x80000000
  let bit := if byte &&& i ≠ 0 then (if bit = 0 then 1 else 0) else bit
  let crc := (crc <<< 1) &&& 0xffffffff
  if bit ≠ 0 then crc ^^^ 0x04c11db7 else crc

def crc8266Byte (crc byte : Nat) : Nat :=
  [0x80, 0x40, 0x20, 0x10, 0x08, 0x04, 0x02, 0x01].foldl (crc8266Bit byte) crc

/-- elf2bin.py:103. -/
def crc8266 (ldata : List UInt8) : Nat :=
  ldata.foldl (fun crc byte => crc8266Byte crc byte.toNat) 0xffffffff

/-! ## The register behind the three loops -/

def poly : BitVec 32 := 0x04c11db7#32

/-- The bits of a byte, most significant first. -/
def msbBits (c : UInt8) : List Bool :=
  (List.range 8).reverse.map c.toNat.testBit

def bitsOf (bytes : List UInt8) : List Bool := bytes.flatMap msbBits

theorem bitsOf_cons (c : UInt8) (rest : List UInt8) :
    bitsOf (c :: rest) = msbBits c ++ bitsOf rest := rfl

theorem and_two_pow_ne_zero (n k : Nat) : n &&& 2 ^ k ≠ 0 ↔ n.testBit k = true := by
  rw [Nat.and_two_pow]
  cases n.testBit k <;> simp

theorem mask_bit (c : UInt8) (i : UInt32) (k : Nat) (mask : i.toNat = 2 ^ k) :
    c.toUInt32 &&& i ≠ 0 ↔ c.toNat.testBit k = true := by
  rw [ne_eq, ← UInt32.toNat_inj, UInt32.toNat_and, mask]
  exact and_two_pow_ne_zero c.toNat k

theorem top_bit (crc : UInt32) : crc &&& 0x80000000 ≠ 0 ↔ crc.toBitVec.msb = true := by
  rw [ne_eq, ← UInt32.toNat_inj, UInt32.toNat_and,
    show (0x80000000 : UInt32).toNat = 2 ^ 31 from rfl, BitVec.msb_eq_getLsbD_last]
  exact and_two_pow_ne_zero crc.toNat 31

/-- One pass of the C loop moves the register by the masked bit. -/
theorem crc32_pass (c : UInt8) (crc i : UInt32) (k : Nat) (mask : i.toNat = 2 ^ k) :
    (if (if c.toUInt32 &&& i ≠ 0 then !decide (crc &&& 0x80000000 ≠ 0)
        else decide (crc &&& 0x80000000 ≠ 0)) = true then crc <<< 1 ^^^ 0x04c11db7
      else crc <<< 1).toBitVec = shift poly crc.toBitVec (c.toNat.testBit k) := by
  have moved : (crc <<< 1).toBitVec = crc.toBitVec <<< 1 := rfl
  simp only [mask_bit c i k mask, top_bit, shift]
  cases crc.toBitVec.msb <;> cases c.toNat.testBit k <;>
    simp [moved, poly]

/-- From mask `2 ^ k` on, the loop feeds the bits `k` to `0`. -/
theorem crc32Bits_feed (c : UInt8) (k : Nat) :
    ∀ (crc i : UInt32), i.toNat = 2 ^ k → (crc32Bits c crc i).toBitVec =
      feed poly crc.toBitVec ((List.range (k + 1)).reverse.map c.toNat.testBit) := by
  induction k with
  | zero =>
    intro crc i mask
    have one : i = 1 := UInt32.toNat_inj.mp mask
    subst one
    rw [crc32Bits, if_pos (by decide), crc32Bits, if_neg (by decide)]
    exact crc32_pass c crc 1 0 rfl
  | succ k ih =>
    intro crc i mask
    have positive : 0 < i := by
      rw [UInt32.lt_iff_toNat_lt, mask]
      exact Nat.two_pow_pos (k + 1)
    have halved : (i >>> 1).toNat = 2 ^ k := by
      rw [UInt32.toNat_shiftRight, mask, Nat.shiftRight_eq_div_pow]
      exact Nat.mul_div_cancel (2 ^ k) (by decide)
    have first : (List.range (k + 1 + 1)).reverse.map c.toNat.testBit =
        c.toNat.testBit (k + 1) :: (List.range (k + 1)).reverse.map c.toNat.testBit := by
      rw [List.range_succ, List.reverse_append]
      rfl
    rw [crc32Bits, if_pos positive, ih _ _ halved, crc32_pass c crc i (k + 1) mask, first,
      feed_cons]

theorem crc32Bits_byte (c : UInt8) (crc : UInt32) :
    (crc32Bits c crc 0x80).toBitVec = feed poly crc.toBitVec (msbBits c) :=
  crc32Bits_feed c 7 crc 0x80 rfl

/-- `crc32` is the register fed with the bits of its bytes. -/
theorem crc32_feed (data : List UInt8) :
    ∀ crc, (crc32 data crc).toBitVec = feed poly crc.toBitVec (bitsOf data) := by
  induction data with
  | nil => intro crc; rfl
  | cons c rest ih =>
    intro crc
    rw [crc32, ih, crc32Bits_byte, bitsOf_cons, feed_append]

theorem crcUpdateBits_eq (c : UInt8) (crc i : UInt32) :
    crcUpdateBits c crc i = crc32Bits c crc i := by
  fun_induction crcUpdateBits c crc i with
  | case1 crc i positive bit bit' crc' ih =>
    simp only [dite_eq_ite] at ih
    rw [ih, crc32Bits.eq_def c crc i, if_pos positive]
    rfl
  | case2 crc i zero => rw [crc32Bits, if_neg zero]

/-- The boot loader and the sketch core compute one function. -/
theorem crcUpdate_eq (data : List UInt8) : ∀ crc, crcUpdate crc data = crc32 data crc := by
  induction data with
  | nil => intro crc; rfl
  | cons c rest ih =>
    intro crc
    rw [crcUpdate, ih, crcUpdateBits_eq, crc32]

theorem crc32_append (xs ys : List UInt8) :
    ∀ crc, crc32 (xs ++ ys) crc = crc32 ys (crc32 xs crc) := by
  induction xs with
  | nil => intro crc; rfl
  | cons x rest ih => intro crc; exact ih (crc32Bits x crc 0x80)

/-- Consecutive pieces give the CRC of the whole. -/
theorem crc32_pieces (pieces : List (List UInt8)) :
    ∀ crc, pieces.foldl (fun crc piece => crc32 piece crc) crc = crc32 pieces.flatten crc := by
  induction pieces with
  | nil => intro crc; rfl
  | cons piece rest ih =>
    intro crc
    rw [List.foldl_cons, ih, List.flatten_cons, crc32_append]

/-! ## The Python side -/

/-- One pass of the Python loop on an integer below `2 ^ 32` is one move of the register. -/
theorem crc8266Bit_shift (byte : Nat) (crc : BitVec 32) (k : Nat) :
    crc8266Bit byte crc.toNat (2 ^ k) = (shift poly crc (byte.testBit k)).toNat := by
  have moved : (crc.toNat <<< 1) &&& 0xffffffff = (crc <<< 1).toNat := by
    rw [BitVec.toNat_shiftLeft]
    exact Nat.and_two_pow_sub_one_eq_mod _ 32
  have top : crc.toNat &&& 0x80000000 ≠ 0 ↔ crc.msb = true := by
    rw [BitVec.msb_eq_getLsbD_last]
    exact and_two_pow_ne_zero crc.toNat 31
  have added : (crc <<< 1).toNat ^^^ 0x04c11db7 = ((crc <<< 1) ^^^ poly).toNat := by
    rw [BitVec.toNat_xor]
    rfl
  unfold crc8266Bit shift
  simp only [and_two_pow_ne_zero, moved, added]
  by_cases msb : crc.msb = true <;> by_cases bit : byte.testBit k = true <;>
    simp_all

theorem crc8266Byte_feed (byte : Nat) (crc : BitVec 32) :
    crc8266Byte crc.toNat byte =
      (feed poly crc ((List.range 8).reverse.map byte.testBit)).toNat := by
  change [2 ^ 7, 2 ^ 6, 2 ^ 5, 2 ^ 4, 2 ^ 3, 2 ^ 2, 2 ^ 1, 2 ^ 0].foldl (crc8266Bit byte)
    crc.toNat = (feed poly crc ([7, 6, 5, 4, 3, 2, 1, 0].map byte.testBit)).toNat
  simp only [List.foldl_cons, List.foldl_nil, crc8266Bit_shift, List.map_cons, List.map_nil,
    feed_cons, feed_nil]

/-- The build tool's integer is the value of the sketch core's word. -/
theorem crc8266_eq (data : List UInt8) : crc8266 data = (crc32 data 0xffffffff).toNat := by
  have loop : ∀ (data : List UInt8) (crc : BitVec 32),
      data.foldl (fun crc byte => crc8266Byte crc byte.toNat) crc.toNat =
        (feed poly crc (bitsOf data)).toNat := by
    intro data
    induction data with
    | nil => intro crc; rfl
    | cons c rest ih =>
      intro crc
      rw [List.foldl_cons, crc8266Byte_feed, ih, bitsOf_cons, feed_append]
      rfl
  calc
    crc8266 data = (feed poly 0xffffffff#32 (bitsOf data)).toNat := loop data 0xffffffff#32
    _ = (crc32 data 0xffffffff).toNat := congrArg BitVec.toNat (crc32_feed data 0xffffffff).symm

end Esp8266.Source.Crc
