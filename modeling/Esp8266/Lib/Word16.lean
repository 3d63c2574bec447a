import Mathlib.Data.Nat.Bitwise

/-!
# 16-bit words in network order

A word goes over the wire as its high and its low byte.
-/
set_option autoImplicit false

namespace Esp8266.Lib.Word16

/-- What holds of a byte for each of its two halves holds of every byte. -/
theorem forall_byte {P : UInt8 → Prop}
    (all : ∀ high low : Fin 16, P (UInt8.ofNat (16 * high.val + low.val))) (b : UInt8) : P b := by
  have b_lt := b.toNat_lt
  have this := all ⟨b.toNat / 16, by omega⟩ ⟨b.toNat % 16, by omega⟩
  rwa [Nat.div_add_mod, UInt8.ofNat_toNat] at this

/-- The word of two bytes. -/
def ofBytes (high low : UInt8) : UInt16 := high.toUInt16 <<< 8 ||| low.toUInt16

def highByte (value : UInt16) : UInt8 := (value >>> 8).toUInt8

def lowByte (value : UInt16) : UInt8 := value.toUInt8

theorem toNat_ofBytes (high low : UInt8) :
    (ofBytes high low).toNat = high.toNat * 2 ^ 8 + low.toNat := by
  have low_lt := low.toNat_lt
  have high_lt := high.toNat_lt
  rw [ofBytes, UInt16.toNat_or, UInt16.toNat_shiftLeft, UInt8.toNat_toUInt16,
    UInt8.toNat_toUInt16]
  change (high.toNat <<< 8 % 2 ^ 16) ||| low.toNat = _
  rw [Nat.shiftLeft_eq, Nat.mod_eq_of_lt (by omega), Nat.mul_comm,
    Nat.two_pow_add_eq_or_of_lt low_lt]

theorem toNat_highByte (value : UInt16) : (highByte value).toNat = value.toNat / 2 ^ 8 := by
  have value_lt := value.toNat_lt
  rw [highByte, UInt16.toNat_toUInt8, UInt16.toNat_shiftRight]
  change value.toNat >>> 8 % 2 ^ 8 = _
  rw [Nat.shiftRight_eq_div_pow]
  omega

theorem toNat_lowByte (value : UInt16) : (lowByte value).toNat = value.toNat % 2 ^ 8 :=
  UInt16.toNat_toUInt8 value

@[simp] theorem ofBytes_bytes (value : UInt16) :
    ofBytes (highByte value) (lowByte value) = value := by
  rw [← UInt16.toNat_inj, toNat_ofBytes, toNat_highByte, toNat_lowByte]
  omega

@[simp] theorem highByte_ofBytes (high low : UInt8) : highByte (ofBytes high low) = high := by
  have low_lt := low.toNat_lt
  rw [← UInt8.toNat_inj, toNat_highByte, toNat_ofBytes]
  omega

@[simp] theorem lowByte_ofBytes (high low : UInt8) : lowByte (ofBytes high low) = low := by
  have low_lt := low.toNat_lt
  rw [← UInt8.toNat_inj, toNat_lowByte, toNat_ofBytes]
  omega

theorem ofBytes_inj {high low high' low' : UInt8} :
    ofBytes high low = ofBytes high' low' ↔ high = high' ∧ low = low' := by
  constructor
  · intro same
    have highs := congrArg highByte same
    have lows := congrArg lowByte same
    rw [highByte_ofBytes, highByte_ofBytes] at highs
    rw [lowByte_ofBytes, lowByte_ofBytes] at lows
    exact ⟨highs, lows⟩
  · rintro ⟨rfl, rfl⟩
    rfl

end Esp8266.Lib.Word16
