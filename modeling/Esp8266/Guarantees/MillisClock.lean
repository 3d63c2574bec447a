import Esp8266.Guarantees.MicrosClock
import Esp8266.Lib.Reciprocal

/-!
# The millisecond clock

`millis` divides by 1000 exactly as long as the overflows of the counter fit into 22 bits, and
none of its sums overflows.
-/
set_option autoImplicit false

namespace Esp8266.Source.Wiring
open Esp8266.Lib.Reciprocal

/-- The halves make the reciprocal of 1000, rounded up. -/
theorem magic_reciprocal :
    (2 ^ 32 * magicHi.toNat + magicLo.toNat) * 1000 = 2 ^ 32 * 2 ^ 32 + 384 := by
  decide

section

variable (m c : UInt32)

theorem toNat_product (magic : UInt64) (small : magic.toNat < 2 ^ 32) :
    (m.toUInt64 * magic).toNat = m.toNat * magic.toNat := by
  have m_lt := m.toNat_lt
  rw [UInt64.toNat_mul, UInt32.toNat_toUInt64, Nat.mod_eq_of_lt]
  calc m.toNat * magic.toNat < 2 ^ 32 * 2 ^ 32 := Nat.mul_lt_mul'' m_lt small
    _ = 2 ^ 64 := rfl

theorem toNat_highWord (q : UInt64) : (q >>> 32).toNat = q.toNat / 2 ^ 32 := by
  rw [UInt64.toNat_shiftRight]
  exact Nat.shiftRight_eq_div_pow _ _

theorem magicLo_toNat : magicLo.toNat = 0x4bc6a7f0 := rfl

theorem magicHi_toNat : magicHi.toNat = 0x00418937 := rfl

theorem accA_exact : (accA m).toNat = m.toNat * magicLo.toNat / 2 ^ 32 := by
  rw [accA, toNat_highWord, toNat_product m magicLo (by decide)]

theorem accB_exact :
    (accB m).toNat = m.toNat * magicLo.toNat / 2 ^ 32 + m.toNat * magicHi.toNat := by
  have m_lt := m.toNat_lt
  rw [accB, UInt64.toNat_add, accA_exact, toNat_product m magicHi (by decide), magicLo_toNat,
    magicHi_toNat]
  omega

variable {c}

theorem accC_exact (few : c.toNat < 2 ^ 22) :
    (accC m c).toNat = m.toNat * magicLo.toNat / 2 ^ 32 + m.toNat * magicHi.toNat +
      c.toNat * magicLo.toNat := by
  have m_lt := m.toNat_lt
  rw [accC, UInt64.toNat_add, accB_exact, toNat_product c magicLo (by decide), magicLo_toNat,
    magicHi_toNat]
  omega

/-- The product of the counter and the reciprocal, without its two low words. -/
theorem millisOf_eq (few : c.toNat < 2 ^ 22) :
    (millisOf m c).toNat = (2 ^ 32 * c.toNat + m.toNat) / 1000 % 2 ^ 32 := by
  have m_lt := m.toNat_lt
  have quotient : (2 ^ 32 * c.toNat + m.toNat) * (2 ^ 32 * magicHi.toNat + magicLo.toNat) /
      (2 ^ 32 * 2 ^ 32) = (2 ^ 32 * c.toNat + m.toNat) / 1000 :=
    mul_div_scale magic_reciprocal (by omega)
  rw [← quotient, mul_words_div (by decide), millisOf, UInt32.toNat_add, UInt64.toNat_toUInt32,
    UInt64.toNat_toUInt32, toNat_highWord, accC_exact m few,
    toNat_product c magicHi (by decide), ← Nat.add_mod]

end

/-- `millis` is the division by 1000, and no partial sum overflows. -/
theorem millis_exact (m c : UInt32) (few : c.toNat < 2 ^ 22) :
    (millisOf m c).toNat = (2 ^ 32 * c.toNat + m.toNat) / 1000 % 2 ^ 32 ∧
      (accA m).toNat = m.toNat * magicLo.toNat / 2 ^ 32 ∧
      (accB m).toNat = m.toNat * magicLo.toNat / 2 ^ 32 + m.toNat * magicHi.toNat ∧
      (accC m c).toNat = m.toNat * magicLo.toNat / 2 ^ 32 + m.toNat * magicHi.toNat +
        c.toNat * magicLo.toNat :=
  ⟨millisOf_eq m few, accA_exact m, accB_exact m, accC_exact m few⟩

/-- An hour and a half: the counter has wrapped once. -/
theorem millis_exact_wrapped : (millisOf 1105032704 1).toNat = 5400000 :=
  (millis_exact 1105032704 1 (by decide)).1

end Esp8266.Source.Wiring
