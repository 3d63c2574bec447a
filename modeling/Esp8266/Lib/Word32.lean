import Mathlib.Data.Nat.Bitwise

/-!
# 32-bit words over `Nat`

Unsigned 32-bit arithmetic on natural numbers below `2 ^ 32`, with the lemmas that remove the
reduction where nothing wraps, and the little-endian bytes of a word.
-/
set_option autoImplicit false

namespace Esp8266.Lib.Word32

def add32 (a b : Nat) : Nat := (a + b) % 2 ^ 32

def sub32 (a b : Nat) : Nat := (a + 2 ^ 32 - b) % 2 ^ 32

theorem add32_of_lt {a b : Nat} (h : a + b < 2 ^ 32) : add32 a b = a + b := Nat.mod_eq_of_lt h

theorem sub32_of_le {a b : Nat} (h : b ≤ a) (bound : a < 2 ^ 32) : sub32 a b = a - b := by
  unfold sub32
  omega

theorem sub32_self {a : Nat} (bound : a < 2 ^ 32) : sub32 a a = 0 := by
  rw [sub32_of_le (Nat.le_refl a) bound, Nat.sub_self]

/-- Clearing the low `k` bits of a 32-bit word. -/
theorem and_clear_low (n k : Nat) (bound : n < 2 ^ 32) (small : k ≤ 32) :
    n &&& (2 ^ 32 - 2 ^ k) = n / 2 ^ k * 2 ^ k := by
  have mask : 2 ^ 32 - 2 ^ k = (2 ^ (32 - k) - 1) <<< k := by
    rw [Nat.shiftLeft_eq, Nat.sub_mul, ← Nat.pow_add, Nat.sub_add_cancel small, Nat.one_mul]
  have shifted : n / 2 ^ k * 2 ^ k = (n >>> k) <<< k := by
    rw [Nat.shiftLeft_eq, Nat.shiftRight_eq_div_pow]
  rw [mask, shifted]
  apply Nat.eq_of_testBit_eq
  intro i
  rw [Nat.testBit_and, Nat.testBit_shiftLeft, Nat.testBit_shiftLeft, Nat.testBit_two_pow_sub_one,
    Nat.testBit_shiftRight]
  by_cases low : k ≤ i
  · have place : k + (i - k) = i := by omega
    by_cases high : i < 32
    · have inside : i - k < 32 - k := by omega
      simp [low, place, inside]
    · have clear : n.testBit i = false :=
        Nat.testBit_lt_two_pow (Nat.lt_of_lt_of_le bound (Nat.pow_le_pow_right (by decide)
          (by omega)))
      simp [low, place, clear]
  · simp [low]

/-- The little-endian bytes of a word. -/
def wordBytes (val : Nat) : List UInt8 :=
  [UInt8.ofNat (val &&& 255), UInt8.ofNat ((val >>> 8) &&& 255),
    UInt8.ofNat ((val >>> 16) &&& 255), UInt8.ofNat ((val >>> 24) &&& 255)]

/-- The word that four little-endian bytes make. -/
def wordOf (b0 b1 b2 b3 : UInt8) : Nat :=
  b0.toNat + 2 ^ 8 * b1.toNat + 2 ^ 16 * b2.toNat + 2 ^ 24 * b3.toNat

@[simp] theorem length_wordBytes (val : Nat) : (wordBytes val).length = 4 := rfl

theorem wordOf_lt (b0 b1 b2 b3 : UInt8) : wordOf b0 b1 b2 b3 < 2 ^ 32 := by
  have h0 := b0.toNat_lt
  have h1 := b1.toNat_lt
  have h2 := b2.toNat_lt
  have h3 := b3.toNat_lt
  unfold wordOf
  omega

/-- The bytes of a word make the word again. -/
theorem wordOf_wordBytes {val : Nat} {b0 b1 b2 b3 : UInt8}
    (bytes : wordBytes val = [b0, b1, b2, b3]) : wordOf b0 b1 b2 b3 = val % 2 ^ 32 := by
  have byte : ∀ n, UInt8.toNat (UInt8.ofNat (n &&& 255)) = n % 256 := by
    intro n
    rw [UInt8.toNat_ofNat', show (255 : Nat) = 2 ^ 8 - 1 from rfl,
      Nat.and_two_pow_sub_one_eq_mod]
    simp
  simp only [wordBytes, List.cons.injEq] at bytes
  obtain ⟨rfl, rfl, rfl, rfl, -⟩ := bytes
  simp only [wordOf, byte, Nat.shiftRight_eq_div_pow]
  omega

end Esp8266.Lib.Word32
