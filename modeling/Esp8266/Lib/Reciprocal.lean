import Mathlib.Data.Nat.Basic
import Mathlib.Tactic.Ring

/-!
# Division by multiplication

A quotient by a constant is the high part of a product with the reciprocal of the constant, scaled
and rounded up, as long as the rounding does not add up to one. The product of two numbers of two
words each may be taken word by word.
-/
set_option autoImplicit false

namespace Esp8266.Lib.Reciprocal

/-- `k` is the reciprocal of `d`, scaled by `scale`, and too large by `e` parts of `d`. -/
theorem mul_div_scale {d k scale e n : Nat} (reciprocal : k * d = scale + e)
    (exact : n * e < scale) : n * k / scale = n / d := by
  have scale_pos : 0 < scale := Nat.lt_of_le_of_lt (Nat.zero_le _) exact
  have d_pos : 0 < d := by
    rcases Nat.eq_zero_or_pos d with rfl | pos
    · omega
    · exact pos
  have split : d * (n / d) + n % d = n := Nat.div_add_mod n d
  have part : n % d < d := Nat.mod_lt n d_pos
  have product : n * k = scale * (n / d) + (n / d * e + n % d * k) := by
    calc n * k = (d * (n / d) + n % d) * k := by rw [split]
      _ = n / d * (k * d) + n % d * k := by ring
      _ = scale * (n / d) + (n / d * e + n % d * k) := by
        rw [reciprocal]
        ring
  have rest : n / d * e + n % d * k < scale := by
    refine Nat.lt_of_mul_lt_mul_left (a := d) ?_
    calc d * (n / d * e + n % d * k) = d * (n / d) * e + n % d * (k * d) := by ring
      _ = (d * (n / d) + n % d) * e + n % d * scale := by
        rw [reciprocal]
        ring
      _ = n * e + n % d * scale := by rw [split]
      _ < (n % d + 1) * scale := by
        rw [Nat.succ_mul]
        omega
      _ ≤ d * scale := Nat.mul_le_mul_right _ part
  rw [product, Nat.mul_add_div scale_pos, Nat.div_eq_of_lt rest, Nat.add_zero]

/-- The part of a product above two words: only the high word of the lowest partial product
counts. -/
theorem mul_words_div {w : Nat} (positive : 0 < w) (low high kl kh : Nat) :
    (w * high + low) * (w * kh + kl) / (w * w) =
      (low * kl / w + low * kh + high * kl) / w + high * kh := by
  have split : w * (low * kl / w) + low * kl % w = low * kl := Nat.div_add_mod _ w
  have part : low * kl % w < w := Nat.mod_lt _ positive
  have product : (w * high + low) * (w * kh + kl) =
      w * (w * (high * kh) + (low * kl / w + low * kh + high * kl)) + low * kl % w := by
    calc (w * high + low) * (w * kh + kl)
        = w * (w * (high * kh) + (low * kh + high * kl)) + low * kl := by ring
      _ = w * (w * (high * kh) + (low * kh + high * kl)) +
          (w * (low * kl / w) + low * kl % w) := by rw [split]
      _ = _ := by ring
  rw [← Nat.div_div_eq_div_mul, product, Nat.mul_add_div positive, Nat.div_eq_of_lt part,
    Nat.add_zero, Nat.mul_add_div positive, Nat.add_comm]

end Esp8266.Lib.Reciprocal
