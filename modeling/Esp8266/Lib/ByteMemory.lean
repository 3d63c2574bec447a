import Mathlib.Data.Nat.Bitwise

/-!
# Byte memory

A memory of bytes that a program reads and writes in half words and moves in ranges. Each operation
is described by what it leaves at the addresses inside and outside of the range it is given.
-/
set_option autoImplicit false

namespace Esp8266.Lib.ByteMemory

/-- The byte at each address. -/
structure Ram where
  byte : Nat → UInt8

/-- The little-endian word of 16 bits at an address. -/
def half (m : Ram) (a : Nat) : Nat := (m.byte a).toNat + 2 ^ 8 * (m.byte (a + 1)).toNat

/-- Store the low 16 bits of a value. -/
def setHalf (a value : Nat) (m : Ram) : Ram where
  byte x :=
    if x = a then UInt8.ofNat value
    else if x = a + 1 then UInt8.ofNat (value / 2 ^ 8)
    else m.byte x

/-- `memset`. -/
def fill (base len : Nat) (byte : UInt8) (m : Ram) : Ram where
  byte x := if base ≤ x ∧ x < base + len then byte else m.byte x

/-- `memmove`, and `memcpy` where the ranges are apart. -/
def move (dst src len : Nat) (m : Ram) : Ram where
  byte x := if dst ≤ x ∧ x < dst + len then m.byte (src + (x - dst)) else m.byte x

/-- `len` bytes from `base` on. -/
def slice (m : Ram) (base len : Nat) : List UInt8 := (List.range len).map fun i => m.byte (base + i)

theorem half_lt (m : Ram) (a : Nat) : half m a < 2 ^ 16 := by
  have low := (m.byte a).toNat_lt
  have high := (m.byte (a + 1)).toNat_lt
  unfold half
  omega

theorem half_congr {m m' : Ram} {a : Nat} (low : m'.byte a = m.byte a)
    (high : m'.byte (a + 1) = m.byte (a + 1)) :
    half m' a = half m a := by
  rw [half, half, low, high]

theorem half_setHalf (a value : Nat) (m : Ram) :
    half (setHalf a value m) a = value % 2 ^ 16 := by
  have next : a + 1 ≠ a := by omega
  simp only [half, setHalf, if_true, if_neg next, UInt8.toNat_ofNat']
  omega

theorem setHalf_outside {a x : Nat} (value : Nat) (m : Ram) (outside : x < a ∨ a + 2 ≤ x) :
    (setHalf a value m).byte x = m.byte x := by
  dsimp only [setHalf]
  rw [if_neg (by omega), if_neg (by omega)]

theorem half_setHalf_other {a b : Nat} (value : Nat) (m : Ram) (apart : b + 2 ≤ a ∨ a + 2 ≤ b) :
    half (setHalf a value m) b = half m b :=
  half_congr (setHalf_outside value m (by omega)) (setHalf_outside value m (by omega))

theorem fill_inside {base len x : Nat} (byte : UInt8) (m : Ram)
    (inside : base ≤ x ∧ x < base + len) : (fill base len byte m).byte x = byte := if_pos inside

theorem fill_outside {base len x : Nat} (byte : UInt8) (m : Ram)
    (outside : x < base ∨ base + len ≤ x) : (fill base len byte m).byte x = m.byte x := if_neg (by omega)

theorem move_inside {dst src len x : Nat} (m : Ram) (inside : dst ≤ x ∧ x < dst + len) :
    (move dst src len m).byte x = m.byte (src + (x - dst)) := if_pos inside

theorem move_outside {dst src len x : Nat} (m : Ram) (outside : x < dst ∨ dst + len ≤ x) :
    (move dst src len m).byte x = m.byte x := if_neg (by omega)

@[simp] theorem length_slice (m : Ram) (base len : Nat) : (slice m base len).length = len := by
  simp [slice]

theorem slice_congr {m m' : Ram} {base base' len : Nat}
    (same : ∀ i < len, m'.byte (base' + i) = m.byte (base + i)) : slice m' base' len = slice m base len :=
  List.map_congr_left fun i member => same i (List.mem_range.1 member)

theorem slice_fill {m : Ram} (base len : Nat) (byte : UInt8) :
    slice (fill base len byte m) base len = List.replicate len byte := by
  refine List.eq_replicate_iff.2 ⟨length_slice _ _ _, fun b member => ?_⟩
  obtain ⟨i, inside, rfl⟩ := List.mem_map.1 member
  exact fill_inside byte m ⟨Nat.le_add_right _ _, Nat.add_lt_add_left (List.mem_range.1 inside) _⟩

theorem take_slice (m : Ram) (base n len : Nat) :
    (slice m base len).take n = slice m base (min n len) := by
  rw [slice, ← List.map_take, List.take_range, slice]

end Esp8266.Lib.ByteMemory
