import Esp8266.Source.QueryString

/-!
# `urlDecode` inverts percent-encoding

Each byte may be written as an escape with digits in either case, a space as a plus sign, and
what is neither `%` nor `+` as itself.
-/
set_option autoImplicit false

namespace Esp8266.Source.QueryString
open Esp8266.Source.WString

/-- A hexadecimal digit, in one of its cases. -/
def IsHexDigit (n : Nat) (c : UInt8) : Prop :=
  n < 16 ∧ (c = (ofString "0123456789abcdef").getD n 0 ∨ c = (ofString "0123456789ABCDEF").getD n 0)

/-- The text is an encoding of the bytes. -/
inductive Encodes : List UInt8 → List UInt8 → Prop
  | nil : Encodes [] []
  | escape {b high low : UInt8} {bytes text : List UInt8} (first : IsHexDigit (b.toNat / 16) high)
      (second : IsHexDigit (b.toNat % 16) low) (rest : Encodes bytes text) :
      Encodes (b :: bytes) (0x25 :: high :: low :: text)
  | space {bytes text : List UInt8} (rest : Encodes bytes text) :
      Encodes (0x20 :: bytes) (0x2b :: text)
  | literal {b : UInt8} {bytes text : List UInt8} (notPercent : b ≠ 0x25) (notPlus : b ≠ 0x2b)
      (rest : Encodes bytes text) : Encodes (b :: bytes) (b :: text)

theorem hexDigit?_eq {n : Nat} {c : UInt8} (digit : IsHexDigit n c) :
    hexDigit? c = some (UInt8.ofNat n) := by
  have digits : ∀ n : Fin 16,
      hexDigit? ((ofString "0123456789abcdef").getD n 0) = some (UInt8.ofNat n) ∧
        hexDigit? ((ofString "0123456789ABCDEF").getD n 0) = some (UInt8.ofNat n) := by
    decide
  obtain ⟨bound, rfl | rfl⟩ := digit
  · exact (digits ⟨n, bound⟩).1
  · exact (digits ⟨n, bound⟩).2

/-- The two digits of a byte. -/
theorem hexByte_eq {b high low : UInt8} (first : IsHexDigit (b.toNat / 16) high)
    (second : IsHexDigit (b.toNat % 16) low) : hexByte high low = b := by
  have bound := b.toNat_lt
  rw [hexByte, hexDigit?_eq first, hexDigit?_eq second]
  apply UInt8.toNat_inj.mp
  simp only [UInt8.toNat_add, UInt8.toNat_mul, UInt8.toNat_ofNat']
  have sixteen : (16 : UInt8).toNat = 16 := rfl
  rw [sixteen]
  omega

theorem urlDecode_literal {b : UInt8} (notPercent : b ≠ 0x25) (notPlus : b ≠ 0x2b)
    (rest : List UInt8) : urlDecode (b :: rest) = b :: urlDecode rest := by
  rw [urlDecode]
  · intro high low tail percent
    exact absurd percent notPercent
  · exact notPlus

/-- An encoding is decoded to what it encodes. -/
theorem urlDecode_encodes {bytes text : List UInt8} (encodes : Encodes bytes text) :
    urlDecode text = bytes := by
  induction encodes with
  | nil => rfl
  | escape first second rest ih => rw [urlDecode, hexByte_eq first second, ih]
  | space rest ih => rw [urlDecode, ih]
  | literal notPercent notPlus rest ih => rw [urlDecode_literal notPercent notPlus, ih]

/-- Decoding makes nothing longer. -/
theorem length_urlDecode_le (text : List UInt8) : (urlDecode text).length ≤ text.length := by
  induction text using urlDecode.induct with
  | case1 => exact Nat.le_refl _
  | case2 high low rest ih =>
    rw [urlDecode]
    simp only [List.length_cons]
    omega
  | case3 rest ih =>
    rw [urlDecode]
    exact Nat.succ_le_succ ih
  | case4 c rest noEscape notPlus ih =>
    rw [urlDecode]
    · exact Nat.succ_le_succ ih
    · exact noEscape
    · exact notPlus

/-- **`urlDecode` inverts percent-encoding**, and makes no text longer. -/
theorem url_decoded :
    (∀ bytes text, Encodes bytes text → urlDecode text = bytes) ∧
      ∀ text, (urlDecode text).length ≤ text.length :=
  ⟨fun _ _ => urlDecode_encodes, length_urlDecode_le⟩

/-- An escape, a plus sign and a literal. -/
theorem url_decoded_three : urlDecode [0x25, 0x63, 0x33, 0x2b, 0x61] = [0xc3, 0x20, 0x61] :=
  url_decoded.1 _ _ (.escape ⟨by decide, .inl rfl⟩ ⟨by decide, .inl rfl⟩
    (.space (.literal (by decide) (by decide) .nil)))

end Esp8266.Source.QueryString
