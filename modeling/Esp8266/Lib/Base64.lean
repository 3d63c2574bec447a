import Mathlib.Data.List.GetD

/-!
# Base64

The standard encoding with padding and without line breaks: three bytes are four characters of
six bits.
-/
set_option autoImplicit false

namespace Esp8266.Lib.Base64

def alphabet : List UInt8 :=
  "ABCDEFGHIJKLMNOPQRSTUVWXYZabcdefghijklmnopqrstuvwxyz0123456789+/".toList.map fun c =>
    UInt8.ofNat c.toNat

/-- The character for six bits. -/
def char (bits : Nat) : UInt8 := alphabet.getD bits 0

def pad : UInt8 := 0x3d

def encode : List UInt8 → List UInt8
  | [] => []
  | [a] => [char (a.toNat / 4), char (a.toNat % 4 * 16), pad, pad]
  | [a, b] =>
    [char (a.toNat / 4), char (a.toNat % 4 * 16 + b.toNat / 16), char (b.toNat % 16 * 4), pad]
  | a :: b :: c :: rest =>
    char (a.toNat / 4) :: char (a.toNat % 4 * 16 + b.toNat / 16) ::
      char (b.toNat % 16 * 4 + c.toNat / 64) :: char (c.toNat % 64) :: encode rest

/-- The encoding has four characters for each three bytes, and for a rest. -/
theorem length_encode (bytes : List UInt8) :
    (encode bytes).length = 4 * ((bytes.length + 2) / 3) := by
  induction bytes using encode.induct with
  | case1 => rfl
  | case2 a => simp [encode]
  | case3 a b => simp [encode]
  | case4 a b c rest ih =>
    rw [encode]
    simp only [List.length_cons, ih]
    omega

/-- The alphabet as numbers, which is faster to compute with than the string. -/
theorem alphabet_ranges :
    alphabet = (List.range 26).map (fun i => UInt8.ofNat (0x41 + i)) ++
      (List.range 26).map (fun i => UInt8.ofNat (0x61 + i)) ++
      (List.range 10).map (fun i => UInt8.ofNat (0x30 + i)) ++ [0x2b, 0x2f] := by
  refine (congrArg (List.map _) String.toList_ofList).trans ?_
  decide

theorem length_alphabet : alphabet.length = 64 := by
  rw [alphabet_ranges]
  rfl

theorem char_mem {bits : Nat} (small : bits < 64) : char bits ∈ alphabet := by
  rw [char, List.getD_eq_getElem _ _ (length_alphabet.symm ▸ small)]
  exact List.getElem_mem _

/-- The encoding uses the alphabet and the pad only. -/
theorem mem_encode {bytes : List UInt8} : ∀ c ∈ encode bytes, c ∈ alphabet ∨ c = pad := by
  induction bytes using encode.induct with
  | case1 =>
    intro c mem
    cases mem
  | case2 a =>
    intro c mem
    have a_lt := a.toNat_lt
    simp only [encode, List.mem_cons, List.not_mem_nil, or_false] at mem
    rcases mem with rfl | rfl | rfl | rfl
    · exact .inl (char_mem (by omega))
    · exact .inl (char_mem (by omega))
    · exact .inr rfl
    · exact .inr rfl
  | case3 a b =>
    intro c mem
    have a_lt := a.toNat_lt
    have b_lt := b.toNat_lt
    simp only [encode, List.mem_cons, List.not_mem_nil, or_false] at mem
    rcases mem with rfl | rfl | rfl | rfl
    · exact .inl (char_mem (by omega))
    · exact .inl (char_mem (by omega))
    · exact .inl (char_mem (by omega))
    · exact .inr rfl
  | case4 a b c rest ih =>
    intro d mem
    have a_lt := a.toNat_lt
    have b_lt := b.toNat_lt
    have c_lt := c.toNat_lt
    simp only [encode, List.mem_cons] at mem
    rcases mem with rfl | rfl | rfl | rfl | later
    · exact .inl (char_mem (by omega))
    · exact .inl (char_mem (by omega))
    · exact .inl (char_mem (by omega))
    · exact .inl (char_mem (by omega))
    · exact ih d later

end Esp8266.Lib.Base64
