import Esp8266.Guarantees.Base64Encoder
import Esp8266.Guarantees.OtaAuthorization

/-!
# Basic authentication

The encoder of libb64 is the standard one with a line feed behind every 72 characters, so that
Basic authentication works for credentials that fit into a line.
-/
set_option autoImplicit false

namespace Esp8266.Source.WebServer
open Esp8266.Lib.Base64 Esp8266.Source.WString

/-! ## The comparison -/

theorem trim_of_no_space {s : WString} (all : ∀ c ∈ s, ¬ IsSpace c) : s.trim = s := by
  have drop : ∀ t : WString, (∀ c ∈ t, ¬ IsSpace c) → (t.dropWhile fun c => IsSpace c) = t := by
    intro t none
    cases t with
    | nil => rfl
    | cons c rest =>
      exact List.dropWhile_cons_of_neg (by simpa using none c List.mem_cons_self)
  show ((s.dropWhile fun c => IsSpace c).reverse.dropWhile fun c => IsSpace c).reverse = s
  rw [drop s all, drop s.reverse fun c mem => all c (List.mem_reverse.mp mem), List.reverse_reverse]

theorem mem_of_mem_trim {s : WString} {c : UInt8} (mem : c ∈ s.trim) : c ∈ s := by
  have back := (List.dropWhile_sublist _).subset (List.mem_reverse.mp mem)
  exact (List.dropWhile_sublist _).subset (List.mem_reverse.mp back)

/-- What the Basic part compares with. -/
theorem authenticate_basic (md5 : List UInt8 → Ota.Digest) (challenge : Challenge)
    (method : HTTPMethod) (username password text : WString) (plain : 0 ∉ text) :
    authenticate md5 challenge method (ofString "Basic " ++ text) username password = true ↔
      0 < (encoded username password).length ∧ text.trim = encoded username password := by
  have six : (6 : Nat) = (ofString "Basic ").length := rfl
  have there : (ofString "Basic " ++ text).length ≠ 0 := by
    rw [List.length_append, ← six]
    omega
  have starts : startsWith (ofString "Basic " ++ text) (ofString "Basic") = true := rfl
  have rest : substring (ofString "Basic " ++ text) 6 (ofString "Basic " ++ text).length = text := by
    rw [six, substring_end, cstr_of_not_mem plain]
  unfold authenticate
  rw [if_neg there, if_pos starts, rest, acceptsBasic, Bool.and_eq_true, decide_eq_true_eq,
    equalsConstantTime_iff fun zero => plain (mem_of_mem_trim zero)]

/-- The whole of what Basic authentication is for: the right text is accepted, no other, and the
buffers are large enough. -/
def BasicExact (username password : WString) : Prop :=
  (∀ (md5 : List UInt8 → Ota.Digest) (challenge : Challenge) (method : HTTPMethod)
    (text : WString), 0 ∉ text →
      (authenticate md5 challenge method (ofString "Basic " ++ text) username password = true ↔
        text.trim = encode (cstr username ++ [0x3a] ++ cstr password))) ∧
    BuffersSuffice username password

/-- Basic authentication computes no MD5 sum. -/
def noDigest : Ota.Digest where
  text := List.replicate 32 0x30
  length_text := rfl
  hex := by
    intro c mem
    rw [List.eq_of_mem_replicate mem]
    exact .inl ⟨by decide, by decide⟩

section
variable {username password : WString}

theorem length_credentials : (credentials username password).length =
    (cstr username).length + (cstr password).length + 1 := by
  simp only [credentials, List.length_append, List.length_cons, List.length_nil]
  omega

theorem encoded_eq (small : (cstr username).length + (cstr password).length + 1 < 2 ^ 8) :
    encoded username password =
      codeFrom (credentials username password) ⟨.stepA, 0, 0, base64CharsPerLine⟩ := by
  rw [encoded, toencodeLen, Nat.mod_eq_of_lt small, List.take_left' length_credentials]
  rfl

/-- The expected length without the line feeds is the length of the standard encoding. -/
theorem expectedLen_eq (n : Nat) : (4 * n / 3 + 3) / 4 * 4 = 4 * ((n + 2) / 3) := by
  obtain ⟨k, rfl | rfl | rfl⟩ : ∃ k, n = 3 * k ∨ n = 3 * k + 1 ∨ n = 3 * k + 2 :=
    ⟨n / 3, by omega⟩
  · omega
  · omega
  · omega

/-- Credentials with the colon of less than 54 bytes. -/
theorem basicExact_of_short (short : (cstr username).length + (cstr password).length + 1 < 54) :
    BasicExact username password := by
  have length : (credentials username password).length =
      (cstr username).length + (cstr password).length + 1 := length_credentials
  have code : encoded username password = encode (credentials username password) := by
    rw [encoded_eq (by omega)]
    exact codeFrom_encode _ 0 0 (by omega)
  have positive : 0 < (encode (credentials username password)).length := by
    rw [length_encode]
    omega
  refine ⟨?_, ?_⟩
  · intro md5 challenge method text plain
    rw [authenticate_basic md5 challenge method username password text plain, code]
    exact and_iff_right positive
  · rw [BuffersSuffice, code, length_encode, toencodeLen, Nat.mod_eq_of_lt (by omega), length,
      base64EncodeExpectedLen, expectedLen_eq]
    exact ⟨Nat.le_refl _, Nat.succ_le_succ (Nat.le_add_right _ _)⟩

/-- **Basic authentication** is exact for just the credentials that fit into a line. -/
theorem basicExact_iff (username password : WString) :
    BasicExact username password ↔
      (cstr username).length + (cstr password).length + 1 < 54 := by
  constructor
  · rintro ⟨exact_, first, -⟩
    by_contra long
    have length : (credentials username password).length =
      (cstr username).length + (cstr password).length + 1 := length_credentials
    have small : (cstr username).length + (cstr password).length + 1 < 2 ^ 8 := by
      by_contra large
      rw [toencodeLen, length] at first
      omega
    have plain : 0 ∉ encode (credentials username password) := by
      intro zero
      rcases mem_encode 0 zero with letter | padded
      · exact absurd letter (by decide)
      · exact absurd padded (by decide)
    have noSpace : ∀ c ∈ encode (credentials username password), ¬ IsSpace c := by
      have letters : ∀ c ∈ alphabet, ¬ IsSpace c := by
        rw [alphabet_ranges]
        decide +kernel
      intro c mem
      rcases mem_encode c mem with letter | rfl
      · exact letters c letter
      · decide
    have accepted := (exact_ (fun _ => noDigest) ⟨[], [], []⟩ .get
      _ plain).mpr (trim_of_no_space noSpace)
    rw [authenticate_basic _ _ _ username password _ plain, trim_of_no_space noSpace,
      encoded_eq small] at accepted
    have lengths := congrArg List.length accepted.2
    rw [length_codeFrom _ 0 0 (by decide), length] at lengths
    omega
  · exact basicExact_of_short

end

/-- A password of fifty bytes for a user of three: the code is broken after 72 characters. -/
theorem basic_long_password :
    let username := ofString "esp"
    let password := List.replicate 50 0x61
    authenticate (fun _ => noDigest) ⟨[], [], []⟩ .get
        (ofString "Basic " ++ encode (cstr username ++ [0x3a] ++ cstr password)) username password =
        false ∧
      ¬ BasicExact username password := by
  refine ⟨by decide, ?_⟩
  rintro ⟨exact_, -⟩
  have accepted := (exact_ (fun _ => noDigest) ⟨[], [], []⟩ .get
    (encode (cstr (ofString "esp") ++ [0x3a] ++ cstr (List.replicate 50 0x61)))
    (by decide)).mpr (by decide)
  exact absurd accepted (by decide)

end Esp8266.Source.WebServer
