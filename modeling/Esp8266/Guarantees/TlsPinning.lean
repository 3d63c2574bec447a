import Esp8266.Lib.Hexadecimal
import Esp8266.Source.TlsPolicy
import Mathlib.Data.List.TakeWhile

/-!
# Pinning

Every setting clears the members of the others, so that the next handshake gets the validator of
the last setting that was accepted. The validator without a chain of trust looks at the first
certificate only, in whatever pieces it is delivered.
-/
set_option autoImplicit false

namespace Esp8266.Source
open Esp8266.Lib.Hexadecimal

/-! ## The text of a fingerprint -/

/-- The text of a byte: its two digits, and spaces and colons. -/
structure FingerprintPair where
  value : UInt8
  high : UInt8
  low : UInt8
  separators : List UInt8
  high_digit : IsDigitOf high (value.toNat / 16)
  low_digit : IsDigitOf low (value.toNat % 16)
  separated : ∀ s ∈ separators, s = 0x20 ∨ s = 0x3a

def FingerprintPair.text (pair : FingerprintPair) : List UInt8 :=
  pair.high :: pair.low :: pair.separators

/-- The text is exactly twenty pairs, and they are the bytes of the fingerprint. -/
def FingerprintText (text : List UInt8) (fingerprint : HashOutput 20) : Prop :=
  ∃ pairs : List FingerprintPair, pairs.length = 20 ∧
    text = pairs.flatMap FingerprintPair.text ∧
    fingerprint.val = pairs.map FingerprintPair.value

namespace TlsClient
variable {T S : Type}

theorem htoi_digits : ∀ d < 16,
    htoi (digit d) = UInt8.ofNat d ∧ htoi (capitalDigit d) = UInt8.ofNat d := by
  decide

theorem htoi_isDigitOf {c : UInt8} {d : Nat} (digit : IsDigitOf c d) : htoi c = UInt8.ofNat d := by
  obtain ⟨small, rfl | rfl⟩ := digit
  · exact (htoi_digits d small).1
  · exact (htoi_digits d small).2

set_option maxRecDepth 4000 in
theorem htoi_ofNat : ∀ n < 256, htoi (UInt8.ofNat n) ≤ 15 →
    (htoi (UInt8.ofNat n)).toNat < 16 ∧
      (UInt8.ofNat n = digit (htoi (UInt8.ofNat n)).toNat ∨
        UInt8.ofNat n = capitalDigit (htoi (UInt8.ofNat n)).toNat) := by
  decide

theorem isDigitOf_htoi {c : UInt8} (small : ¬15 < htoi c) : IsDigitOf c (htoi c).toNat := by
  have accepted := htoi_ofNat c.toNat c.toNat_lt
  rw [UInt8.ofNat_toNat] at accepted
  exact accepted (UInt8.not_lt.1 small)

/-- `c << 4 | d` of two digits. -/
theorem toNat_nibbles : ∀ a < 16, ∀ b < 16,
    (UInt8.ofNat a <<< 4 ||| UInt8.ofNat b).toNat = 16 * a + b := by
  decide

theorem digit_not_small : ∀ d < 16, ¬15 < UInt8.ofNat d := by
  decide

/-- No digit is a separator. -/
theorem not_separator_of_isDigitOf {c : UInt8} {d : Nat} (digit : IsDigitOf c d) :
    ¬(c = 0x20 ∨ c = 0x3a) := by
  have value := htoi_isDigitOf digit
  have small := digit_not_small d digit.1
  rw [← value] at small
  rintro (rfl | rfl)
  · exact small (by decide)
  · exact small (by decide)

theorem dropWhile_separators {separators rest : List UInt8}
    (separated : ∀ s ∈ separators, s = 0x20 ∨ s = 0x3a)
    (other : ∀ s ∈ rest.head?, ¬(s = 0x20 ∨ s = 0x3a)) :
    (separators ++ rest).dropWhile (fun s => s = 0x20 ∨ s = 0x3a) = rest := by
  induction separators with
  | nil =>
    cases rest with
    | nil => rfl
    | cons s tail =>
      rw [List.nil_append, List.dropWhile_cons_of_neg]
      simpa using other s rfl
  | cons s tail ih =>
    rw [List.cons_append, List.dropWhile_cons_of_pos (by simpa using separated s (by simp))]
    exact ih fun t mem => separated t (List.mem_cons_of_mem _ mem)

/-- The loop reads pairs back. -/
theorem fingerprintLoop_pairs (pairs : List FingerprintPair) (fp : List UInt8) :
    fingerprintLoop pairs.length (pairs.flatMap FingerprintPair.text) fp =
      some (fp ++ pairs.map FingerprintPair.value, []) := by
  induction pairs generalizing fp with
  | nil => rw [List.map_nil, List.append_nil]; rfl
  | cons pair rest ih =>
    have high := htoi_isDigitOf pair.high_digit
    have low := htoi_isDigitOf pair.low_digit
    have value : htoi pair.high <<< 4 ||| htoi pair.low = pair.value := by
      apply UInt8.toNat_inj.1
      rw [high, low, toNat_nibbles _ pair.high_digit.1 _ pair.low_digit.1]
      exact Nat.div_add_mod pair.value.toNat 16
    have digits : ¬(15 < htoi pair.high ∨ 15 < htoi pair.low) := by
      rw [high, low]
      exact not_or.2 ⟨digit_not_small _ pair.high_digit.1, digit_not_small _ pair.low_digit.1⟩
    have other : ∀ s ∈ (rest.flatMap FingerprintPair.text).head?, ¬(s = 0x20 ∨ s = 0x3a) := by
      cases rest with
      | nil => simp
      | cons next tail =>
        intro s mem
        obtain rfl : next.high = s := by simpa [FingerprintPair.text] using mem
        exact not_separator_of_isDigitOf next.high_digit
    rw [List.flatMap_cons, FingerprintPair.text, List.length_cons, List.cons_append,
      List.cons_append, fingerprintLoop, if_neg digits,
      dropWhile_separators pair.separated other, ih, value, List.append_assoc]
    rfl

/-- What the loop has read to the end of the text is pairs. -/
theorem pairs_of_fingerprintLoop {left : Nat} {text fp bytes : List UInt8}
    (read : fingerprintLoop left text fp = some (bytes, []))
    (complete : bytes.length = fp.length + left) :
    ∃ pairs : List FingerprintPair, pairs.length = left ∧
      text = pairs.flatMap FingerprintPair.text ∧
      bytes = fp ++ pairs.map FingerprintPair.value := by
  induction left, text, fp using fingerprintLoop.induct with
  | case1 text fp =>
    rw [fingerprintLoop, Option.some.injEq, Prod.mk.injEq] at read
    exact ⟨[], rfl, read.2, by rw [List.map_nil, List.append_nil]; exact read.1.symm⟩
  | case2 left fp =>
    rw [fingerprintLoop, Option.some.injEq, Prod.mk.injEq] at read
    rw [← read.1] at complete
    omega
  | case3 left single fp =>
    rw [fingerprintLoop] at read
    cases read
  | case4 left c d text fp hc hd invalid =>
    rw [fingerprintLoop, if_pos invalid] at read
    cases read
  | case5 left c d text fp hc hd valid ih =>
    rw [fingerprintLoop, if_neg valid] at read
    obtain ⟨pairs, count, rest, values⟩ := ih read (by
      rw [complete, List.length_append, List.length_singleton]
      omega)
    have highDigit := isDigitOf_htoi (not_or.1 valid).1
    have lowDigit := isDigitOf_htoi (not_or.1 valid).2
    have value : (hc <<< 4 ||| hd).toNat = 16 * hc.toNat + hd.toNat := by
      have nibbles := toNat_nibbles _ highDigit.1 _ lowDigit.1
      rwa [UInt8.ofNat_toNat, UInt8.ofNat_toNat] at nibbles
    have small : hd.toNat < 16 := lowDigit.1
    let pair : FingerprintPair :=
      { value := hc <<< 4 ||| hd
        high := c
        low := d
        separators := text.takeWhile fun s => s = 0x20 ∨ s = 0x3a
        high_digit := by
          rw [value, show (16 * hc.toNat + hd.toNat) / 16 = hc.toNat by omega]
          exact highDigit
        low_digit := by
          rw [value, show (16 * hc.toNat + hd.toNat) % 16 = hd.toNat by omega]
          exact lowDigit
        separated := by
          intro s mem
          simpa using List.mem_takeWhile_imp mem }
    refine ⟨pair :: pairs, by rw [List.length_cons, count], ?_, ?_⟩
    · rw [List.flatMap_cons, ← rest, FingerprintPair.text, List.cons_append, List.cons_append,
        List.takeWhile_append_dropWhile]
    · rw [values, List.map_cons, List.append_assoc]
      rfl

theorem setFingerprintText_of_text {fpStr : WString} {fingerprint : HashOutput 20}
    (text : FingerprintText fpStr.cstr fingerprint) (c : TlsClient T S) :
    c.setFingerprintText fpStr = c.setFingerprint fingerprint := by
  obtain ⟨pairs, count, same, values⟩ := text
  have read := fingerprintLoop_pairs pairs []
  rw [count, ← same, List.nil_append, ← values] at read
  rw [setFingerprintText, read]
  dsimp only
  rw [dif_pos ⟨fingerprint.property, rfl⟩]
  rfl

/-- A text is accepted, or it is not that of a fingerprint and nothing changes. -/
theorem setFingerprintText_cases (fpStr : WString) (c : TlsClient T S) :
    (∃ fingerprint, FingerprintText fpStr.cstr fingerprint ∧
      c.setFingerprintText fpStr = c.setFingerprint fingerprint) ∨
    c.setFingerprintText fpStr = (false, c) := by
  unfold setFingerprintText
  split
  · exact Or.inr rfl
  · next fp text read =>
    split
    · next complete =>
      rw [complete.2] at read
      obtain ⟨pairs, count, same, values⟩ := pairs_of_fingerprintLoop read complete.1
      exact Or.inl ⟨⟨fp, complete.1⟩, ⟨pairs, count, same, values⟩, rfl⟩
    · exact Or.inr rfl

theorem setFingerprintText_accepts_iff (fpStr : WString) (c : TlsClient T S) :
    (c.setFingerprintText fpStr).1 = true ↔
      ∃ fingerprint, FingerprintText fpStr.cstr fingerprint := by
  constructor
  · intro accepted
    rcases setFingerprintText_cases fpStr c with ⟨fingerprint, text, _⟩ | refused
    · exact ⟨fingerprint, text⟩
    · rw [refused] at accepted
      cases accepted
  · rintro ⟨fingerprint, text⟩
    rw [setFingerprintText_of_text text]
    rfl

end TlsClient

/-! ## The last setting -/

/-- What a setting asks for. -/
inductive TlsPolicy (T : Type) where
  | unset
  | insecure
  | fingerprint (fingerprint : HashOutput 20)
  | selfSigned
  | knownKey (pk : Option PublicKey) (usages : UInt32)
  | trustAnchors (ta : Option (List T))

namespace TlsPolicy
variable {T S : Type}

/-- Without trust anchors no chain is trusted; a null key is no key. -/
def minimal (basic : Bool) (ta : Option (List T)) (c : TlsClient T S) : Validator T S :=
  .minimal (ta.getD []) (!basic)
    (if c.now = 0 then none else some (c.now / 86400 + 719528, c.now % 86400)) c.certStore

/-- The validator of a policy; the minimal profile has none for an elliptic curve. -/
def validator (basic : Bool) (c : TlsClient T S) : TlsPolicy T → Option (Validator T S)
  | unset => some (minimal basic none c)
  | insecure => some (.insecure none false)
  | fingerprint fp => some (.insecure (some fp) false)
  | selfSigned => some (.insecure none true)
  | knownKey (some (.ec key)) usages => if basic then none else some (.knownkey (.ec key) usages)
  | knownKey (some (.rsa key)) usages => some (.knownkey (.rsa key) usages)
  | knownKey (some .empty) _ => some (.knownkey .empty 0)
  | knownKey none _ => some (minimal basic none c)
  | trustAnchors ta => some (minimal basic ta c)

theorem validator_congr {c c' : TlsClient T S} (now : c'.now = c.now)
    (certStore : c'.certStore = c.certStore) (policy : TlsPolicy T) (basic : Bool) :
    policy.validator basic c' = policy.validator basic c := by
  unfold validator minimal
  rw [now, certStore]

/-- The members of a client say the policy. -/
def Stands (c : TlsClient T S) : TlsPolicy T → Prop
  | unset => c.useInsecure = false ∧ c.useFingerprint = false ∧ c.useSelfSigned = false ∧
      c.knownkey = none ∧ c.ta = none
  | insecure => c.useInsecure = true ∧ c.useFingerprint = false ∧ c.useSelfSigned = false
  | fingerprint fp => c.useFingerprint = true ∧ c.fingerprint = fp ∧ c.useSelfSigned = false
  | selfSigned => c.useFingerprint = false ∧ c.useSelfSigned = true
  | knownKey pk usages => c.useInsecure = false ∧ c.useFingerprint = false ∧
      c.useSelfSigned = false ∧ c.knownkey = pk ∧ c.knownkeyUsages = usages ∧ c.ta = none
  | trustAnchors ta => c.useInsecure = false ∧ c.useFingerprint = false ∧
      c.useSelfSigned = false ∧ c.knownkey = none ∧ c.ta = ta

end TlsPolicy

namespace TlsCall
variable {T S : Type}

/-- The calls that set a policy. -/
def isSetting : TlsCall T S → Bool
  | setInsecure | setFingerprint _ | setFingerprintText _ | allowSelfSignedCerts
  | setKnownKey _ _ | setTrustAnchors _ => true
  | setX509Time _ | setCertStore _ | setClientCert _ | connectSSL _ => false

/-- The policy of a setting, and of a client without one. -/
inductive Asks : Option (TlsCall T S) → TlsPolicy T → Prop where
  | unset : Asks none .unset
  | setInsecure : Asks (some setInsecure) .insecure
  | setFingerprint (fingerprint : HashOutput 20) :
    Asks (some (setFingerprint fingerprint)) (.fingerprint fingerprint)
  | setFingerprintText {fpStr : WString} {fingerprint : HashOutput 20}
    (text : FingerprintText fpStr.cstr fingerprint) :
    Asks (some (setFingerprintText fpStr)) (.fingerprint fingerprint)
  | allowSelfSignedCerts : Asks (some allowSelfSignedCerts) .selfSigned
  | setKnownKey (pk : Option PublicKey) (usages : UInt32) :
    Asks (some (setKnownKey pk usages)) (.knownKey pk usages)
  | setTrustAnchors (ta : Option (List T)) : Asks (some (setTrustAnchors ta)) (.trustAnchors ta)

end TlsCall

namespace TlsClient
variable {T S : Type}

/-- The client after some calls, and the last of the settings that did not return false. -/
def run (basic : Bool) : List (TlsCall T S) → Option (TlsCall T S) → TlsClient T S →
    Option (TlsCall T S) × TlsClient T S
  | [], last, c => (last, c)
  | call :: rest, last, c =>
    run basic rest (if call.isSetting ∧ (c.call basic call).1 then some call else last)
      (c.call basic call).2

/-- The members that choose the validator are the same. -/
structure SamePolicy (c c' : TlsClient T S) : Prop where
  useInsecure : c'.useInsecure = c.useInsecure
  useFingerprint : c'.useFingerprint = c.useFingerprint
  fingerprint : c'.fingerprint = c.fingerprint
  useSelfSigned : c'.useSelfSigned = c.useSelfSigned
  knownkey : c'.knownkey = c.knownkey
  knownkeyUsages : c'.knownkeyUsages = c.knownkeyUsages
  ta : c'.ta = c.ta

theorem SamePolicy.stands {c c' : TlsClient T S} (same : SamePolicy c c') {policy : TlsPolicy T}
    (stands : policy.Stands c) : policy.Stands c' := by
  cases policy <;>
    simpa only [TlsPolicy.Stands, same.useInsecure, same.useFingerprint, same.fingerprint,
      same.useSelfSigned, same.knownkey, same.knownkeyUsages, same.ta] using stands

/-- An installation changes the context only. -/
theorem installClientX509Validator_members (basic allocated : Bool) (c : TlsClient T S) :
    ∃ x509, (c.installClientX509Validator basic allocated).2 = { c with x509 := x509 } := by
  unfold installClientX509Validator
  split
  · split
    · exact ⟨c.x509, rfl⟩
    · exact ⟨_, rfl⟩
  · split
    · split
      · exact ⟨c.x509, rfl⟩
      · split
        · split
          · exact ⟨c.x509, rfl⟩
          · exact ⟨_, rfl⟩
        · exact ⟨_, rfl⟩
        · exact ⟨_, rfl⟩
    · split
      · exact ⟨c.x509, rfl⟩
      · exact ⟨_, rfl⟩

theorem installClientX509Validator_unallocated (basic : Bool) (c : TlsClient T S) :
    (c.installClientX509Validator basic false).1 = false := by
  unfold installClientX509Validator
  repeat' split
  all_goals first | rfl | contradiction

/-- A client with the members of a policy installs its validator. -/
theorem installClientX509Validator_stands {policy : TlsPolicy T} {c : TlsClient T S}
    (stands : policy.Stands c) (basic : Bool) :
    (c.installClientX509Validator basic true).1 = (policy.validator basic c).isSome ∧
      (c.installClientX509Validator basic true).2.x509 =
        (policy.validator basic c).or c.x509 := by
  cases policy with
  | unset =>
    obtain ⟨insecure, fp, selfSigned, key, ta⟩ := stands
    simp [installClientX509Validator, TlsPolicy.validator, TlsPolicy.minimal, *]
  | insecure =>
    obtain ⟨insecure, fp, selfSigned⟩ := stands
    simp [installClientX509Validator, TlsPolicy.validator, *]
  | fingerprint fingerprint =>
    obtain ⟨fp, value, selfSigned⟩ := stands
    simp [installClientX509Validator, TlsPolicy.validator, *]
  | selfSigned =>
    obtain ⟨fp, selfSigned⟩ := stands
    simp [installClientX509Validator, TlsPolicy.validator, *]
  | knownKey pk usages =>
    obtain ⟨insecure, fp, selfSigned, key, value, ta⟩ := stands
    rcases pk with _ | (rsa | ec | _) <;> cases basic <;>
      simp [installClientX509Validator, TlsPolicy.validator, TlsPolicy.minimal, *]
  | trustAnchors anchors =>
    obtain ⟨insecure, fp, selfSigned, key, ta⟩ := stands
    simp [installClientX509Validator, TlsPolicy.validator, TlsPolicy.minimal, *]

/-- An attempt to connect leaves the policy. -/
theorem connectSSL_samePolicy (basic : Bool) (attempt : TlsAttempt) (c : TlsClient T S) :
    SamePolicy c (c.connectSSL basic attempt).2.2 := by
  obtain ⟨x509, installed⟩ := installClientX509Validator_members basic attempt.validatorAllocated
    { c.freeSSL with oomErr := false }
  unfold connectSSL
  dsimp only
  rw [installed]
  repeat' split
  all_goals exact ⟨rfl, rfl, rfl, rfl, rfl, rfl, rfl⟩

/-- The handshake is made with the validator of the policy. -/
theorem connectSSL_installs {policy : TlsPolicy T} {c : TlsClient T S} (stands : policy.Stands c)
    (basic : Bool) (attempt : TlsAttempt) :
    (c.connectSSL basic attempt).1 =
      if attempt.buffersAllocated ∧ attempt.validatorAllocated then policy.validator basic c
      else none := by
  let c' : TlsClient T S := { c.freeSSL with oomErr := false }
  have stands' : policy.Stands c' := SamePolicy.stands ⟨rfl, rfl, rfl, rfl, rfl, rfl, rfl⟩ stands
  have validator : policy.validator basic c' = policy.validator basic c :=
    TlsPolicy.validator_congr rfl rfl policy basic
  unfold connectSSL
  dsimp only
  cases attempt.buffersAllocated with
  | false => rfl
  | true =>
    cases attempt.validatorAllocated with
    | false =>
      change (if !(c'.installClientX509Validator basic false).1 then _ else _ : Option _ × _).1 = _
      rw [installClientX509Validator_unallocated]
      rfl
    | true =>
      obtain ⟨installed, context⟩ := installClientX509Validator_stands stands' basic
      rw [validator] at installed context
      change (if !(c'.installClientX509Validator basic true).1 then _ else _ : Option _ × _).1 = _
      rw [installed]
      cases known : policy.validator basic c with
      | none => rfl
      | some v =>
        rw [known] at context
        refine Eq.trans ?_ (Eq.symm (if_pos ⟨rfl, rfl⟩))
        refine Eq.trans ?_ context
        rw [Option.isSome_some, if_neg (by decide)]
        repeat' split
        all_goals rfl

/-- One call: a setting that is accepted replaces the policy, every other call leaves it. -/
theorem call_policy {last : Option (TlsCall T S)} {policy : TlsPolicy T} {c : TlsClient T S}
    (asks : TlsCall.Asks last policy) (stands : policy.Stands c) (basic : Bool)
    (call : TlsCall T S) :
    ∃ policy', TlsCall.Asks
        (if call.isSetting ∧ (c.call basic call).1 then some call else last) policy' ∧
      policy'.Stands (c.call basic call).2 := by
  cases call with
  | setInsecure => exact ⟨.insecure, .setInsecure, rfl, rfl, rfl⟩
  | setFingerprint fingerprint =>
    exact ⟨.fingerprint fingerprint, .setFingerprint fingerprint, rfl, rfl, rfl⟩
  | setFingerprintText fpStr =>
    rcases setFingerprintText_cases fpStr c with ⟨fingerprint, text, same⟩ | refused
    · rw [TlsClient.call, same]
      exact ⟨.fingerprint fingerprint, .setFingerprintText text, rfl, rfl, rfl⟩
    · rw [TlsClient.call, refused]
      exact ⟨policy, asks, stands⟩
  | allowSelfSignedCerts => exact ⟨.selfSigned, .allowSelfSignedCerts, rfl, rfl⟩
  | setKnownKey pk usages =>
    exact ⟨.knownKey pk usages, .setKnownKey pk usages, rfl, rfl, rfl, rfl, rfl, rfl⟩
  | setTrustAnchors ta => exact ⟨.trustAnchors ta, .setTrustAnchors ta, rfl, rfl, rfl, rfl, rfl⟩
  | setX509Time now =>
    exact ⟨policy, asks, SamePolicy.stands ⟨rfl, rfl, rfl, rfl, rfl, rfl, rfl⟩ stands⟩
  | setCertStore certStore =>
    exact ⟨policy, asks, SamePolicy.stands ⟨rfl, rfl, rfl, rfl, rfl, rfl, rfl⟩ stands⟩
  | setClientCert sk =>
    exact ⟨policy, asks, SamePolicy.stands ⟨rfl, rfl, rfl, rfl, rfl, rfl, rfl⟩ stands⟩
  | connectSSL attempt =>
    exact ⟨policy, asks, (connectSSL_samePolicy basic attempt c).stands stands⟩

/-- A run: the policy is that of the last setting that was accepted. -/
theorem run_policy (basic : Bool) (calls : List (TlsCall T S)) {last : Option (TlsCall T S)}
    {policy : TlsPolicy T} {c : TlsClient T S} (asks : TlsCall.Asks last policy)
    (stands : policy.Stands c) :
    ∃ policy', TlsCall.Asks (run basic calls last c).1 policy' ∧
      policy'.Stands (run basic calls last c).2 := by
  induction calls generalizing last policy c with
  | nil => exact ⟨policy, asks, stands⟩
  | cons call rest ih =>
    obtain ⟨next, nextAsks, nextStands⟩ := call_policy asks stands basic call
    exact ih nextAsks nextStands

theorem constructed_stands (fingerprint : HashOutput 20) (knownkeyUsages : UInt32) :
    TlsPolicy.unset.Stands (constructed fingerprint knownkeyUsages : TlsClient T S) :=
  ⟨rfl, rfl, rfl, rfl, rfl⟩

end TlsClient

/-! ## The first certificate -/

namespace X509Engine
variable {x : X509Engine}

/-- What the decoder passes on of a certificate, and the bytes that are hashed for it. -/
def subject (x : X509Engine) (certificate : List UInt8) : List UInt8 :=
  (x.push x.decoderInit certificate).2.1

def issuer (x : X509Engine) (certificate : List UInt8) : List UInt8 :=
  (x.push x.decoderInit certificate).2.2

theorem push_cons (d : x.Decoder) (byte : UInt8) (rest : List UInt8) :
    x.push d (byte :: rest) =
      ((x.push (x.decoderPush d byte).1 rest).1,
        (x.decoderPush d byte).2.1 ++ (x.push (x.decoderPush d byte).1 rest).2.1,
        (x.decoderPush d byte).2.2 ++ (x.push (x.decoderPush d byte).1 rest).2.2) := rfl

/-- The decoder does not see where a piece ends. -/
theorem push_append (d : x.Decoder) (front back : List UInt8) :
    x.push d (front ++ back) =
      ((x.push (x.push d front).1 back).1,
        (x.push d front).2.1 ++ (x.push (x.push d front).1 back).2.1,
        (x.push d front).2.2 ++ (x.push (x.push d front).1 back).2.2) := by
  induction front generalizing d with
  | nil => rfl
  | cons byte rest ih =>
    rw [List.cons_append, push_cons, ih, push_cons]
    simp only [List.append_assoc]

/-- The context after some bytes of the first certificate. -/
structure Pushed (xc₀ : InsecureContext x) (bytes : List UInt8) (xc : InsecureContext x) :
    Prop where
  matchFingerprint : xc.matchFingerprint = xc₀.matchFingerprint
  allowSelfSigned : xc.allowSelfSigned = xc₀.allowSelfSigned
  sha1Cert : xc.sha1Cert = bytes
  subject : xc.sha256Subject = x.subject bytes
  issuer : xc.sha256Issuer = x.issuer bytes

theorem pieces_pushed {xc₀ xc : InsecureContext x} {bytes : List UInt8}
    (pushed : Pushed xc₀ bytes xc) (reading : xc.doneCert = false)
    (decoder : xc.ctx = (x.push x.decoderInit bytes).1) (pieces : List (List UInt8)) :
    Pushed xc₀ (bytes ++ pieces.flatten)
      (pieces.foldl (fun xc buf => insecureAppend buf xc) xc) := by
  induction pieces generalizing xc bytes with
  | nil =>
    rw [List.flatten_nil, List.append_nil]
    exact pushed
  | cons buf rest ih =>
    rw [List.flatten_cons, ← List.append_assoc]
    have appended : insecureAppend buf xc =
        { xc with
          sha1Cert := xc.sha1Cert ++ buf
          ctx := (x.push xc.ctx buf).1
          sha256Subject := xc.sha256Subject ++ (x.push xc.ctx buf).2.1
          sha256Issuer := xc.sha256Issuer ++ (x.push xc.ctx buf).2.2 } := by
      rw [insecureAppend, reading]
      rfl
    rw [List.foldl_cons, appended]
    have whole := push_append x.decoderInit bytes buf
    rw [← decoder] at whole
    refine ih ⟨pushed.matchFingerprint, pushed.allowSelfSigned, ?_, ?_, ?_⟩ reading ?_
    · exact congrArg (· ++ buf) pushed.sha1Cert
    · rw [subject, whole]
      exact congrArg (· ++ _) pushed.subject
    · rw [issuer, whole]
      exact congrArg (· ++ _) pushed.issuer
    · rw [whole]

/-- Behind the first certificate nothing changes any more. -/
theorem certificate_done {xc : InsecureContext x} (done : xc.doneCert = true)
    (pieces : List (List UInt8)) : certificate xc pieces = xc := by
  have unchanged : pieces.foldl (fun xc buf => insecureAppend buf xc) xc = xc := by
    induction pieces with
    | nil => rfl
    | cons buf rest ih =>
      have ignored : insecureAppend buf xc = xc := by
        rw [insecureAppend, done]
        rfl
      rw [List.foldl_cons, ignored, ih]
  rw [certificate, insecureStartCert, unchanged, insecureEndCert, ← done]

theorem certificates_done {xc : InsecureContext x} (done : xc.doneCert = true)
    (certificates : List (List (List UInt8))) : certificates.foldl certificate xc = xc := by
  induction certificates with
  | nil => rfl
  | cons pieces rest ih => rw [List.foldl_cons, certificate_done done, ih]

/-- A chain leaves the bytes of its first certificate. -/
theorem deliver_pushed (xc : InsecureContext x) (first : List (List UInt8))
    (rest : List (List (List UInt8))) :
    Pushed xc first.flatten (deliver xc (first :: rest)) ∧
      (deliver xc (first :: rest)).doneCert = true := by
  have start : Pushed xc [] (insecureStartChain xc) := ⟨rfl, rfl, rfl, rfl, rfl⟩
  have pushed := pieces_pushed start rfl rfl first
  rw [deliver, List.foldl_cons, certificates_done rfl]
  exact ⟨⟨pushed.matchFingerprint, pushed.allowSelfSigned, pushed.sha1Cert, pushed.subject,
    pushed.issuer⟩, rfl⟩

/-- The checks do not change with the chains that were delivered. -/
theorem deliver_checks (xc : InsecureContext x) (certificates : List (List (List UInt8))) :
    (deliver xc certificates).matchFingerprint = xc.matchFingerprint ∧
      (deliver xc certificates).allowSelfSigned = xc.allowSelfSigned := by
  cases certificates with
  | nil => exact ⟨rfl, rfl⟩
  | cons first rest =>
    have pushed := (deliver_pushed xc first rest).1
    exact ⟨pushed.matchFingerprint, pushed.allowSelfSigned⟩

theorem delivered_checks (xc : InsecureContext x)
    (earlier : List (List (List (List UInt8)))) :
    (earlier.foldl deliver xc).matchFingerprint = xc.matchFingerprint ∧
      (earlier.foldl deliver xc).allowSelfSigned = xc.allowSelfSigned := by
  induction earlier generalizing xc with
  | nil => exact ⟨rfl, rfl⟩
  | cons chain rest ih =>
    have now := deliver_checks xc chain
    have later := ih (deliver xc chain)
    exact ⟨later.1.trans now.1, later.2.trans now.2⟩

theorem insecureEndChain_eq_zero_iff (xc : InsecureContext x) :
    insecureEndChain xc = 0 ↔ xc.doneCert = true ∧
      (∀ fingerprint ∈ xc.matchFingerprint, x.sha1 xc.sha1Cert = fingerprint) ∧
      (xc.allowSelfSigned = true → x.sha256 xc.sha256Subject = x.sha256 xc.sha256Issuer) := by
  unfold insecureEndChain
  split
  · next unseen => simp [show xc.doneCert = false by simpa using unseen]
  · next seen =>
    have done : xc.doneCert = true := by simpa using seen
    split
    · next mismatch =>
      obtain ⟨fingerprint, matched, different⟩ := (Option.any_eq_true _ _).1 mismatch
      refine ⟨fun accepted => absurd accepted (by decide), ?_⟩
      rintro ⟨_, fingerprints, _⟩
      exact absurd (fingerprints fingerprint matched) (by simpa using different)
    · next matched =>
      have fingerprints : ∀ fingerprint ∈ xc.matchFingerprint,
          x.sha1 xc.sha1Cert = fingerprint := by
        intro fingerprint mem
        simpa [Option.mem_def.1 mem] using matched
      split
      · next different =>
        refine ⟨fun accepted => absurd accepted (by decide), ?_⟩
        rintro ⟨_, _, selfSigned⟩
        exact absurd (selfSigned different.1) different.2
      · next same =>
        exact ⟨fun _ => ⟨done, fingerprints, fun allowed => by_contra fun different =>
          same ⟨allowed, different⟩⟩, fun _ => rfl⟩

/-- A chain is accepted for its first certificate. -/
theorem deliver_accepts_iff (xc : InsecureContext x) (certificates : List (List (List UInt8)))
    (distinct : ∀ first ∈ certificates.head?,
      x.sha256 (x.subject first.flatten) = x.sha256 (x.issuer first.flatten) →
        x.subject first.flatten = x.issuer first.flatten) :
    insecureEndChain (deliver xc certificates) = 0 ↔
      ∃ first ∈ certificates.head?,
        (∀ fingerprint ∈ xc.matchFingerprint, x.sha1 first.flatten = fingerprint) ∧
        (xc.allowSelfSigned = true → x.subject first.flatten = x.issuer first.flatten) := by
  cases certificates with
  | nil => simp [deliver, insecureEndChain, insecureStartChain]
  | cons first rest =>
    obtain ⟨pushed, done⟩ := deliver_pushed xc first rest
    have same := distinct first rfl
    have hashes : x.sha256 (x.subject first.flatten) = x.sha256 (x.issuer first.flatten) ↔
        x.subject first.flatten = x.issuer first.flatten := ⟨same, congrArg x.sha256⟩
    rw [insecureEndChain_eq_zero_iff, pushed.matchFingerprint, pushed.allowSelfSigned,
      pushed.sha1Cert, pushed.subject, pushed.issuer, hashes]
    constructor
    · rintro ⟨_, fingerprints, selfSigned⟩
      exact ⟨first, rfl, fingerprints, selfSigned⟩
    · rintro ⟨certificate, mem, fingerprints, selfSigned⟩
      obtain rfl : first = certificate := Option.some.inj mem
      exact ⟨done, fingerprints, selfSigned⟩

end X509Engine

/-! ## The policy of a connection -/

namespace TlsClient
variable {T S : Type}

/-- The next handshake has the validator of the last setting that did not return false; the text of
a fingerprint is accepted if and only if it is twenty pairs of digits, and is then the same as these
bytes; a chain that is delivered to the validator without a chain of trust is accepted if and only
if its first certificate passes the checks. -/
theorem pinning_follows_settings (basic : Bool) (fingerprint₀ : HashOutput 20) (usages₀ : UInt32)
    (calls : List (TlsCall T S)) (attempt : TlsAttempt) (c : TlsClient T S) (fpStr : WString)
    (x : X509Engine) (fresh : X509Engine.InsecureContext x)
    (matchFingerprint : Option (HashOutput 20)) (allowSelfSigned : Bool)
    (earlier : List (List (List (List UInt8)))) (certificates : List (List (List UInt8)))
    (distinct : ∀ first ∈ certificates.head?,
      x.sha256 (x.subject first.flatten) = x.sha256 (x.issuer first.flatten) →
        x.subject first.flatten = x.issuer first.flatten) :
    (∃ policy : TlsPolicy T,
      TlsCall.Asks (run basic calls none (constructed fingerprint₀ usages₀)).1 policy ∧
      ((run basic calls none (constructed fingerprint₀ usages₀)).2.connectSSL basic attempt).1 =
        if attempt.buffersAllocated ∧ attempt.validatorAllocated then
          policy.validator basic (run basic calls none (constructed fingerprint₀ usages₀)).2
        else none) ∧
    ((c.setFingerprintText fpStr).1 = true ↔
      ∃ fingerprint, FingerprintText fpStr.cstr fingerprint) ∧
    (∀ fingerprint, FingerprintText fpStr.cstr fingerprint →
      c.setFingerprintText fpStr = c.setFingerprint fingerprint) ∧
    (X509Engine.insecureEndChain (X509Engine.deliver
        (earlier.foldl X509Engine.deliver
          (X509Engine.insecureInit fresh matchFingerprint allowSelfSigned)) certificates) = 0 ↔
      ∃ first ∈ certificates.head?,
        (∀ fingerprint ∈ matchFingerprint, x.sha1 first.flatten = fingerprint) ∧
        (allowSelfSigned = true → x.subject first.flatten = x.issuer first.flatten)) := by
  refine ⟨?_, setFingerprintText_accepts_iff fpStr c,
    fun _ text => setFingerprintText_of_text text c, ?_⟩
  · obtain ⟨policy, asks, stands⟩ := run_policy basic calls .unset
      (constructed_stands (S := S) fingerprint₀ usages₀)
    exact ⟨policy, asks, connectSSL_installs stands basic attempt⟩
  · obtain ⟨fingerprints, selfSigned⟩ := X509Engine.delivered_checks
      (X509Engine.insecureInit fresh matchFingerprint allowSelfSigned) earlier
    rw [X509Engine.deliver_accepts_iff _ certificates distinct, fingerprints, selfSigned]
    rfl

/-- The hashes on the bytes of an empty sequence, of which the decoder passes nothing on. -/
def emptySequence : X509Engine where
  sha1 _ := ⟨[0xf9, 0x44, 0xdc, 0xd6, 0x35, 0xf9, 0x80, 0x1f, 0x7a, 0xc9, 0x0a, 0x40, 0x7f, 0xbc,
    0x47, 0x99, 0x64, 0xde, 0xc0, 0x24], rfl⟩
  sha256 _ := ⟨[0xe3, 0xb0, 0xc4, 0x42, 0x98, 0xfc, 0x1c, 0x14, 0x9a, 0xfb, 0xf4, 0xc8, 0x99, 0x6f,
    0xb9, 0x24, 0x27, 0xae, 0x41, 0xe4, 0x64, 0x9b, 0x93, 0x4c, 0xa4, 0x95, 0x99, 0x1b,
    0x78, 0x52, 0xb8, 0x55], rfl⟩
  Decoder := Unit
  decoderInit := ()
  decoderPush _ _ := ((), [], [])

theorem pinning_follows_settings_pieces :
    X509Engine.insecureEndChain (X509Engine.deliver
      (X509Engine.insecureInit (x := emptySequence) ⟨true, none, [], false, [], [], ()⟩
        (some (emptySequence.sha1 [0x30, 0x00])) true)
      [[[0x30], [], [0x00]], [[0x31, 0x00]]]) = 0 :=
  (pinning_follows_settings (T := Unit) (S := Unit) false (emptySequence.sha1 []) 0 []
    ⟨true, true, true, true⟩ (constructed (emptySequence.sha1 []) 0) [] emptySequence
    ⟨true, none, [], false, [], [], ()⟩ (some (emptySequence.sha1 [0x30, 0x00])) true []
    [[[0x30], [], [0x00]], [[0x31, 0x00]]] (by
      intro first mem _
      obtain rfl : [[0x30], [], [0x00]] = first := Option.some.inj mem
      rfl)).2.2.2.2 ⟨_, rfl, fun _ mem => Option.some.inj mem, fun _ => rfl⟩

end TlsClient

end Esp8266.Source
