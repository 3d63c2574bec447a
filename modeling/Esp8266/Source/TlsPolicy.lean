import Esp8266.Source.WString

/-!
# The validation policy of a TLS client

WiFiClientSecureBearSSL.cpp and .h. The engine of BearSSL is seen as the validator that is
installed in it; the handshake, and what is allocated, are inputs of an attempt to connect.
-/
set_option autoImplicit false

namespace Esp8266.Source

/-- An array of a hash function's output. -/
def HashOutput (n : Nat) := {bytes : List UInt8 // bytes.length = n}

instance (n : Nat) : DecidableEq (HashOutput n) := inferInstanceAs (DecidableEq {_b : List UInt8 // _})

/-- `br_rsa_public_key` and `br_ec_public_key`. -/
structure RsaPublicKey where
  n : List UInt8
  e : List UInt8
  deriving DecidableEq

structure EcPublicKey where
  curve : Int
  q : List UInt8
  deriving DecidableEq

/-- `PublicKey`; it holds no key when its text was not parsed. -/
inductive PublicKey where
  | rsa (key : RsaPublicKey)
  | ec (key : EcPublicKey)
  | empty
  deriving DecidableEq

/-- What `_sk` of a client certificate points to. -/
inductive PrivateKeyType where
  | rsa | ec | empty
  deriving DecidableEq

/-- The X.509 contexts, as `br_ssl_engine_set_x509` gets them; `T` is `br_x509_trust_anchor` and
`S` is `CertStore`. -/
inductive Validator (T S : Type) where
  | insecure (matchFingerprint : Option (HashOutput 20)) (allowSelfSigned : Bool)
  | knownkey (key : PublicKey) (usages : UInt32)
  | minimal (anchors : List T) (ecdsa : Bool) (daysAndSeconds : Option (UInt32 × UInt32))
      (store : Option S)

/-- The members of `WiFiClientSecure` that choose the validator, and the validator. -/
structure TlsClient (T S : Type) where
  useInsecure : Bool
  useFingerprint : Bool
  fingerprint : HashOutput 20
  useSelfSigned : Bool
  knownkey : Option PublicKey
  knownkeyUsages : UInt32
  ta : Option (List T)
  now : UInt32
  certStore : Option S
  sk : Option PrivateKeyType
  x509 : Option (Validator T S)
  oomErr : Bool

/-- What memory and the peer do in `_connectSSL`. -/
structure TlsAttempt where
  buffersAllocated : Bool
  validatorAllocated : Bool
  reset : Bool
  handshake : Bool

namespace TlsClient
variable {T S : Type}

def clearAuthenticationSettings (c : TlsClient T S) : TlsClient T S :=
  { c with
    useInsecure := false, useFingerprint := false, useSelfSigned := false
    knownkey := none, ta := none }

/-- `WiFiClientSecure()`; two of the members are not initialized. -/
def constructed (fingerprint : HashOutput 20) (knownkeyUsages : UInt32) : TlsClient T S :=
  clearAuthenticationSettings
    ⟨false, false, fingerprint, false, none, knownkeyUsages, none, 0, none, none, none, false⟩

/-! ## Settings -/

def setInsecure (c : TlsClient T S) : TlsClient T S :=
  { c.clearAuthenticationSettings with useInsecure := true }

def setKnownKey (pk : Option PublicKey) (usages : UInt32) (c : TlsClient T S) : TlsClient T S :=
  { c.clearAuthenticationSettings with knownkey := pk, knownkeyUsages := usages }

def setFingerprint (fingerprint : HashOutput 20) (c : TlsClient T S) : Bool × TlsClient T S :=
  (true, { c.clearAuthenticationSettings with useFingerprint := true, fingerprint := fingerprint })

def htoi (c : UInt8) : UInt8 :=
  if 0x30 ≤ c ∧ c ≤ 0x39 then c - 0x30
  else if 0x41 ≤ c ∧ c ≤ 0x46 then 10 + c - 0x41
  else if 0x61 ≤ c ∧ c ≤ 0x66 then 10 + c - 0x61
  else 255

/-- The loop of `setFingerprint`, `left` bytes before its end: the bytes of `fp`, and the text
that was not read. -/
def fingerprintLoop : Nat → List UInt8 → List UInt8 → Option (List UInt8 × List UInt8)
  | 0, text, fp => some (fp, text)
  | _ + 1, [], fp => some (fp, [])
  | _ + 1, [_], _ => none -- only half of the last hex digit
  | left + 1, c :: d :: text, fp =>
    let c := htoi c
    let d := htoi d
    if 15 < c ∨ 15 < d then none
    else fingerprintLoop left (text.dropWhile fun s => s = 0x20 ∨ s = 0x3a) (fp ++ [c <<< 4 ||| d])

/-- `setFingerprint` of a text of C. -/
def setFingerprintText (fpStr : WString) (c : TlsClient T S) : Bool × TlsClient T S :=
  match fingerprintLoop 20 fpStr.cstr [] with
  | none => (false, c)
  | some (fp, text) =>
    if complete : fp.length = 20 ∧ text = [] then c.setFingerprint ⟨fp, complete.1⟩ else (false, c)

def allowSelfSignedCerts (c : TlsClient T S) : TlsClient T S :=
  { c.clearAuthenticationSettings with useSelfSigned := true }

def setTrustAnchors (ta : Option (List T)) (c : TlsClient T S) : TlsClient T S :=
  { c.clearAuthenticationSettings with ta := ta }

def setX509Time (now : UInt32) (c : TlsClient T S) : TlsClient T S := { c with now := now }

def setCertStore (certStore : Option S) (c : TlsClient T S) : TlsClient T S :=
  { c with certStore := certStore }

/-- `setClientRSACert` and `setClientECCert`, as far as the key decides. -/
def setClientCert (sk : Option PrivateKeyType) (c : TlsClient T S) : TlsClient T S :=
  { c with sk := sk }

/-! ## Connecting -/

/-- `_installClientX509Validator`; `basic` is `BEARSSL_SSL_BASIC`. -/
def installClientX509Validator (basic allocated : Bool) (c : TlsClient T S) :
    Bool × TlsClient T S :=
  if c.useInsecure || c.useFingerprint || c.useSelfSigned then
    if !allocated then (false, c)
    else (true, { c with
      x509 := some (.insecure (if c.useFingerprint then some c.fingerprint else none)
        c.useSelfSigned) })
  else
    match c.knownkey with
    | some key =>
      if !allocated then (false, c)
      else
        match key with
        | .ec k =>
          if basic then (false, c)
          else (true, { c with x509 := some (.knownkey (.ec k) c.knownkeyUsages) })
        | .rsa k => (true, { c with x509 := some (.knownkey (.rsa k) c.knownkeyUsages) })
        -- the context stays as it was allocated, zero
        | .empty => (true, { c with x509 := some (.knownkey .empty 0) })
    | none =>
      if !allocated then (false, c)
      else (true, { c with
        x509 := some (.minimal (c.ta.getD []) (!basic)
          (if c.now = 0 then none else some (c.now / 86400 + 719528, c.now % 86400))
          c.certStore) })

def freeSSL (c : TlsClient T S) : TlsClient T S := { c with x509 := none }

/-- `_connectSSL`: the validator of the handshake, when it comes to one, and what is returned. -/
def connectSSL (basic : Bool) (attempt : TlsAttempt) (c : TlsClient T S) :
    Option (Validator T S) × Bool × TlsClient T S :=
  let c := { c.freeSSL with oomErr := false }
  if !attempt.buffersAllocated then (none, false, { c.freeSSL with oomErr := true })
  else
    let (installed, c) := c.installClientX509Validator basic attempt.validatorAllocated
    if !installed then (none, false, { c.freeSSL with oomErr := true })
    else
      let validator := c.x509
      if c.sk = some .ec ∧ basic then (validator, false, c.freeSSL)
      else if !attempt.reset then (validator, false, c.freeSSL)
      else (validator, attempt.handshake, { c with x509 := none })

end TlsClient

/-- A call of the sketch. -/
inductive TlsCall (T S : Type) where
  | setInsecure
  | setFingerprint (fingerprint : HashOutput 20)
  | setFingerprintText (fpStr : WString)
  | allowSelfSignedCerts
  | setKnownKey (pk : Option PublicKey) (usages : UInt32)
  | setTrustAnchors (ta : Option (List T))
  | setX509Time (now : UInt32)
  | setCertStore (certStore : Option S)
  | setClientCert (sk : Option PrivateKeyType)
  | connectSSL (attempt : TlsAttempt)

/-- The call on a client; a function of type `void` does not return false. -/
def TlsClient.call {T S : Type} (basic : Bool) (c : TlsClient T S) :
    TlsCall T S → Bool × TlsClient T S
  | .setInsecure => (true, c.setInsecure)
  | .setFingerprint fingerprint => c.setFingerprint fingerprint
  | .setFingerprintText fpStr => c.setFingerprintText fpStr
  | .allowSelfSignedCerts => (true, c.allowSelfSignedCerts)
  | .setKnownKey pk usages => (true, c.setKnownKey pk usages)
  | .setTrustAnchors ta => (true, c.setTrustAnchors ta)
  | .setX509Time now => (true, c.setX509Time now)
  | .setCertStore certStore => (true, c.setCertStore certStore)
  | .setClientCert sk => (true, c.setClientCert sk)
  | .connectSSL attempt => (c.connectSSL basic attempt).2

/-! ## The validator without a chain of trust -/

/-- What it uses of BearSSL: hashes of the bytes that were pushed, and a decoder that reads one byte
at a time and passes bytes of the subject and of the issuer on. -/
structure X509Engine where
  sha1 : List UInt8 → HashOutput 20
  sha256 : List UInt8 → HashOutput 32
  Decoder : Type
  decoderInit : Decoder
  decoderPush : Decoder → UInt8 → Decoder × List UInt8 × List UInt8

namespace X509Engine

/-- `br_x509_insecure_context`; a context of a hash is the bytes that were pushed into it. -/
structure InsecureContext (x : X509Engine) where
  doneCert : Bool
  matchFingerprint : Option (HashOutput 20)
  sha1Cert : List UInt8
  allowSelfSigned : Bool
  sha256Subject : List UInt8
  sha256Issuer : List UInt8
  ctx : x.Decoder

variable (x : X509Engine)

/-- `br_x509_decoder_push`: the decoder, and the bytes for the subject and for the issuer. -/
def push : x.Decoder → List UInt8 → x.Decoder × List UInt8 × List UInt8
  | d, [] => (d, [], [])
  | d, byte :: rest =>
    let (d, subject, issuer) := x.decoderPush d byte
    let (d, subject', issuer') := push d rest
    (d, subject ++ subject', issuer ++ issuer')

variable {x}

def insecureStartChain (xc : InsecureContext x) : InsecureContext x :=
  { xc with
    ctx := x.decoderInit, doneCert := false
    sha1Cert := [], sha256Subject := [], sha256Issuer := [] }

def insecureStartCert (_length : UInt32) (xc : InsecureContext x) : InsecureContext x := xc

def insecureAppend (buf : List UInt8) (xc : InsecureContext x) : InsecureContext x :=
  if !xc.doneCert then
    let (ctx, subject, issuer) := x.push xc.ctx buf
    { xc with
      sha1Cert := xc.sha1Cert ++ buf, ctx := ctx
      sha256Subject := xc.sha256Subject ++ subject
      sha256Issuer := xc.sha256Issuer ++ issuer }
  else xc

def insecureEndCert (xc : InsecureContext x) : InsecureContext x := { xc with doneCert := true }

/-- `BR_ERR_X509_NOT_TRUSTED`. -/
def notTrusted : Nat := 62

/-- `insecure_end_chain`; zero is success. -/
def insecureEndChain (xc : InsecureContext x) : Nat :=
  if !xc.doneCert then 1
  else if xc.matchFingerprint.any fun expected => x.sha1 xc.sha1Cert ≠ expected then notTrusted
  else if xc.allowSelfSigned ∧ x.sha256 xc.sha256Subject ≠ x.sha256 xc.sha256Issuer then notTrusted
  else 0

/-- `br_x509_insecure_init`; `fresh` are the contexts that the start of a chain initializes. -/
def insecureInit (fresh : InsecureContext x) (matchFingerprint : Option (HashOutput 20))
    (allowSelfSigned : Bool) : InsecureContext x :=
  { fresh with
    doneCert := false, matchFingerprint := matchFingerprint, allowSelfSigned := allowSelfSigned }

/-- A certificate as the engine delivers it, in pieces. -/
def certificate (xc : InsecureContext x) (pieces : List (List UInt8)) : InsecureContext x :=
  insecureEndCert (pieces.foldl (fun xc buf => insecureAppend buf xc)
    (insecureStartCert (UInt32.ofNat pieces.flatten.length) xc))

/-- A chain as the engine delivers it. -/
def deliver (xc : InsecureContext x) (certificates : List (List (List UInt8))) :
    InsecureContext x :=
  certificates.foldl certificate (insecureStartChain xc)

end X509Engine

end Esp8266.Source
