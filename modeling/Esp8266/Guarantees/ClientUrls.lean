import Esp8266.Guarantees.Base64Strings
import Esp8266.Source.HttpClient
import Mathlib.Data.List.TakeWhile

/-!
# The URL of a request

The authority of a URL ends at the first slash for the parser, and only there; what a URL does
not name keeps the value that it has from the URL before.
-/
set_option autoImplicit false

namespace Esp8266.Source.HttpClient
open Esp8266.Lib.Decimal Esp8266.Source.WString

/-- A character of the user information or of the host. -/
def IsPlain (c : UInt8) : Prop := c ≠ 0 ∧ c ≠ 0x2f ∧ c ≠ 0x3f ∧ c ≠ 0x23 ∧ c ≠ 0x40

instance (c : UInt8) : Decidable (IsPlain c) := inferInstanceAs (Decidable (_ ∧ _))

/-- A URL by its parts. -/
structure Url where
  https : Bool
  userinfo : Option WString
  host : WString
  port : Option WString
  rest : WString
  userinfo_plain : ∀ user ∈ userinfo, ∀ c ∈ user, IsPlain c
  host_plain : ∀ c ∈ host, IsPlain c
  port_digits : ∀ digits ∈ port, ∀ c ∈ digits, IsDigit c
  port_range : ∀ digits ∈ port, 1 ≤ value digits ∧ value digits ≤ 65535
  rest_begins : ∀ c ∈ rest.head?, c = 0x2f ∨ c = 0x3f ∨ c = 0x23

namespace Url

def scheme (u : Url) : WString := if u.https then ofString "https" else ofString "http"

def portText : Option WString → WString
  | some digits => 0x3a :: digits
  | none => []

def userText : Option WString → WString
  | some user => user ++ [0x40]
  | none => []

def authority (u : Url) : WString := userText u.userinfo ++ (u.host ++ portText u.port)

def text (u : Url) : WString := u.scheme ++ 0x3a :: 0x2f :: 0x2f :: (u.authority ++ u.rest)

def portNumber (u : Url) : UInt16 :=
  (u.port.map fun digits => UInt16.ofNat (value digits)).getD (if u.https then 443 else 80)

/-- The standard encoding of the user information, empty where there is none. -/
def authorization (u : Url) : WString := (u.userinfo.map Lib.Base64.encode).getD []

end Url
open Url

/-! ## Searching from the start -/

theorem indexOf_first {u : WString} {ch : UInt8} (plain : 0 ∉ u) (first : ch ∉ u) (ch_ne : ch ≠ 0)
    (v : WString) : indexOf (u ++ ch :: v) ch 0 = u.length := by
  have found := indexOf_found [] u v plain first ch_ne
  rwa [List.nil_append, List.length_nil, Nat.zero_add] at found

theorem indexOf_missing {t : WString} {ch : UInt8} (absent : ch ∉ t) (ch_ne : ch ≠ 0) :
    indexOf t ch 0 = -1 :=
  indexOf_absent [] t (fun mem => absent ((List.takeWhile_prefix _).subset mem)) ch_ne

theorem substring_first {t : WString} (plain : 0 ∉ t) (u : WString) :
    substring (t ++ u) 0 t.length = t := by
  have cut := substring_append [] t u plain
  rwa [List.nil_append, List.length_nil, Nat.zero_add] at cut

theorem remove_first (t u : WString) : remove (t ++ u) 0 t.length = u := by
  rw [remove, List.take_zero, List.nil_append, Nat.zero_add, List.drop_left]

/-! ## The parts of the authority -/

theorem digit_facts {c : UInt8} (digit : IsDigit c) :
    c ≠ 0 ∧ c ≠ 0x2f ∧ c ≠ 0x40 ∧ ¬ IsSpace c ∧ c ≠ 0x2d ∧ c ≠ 0x2b := by
  refine ⟨?_, ?_, ?_, ?_, ?_, ?_⟩
  case refine_4 =>
    rintro (rfl | ⟨-, upper⟩)
    · exact absurd digit (by decide)
    · exact absurd (UInt8.le_trans digit.1 upper) (by decide)
  all_goals
    rintro rfl
    exact absurd digit (by decide)

theorem toInt_digits {digits : WString} (all : ∀ c ∈ digits, IsDigit c)
    (small : value digits < 2 ^ 31) : digits.toInt = value digits := by
  have plain : 0 ∉ digits := fun mem => (digit_facts (all 0 mem)).1 rfl
  have trimmed : digits.dropWhile (fun c => decide (IsSpace c)) = digits := by
    cases digits with
    | nil => rfl
    | cons c rest =>
      have here := digit_facts (all c List.mem_cons_self)
      exact List.dropWhile_cons_of_neg (by simpa using here.2.2.2.1)
  have taken : digits.takeWhile (fun c => decide (IsDigit c)) = digits :=
    List.takeWhile_eq_self_iff.mpr fun c mem => decide_eq_true (all c mem)
  rw [toInt, cstr_of_not_mem plain, trimmed]
  dsimp only
  split
  · exact absurd rfl (digit_facts (all _ List.mem_cons_self)).2.2.2.2.1
  · exact absurd rfl (digit_facts (all _ List.mem_cons_self)).2.2.2.2.2
  · rw [taken]
    omega

theorem ofInt_natCast (n : Nat) : UInt16.ofInt n = UInt16.ofNat n := by
  rw [UInt16.ofInt]
  apply UInt16.toNat_inj.mp
  rw [UInt16.toNat_ofNat', UInt16.toNat_ofNat']
  omega

theorem getPort_plain (h : HTTPClient) {host : WString} (plain : 0 ∉ host) (noColon : 0x3a ∉ host)
    {port : Option WString} (digits : ∀ d ∈ port, ∀ c ∈ d, IsDigit c)
    (small : ∀ d ∈ port, value d ≤ 65535) :
    h.getPort (host ++ portText port) =
      { h with host, port := (port.map fun d => UInt16.ofNat (value d)).getD h.port } := by
  cases port with
  | none =>
    rw [portText, List.append_nil, HTTPClient.getPort, indexOf_missing noColon (by decide)]
    rfl
  | some d =>
    have colon := indexOf_first plain noColon (by decide) d
    have behind : remove (host ++ 0x3a :: d) 0 (host.length + 1) = d := by
      have cut := remove_first (host ++ [0x3a]) d
      rwa [List.append_assoc, List.length_append] at cut
    have number : d.toInt = value d :=
      toInt_digits (digits d rfl) (Nat.lt_of_le_of_lt (small d rfl) (by decide))
    rw [portText, HTTPClient.getPort, colon]
    dsimp only
    rw [if_pos (Int.natCast_nonneg _), ← Int.natCast_succ, rightEnd_natCast, rightEnd_natCast,
      substring_first plain, behind, number, ofInt_natCast]
    rfl

theorem getPort_colon (h : HTTPClient) {host : WString} (colon : 0x3a ∈ host) (t : WString)
    (plain : 0 ∉ host) : (h.getPort (host ++ t)).host ≠ host := by
  obtain ⟨front, back, split, first⟩ := List.eq_append_cons_of_mem colon
  have clean : 0 ∉ front := fun mem => plain (by rw [split]; exact List.mem_append_left _ mem)
  have same : (h.getPort (host ++ t)).host = front := by
    rw [split, List.append_assoc, List.cons_append, HTTPClient.getPort,
      indexOf_first clean first (by decide)]
    dsimp only
    rw [if_pos (Int.natCast_nonneg _), rightEnd_natCast, substring_first clean]
  intro equal
  rw [same] at equal
  exact first (by rw [equal]; exact colon)

theorem getAuthorization_user (h : HTTPClient) {user : WString} (plain : 0 ∉ user)
    (first : 0x40 ∉ user) (t : WString) :
    h.getAuthorization (user ++ 0x40 :: t) =
      ({ h with base64Authorization := Lib.Base64.encode user }, t) := by
  have found := indexOf_first plain first (by decide) t
  have behind : remove (user ++ 0x40 :: t) 0 (user.length + 1) = t := by
    have cut := remove_first (user ++ [0x40]) t
    rwa [List.append_assoc, List.length_append] at cut
  rw [HTTPClient.getAuthorization, found]
  dsimp only
  rw [if_pos (Int.natCast_nonneg _), ← Int.natCast_succ, rightEnd_natCast, rightEnd_natCast,
    substring_first plain, behind, Base64.encode_nonewlines]

theorem getAuthorization_missing (h : HTTPClient) {host : WString} (absent : 0x40 ∉ host) :
    h.getAuthorization host = (h, host) := by
  rw [HTTPClient.getAuthorization, indexOf_missing absent (by decide)]
  rfl

theorem getAuthorization_protocol (h : HTTPClient) (host : WString) :
    (h.getAuthorization host).1.protocol = h.protocol := by
  rw [HTTPClient.getAuthorization]
  dsimp only
  split
  · rfl
  · rfl

theorem getPort_protocol (h : HTTPClient) (host : WString) :
    (h.getPort host).protocol = h.protocol := by
  rw [HTTPClient.getPort]
  dsimp only
  split
  · rfl
  · rfl

namespace Url
variable (u : Url)

theorem mem_portText {c : UInt8} (mem : c ∈ portText u.port) : c = 0x3a ∨ IsDigit c := by
  cases port : u.port with
  | none =>
    rw [port] at mem
    exact absurd mem List.not_mem_nil
  | some digits =>
    rw [port] at mem
    exact (List.mem_cons.mp mem).imp_right (u.port_digits digits port c)

theorem not_mem_host_port {c : UInt8} (plain : ¬ IsPlain c) (noColon : c ≠ 0x3a)
    (noDigit : ¬ IsDigit c) : c ∉ u.host ++ portText u.port := by
  intro mem
  rcases List.mem_append.mp mem with host | port
  · exact plain (u.host_plain c host)
  · rcases u.mem_portText port with colon | digit
    · exact noColon colon
    · exact noDigit digit

theorem not_mem_authority {c : UInt8} (plain : ¬ IsPlain c) (noSign : c ≠ 0x40)
    (noColon : c ≠ 0x3a) (noDigit : ¬ IsDigit c) : c ∉ u.authority := by
  intro mem
  rcases List.mem_append.mp mem with user | host
  · cases info : u.userinfo with
    | none =>
      rw [info] at user
      exact absurd user List.not_mem_nil
    | some name =>
      rw [info] at user
      rcases List.mem_append.mp user with inside | sign
      · exact plain (u.userinfo_plain name info c inside)
      · exact noSign (List.mem_singleton.mp sign)
  · exact u.not_mem_host_port plain noColon noDigit host

theorem zero_not_mem_authority : 0 ∉ u.authority :=
  u.not_mem_authority (by decide) (by decide) (by decide) (by decide)

theorem slash_not_mem_authority : 0x2f ∉ u.authority :=
  u.not_mem_authority (by decide) (by decide) (by decide) (by decide)

end Url

/-! ## The whole URL -/

/-- The object when the scheme has been read. -/
def opened (h : HTTPClient) (u : Url) : HTTPClient :=
  { h.clear with protocol := u.scheme, port := if u.https then 443 else 80 }

theorem beginInternal_text (h : HTTPClient) (u : Url) (expected : Option WString) :
    h.beginInternal u.text expected = (opened h u).beginHost (u.authority ++ u.rest) expected := by
  have plain : 0 ∉ u.scheme ∧ 0x3a ∉ u.scheme := by
    rw [Url.scheme]
    split <;> decide
  have colon : indexOf u.text 0x3a 0 = u.scheme.length :=
    indexOf_first plain.1 plain.2 (by decide) _
  have before : substring u.text 0 u.scheme.length = u.scheme := substring_first plain.1 _
  have behind : remove u.text 0 (u.scheme.length + 3) = u.authority ++ u.rest := by
    have cut := remove_first (u.scheme ++ [0x3a, 0x2f, 0x2f]) (u.authority ++ u.rest)
    rwa [List.append_assoc, List.length_append] at cut
  have three : ((u.scheme.length : Nat) : Int) + 3 = (u.scheme.length + 3 : Nat) := rfl
  rw [HTTPClient.beginInternal, colon]
  dsimp only
  rw [if_neg (by omega), rightEnd_natCast, three, rightEnd_natCast, behind, before, opened]
  cases https : u.https with
  | false =>
    have http : u.scheme = ofString "http" := by
      rw [Url.scheme, https]
      rfl
    rw [if_pos (by rw [http]; decide)]
    rfl
  | true =>
    have http : u.scheme = ofString "https" := by
      rw [Url.scheme, https]
      rfl
    rw [if_neg (by rw [http]; decide), if_pos (by rw [http]; decide)]
    rfl

/-- Where a slash ends the authority, or nothing follows it, the parts are those of the URL. -/
theorem beginHost_split (h : HTTPClient) (u : Url) (slash : ∀ c ∈ u.rest.head?, c = 0x2f)
    (expected : Option WString) :
    (h.beginHost (u.authority ++ u.rest) expected).1 =
      { (h.getAuthorization u.authority).1.getPort (h.getAuthorization u.authority).2 with
        uri := u.rest } := by
  cases rest : u.rest with
  | nil =>
    have missing := indexOf_missing u.slash_not_mem_authority (by decide)
    have whole : substring u.authority 0 u.authority.length = u.authority := by
      have cut := substring_first u.zero_not_mem_authority []
      rwa [List.append_nil] at cut
    have nothing : remove u.authority 0 u.authority.length = [] := by
      have cut := remove_first u.authority []
      rwa [List.append_nil] at cut
    rw [List.append_nil, HTTPClient.beginHost, missing]
    dsimp only
    rw [rightEnd_neg_one, whole, nothing]
  | cons c tail =>
    rw [rest] at slash
    obtain rfl : c = 0x2f := slash c rfl
    have found := indexOf_first u.zero_not_mem_authority u.slash_not_mem_authority (by decide) tail
    rw [HTTPClient.beginHost, found]
    dsimp only
    rw [rightEnd_natCast, substring_first u.zero_not_mem_authority, remove_first]

/-- The URI is empty or begins with a slash. -/
theorem beginHost_uri (h : HTTPClient) (url : WString) (expected : Option WString) :
    ∀ c ∈ (h.beginHost url expected).1.uri.head?, c = 0x2f := by
  have uri : (h.beginHost url expected).1.uri = url.remove 0 (url.rightEnd (url.indexOf 0x2f 0)) :=
    rfl
  rw [uri]
  by_cases mem : 0x2f ∈ cstr url
  · obtain ⟨front, back, split, first⟩ := List.eq_append_cons_of_mem mem
    have clean : 0 ∉ front := by
      intro zero
      exact not_mem_cstr url (by rw [split]; exact List.mem_append_left _ zero)
    obtain ⟨stop, whole⟩ := List.takeWhile_prefix (l := url) (fun c : UInt8 => decide (c ≠ 0))
    have there : url = front ++ 0x2f :: (back ++ stop) := by
      rw [← whole]
      change cstr url ++ stop = _
      rw [split, List.append_assoc, List.cons_append]
    rw [there, indexOf_first clean first (by decide), rightEnd_natCast, remove_first]
    rintro c ⟨⟩
    rfl
  · have missing : url.indexOf 0x2f 0 = -1 := indexOf_absent [] url mem (by decide)
    have nothing : remove url 0 url.length = [] := by
      have cut := remove_first url []
      rwa [List.append_nil] at cut
    rw [missing, rightEnd_neg_one, nothing]
    rintro c ⟨⟩

/-- The object has the parts of the URL. -/
def Parsed (u : Url) (result : HTTPClient × Bool) : Prop :=
  result.2 = true ∧ result.1.host = u.host ∧ result.1.port = u.portNumber ∧
    result.1.base64Authorization = u.authorization ∧ result.1.uri = u.rest

theorem getAuthorization_authority (h : HTTPClient) (u : Url) :
    h.getAuthorization u.authority =
      ({ h with
          base64Authorization := (u.userinfo.map Lib.Base64.encode).getD h.base64Authorization },
        u.host ++ portText u.port) := by
  rw [Url.authority]
  cases info : u.userinfo with
  | none =>
    exact getAuthorization_missing h (u.not_mem_host_port (by decide) (by decide) (by decide))
  | some user =>
    have clean : ∀ {c : UInt8}, ¬ IsPlain c → c ∉ user :=
      fun plain mem => plain (u.userinfo_plain user info _ mem)
    rw [userText, List.append_assoc]
    exact getAuthorization_user h (clean (by decide)) (clean (by decide)) _

theorem Url.zero_not_mem_host (u : Url) : 0 ∉ u.host :=
  fun mem => absurd (u.host_plain 0 mem) (by decide)

/-- What becomes of the object where a slash ends the authority and the hostname has no colon. -/
theorem beginInternal_parts (h : HTTPClient) (u : Url) (slash : ∀ c ∈ u.rest.head?, c = 0x2f)
    (noColon : 0x3a ∉ u.host) (expected : Option WString) :
    (h.beginInternal u.text expected).1 =
      { h.clear with
        protocol := u.scheme, host := u.host, port := u.portNumber, uri := u.rest
        base64Authorization :=
          (u.userinfo.map Lib.Base64.encode).getD h.base64Authorization } := by
  rw [beginInternal_text, beginHost_split _ u slash expected, getAuthorization_authority,
    getPort_plain _ u.zero_not_mem_host noColon u.port_digits fun d mem => (u.port_range d mem).2]
  rfl

/-- **A URL is parsed into its parts** exactly where its scheme is the one that is expected, a
slash ends the authority if anything does, the hostname has no colon, and no authorization is
left from before where the URL brings none. -/
theorem url_parsed (h : HTTPClient) (u : Url) (expected : Option WString) :
    Parsed u (h.beginInternal u.text expected) ↔
      (∀ text ∈ expected, text = u.scheme) ∧ (∀ c ∈ u.rest.head?, c = 0x2f) ∧ 0x3a ∉ u.host ∧
        (u.userinfo = none → h.base64Authorization = []) := by
  have accepted : ((opened h u).beginHost (u.authority ++ u.rest) expected).2 = true ↔
      ∀ text ∈ expected, text = u.scheme := by
    have protocol : ((opened h u).beginHost (u.authority ++ u.rest) expected).1.protocol =
        u.scheme :=
      (getPort_protocol _ _).trans (getAuthorization_protocol _ _)
    have scheme : cstr u.scheme = u.scheme := by
      refine cstr_of_not_mem ?_
      rw [Url.scheme]
      split <;> decide
    change (!expected.any fun text => !WString.equalsText ((opened h u).beginHost
      (u.authority ++ u.rest) expected).1.protocol text) = true ↔ _
    rw [protocol]
    cases expected with
    | none => simp
    | some text => simp [equalsText, scheme, eq_comm]
  rw [Parsed, beginInternal_text, accepted, ← beginInternal_text]
  refine and_congr_right fun _ => ?_
  constructor
  · rintro ⟨host, -, authorization, uri⟩
    have slash : ∀ c ∈ u.rest.head?, c = 0x2f := by
      rw [← uri, beginInternal_text]
      exact beginHost_uri _ _ _
    have noColon : 0x3a ∉ u.host := by
      intro colon
      rw [beginInternal_text, beginHost_split _ u slash expected, getAuthorization_authority]
        at host
      exact getPort_colon _ colon _ u.zero_not_mem_host host
    refine ⟨slash, noColon, fun info => ?_⟩
    rw [beginInternal_parts h u slash noColon expected, Url.authorization, info] at authorization
    exact authorization
  · rintro ⟨slash, noColon, fresh⟩
    rw [beginInternal_parts h u slash noColon expected]
    refine ⟨rfl, rfl, ?_, rfl⟩
    rw [Url.authorization]
    cases info : u.userinfo with
    | none => exact fresh info
    | some user => rfl

/-- The user information of one URL is sent to the host of the next. -/
theorem url_keeps_authorization :
    let first : Url :=
      { https := false, userinfo := some (ofString "u:p"), host := ofString "a", port := none,
        rest := ofString "/", userinfo_plain := by rintro user ⟨⟩; decide +kernel,
        host_plain := by decide +kernel, port_digits := by rintro digits ⟨⟩,
        port_range := by rintro digits ⟨⟩, rest_begins := by rintro c ⟨⟩; decide }
    let second : Url :=
      { https := false, userinfo := none, host := ofString "b", port := none,
        rest := ofString "/", userinfo_plain := by rintro user ⟨⟩, host_plain := by decide +kernel,
        port_digits := by rintro digits ⟨⟩, port_range := by rintro digits ⟨⟩,
        rest_begins := by rintro c ⟨⟩; decide }
    let h := (HTTPClient.beginInternal {} first.text none).1
    let result := h.beginInternal second.text none
    result.1.host = ofString "b" ∧ result.1.base64Authorization = ofString "dTpw" ∧
      ¬ Parsed second result := by
  intro first second h result
  have stale : result.1.base64Authorization = ofString "dTpw" := by decide
  refine ⟨by decide, stale, ?_⟩
  rintro ⟨-, -, -, authorization, -⟩
  rw [stale] at authorization
  exact absurd authorization (by decide)

end Esp8266.Source.HttpClient
