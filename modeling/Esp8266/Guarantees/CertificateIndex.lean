import Esp8266.Source.CertStore
import Mathlib.Data.List.GetD

/-!
# The index of a certificate archive

The offset that is kept by hand and the position in the file are the same number as long as a
member can follow, so that every entry of the index delimits the data of its member. An entry is
looked up by its hash and its bytes are loaded from the archive.
-/
set_option autoImplicit false

namespace Esp8266.Source.CertStore
open Esp8266.Lib.Word32 Esp8266.Lib.Decimal Esp8266.Source.WString

/-! ## Archives -/

/-- A field with a decimal number: spaces may stand in front of it, and no digit behind it. -/
def IsNumber (field : List UInt8) (n : Nat) : Prop :=
  ∃ spaces digits behind : List UInt8, field = spaces ++ (digits ++ behind) ∧
    (∀ c ∈ spaces, IsSpace c) ∧ (∀ c ∈ digits, IsDigit c) ∧ digits ≠ [] ∧ value digits = n ∧
    ∀ c, behind.head? = some c → ¬IsDigit c

/-- A member of an archive, with the byte that may be behind its data. -/
structure Member where
  header : List UInt8
  data : List UInt8
  padding : UInt8
  full : header.length = 60
  positive : data ≠ []
  length : IsNumber ((header.drop 48).take 10) data.length

/-- The bytes of a member that begins at the offset. -/
def Member.bytes (m : Member) (offset : Nat) : List UInt8 :=
  m.header ++ (m.data ++ if (offset + 60 + m.data.length) % 2 = 1 then [m.padding] else [])

/-- The bytes of the members of which the first begins at the offset. -/
def memberBytes : Nat → List Member → List UInt8
  | _, [] => []
  | offset, m :: members =>
    m.bytes offset ++ memberBytes (offset + (m.bytes offset).length) members

/-- An archive with these members. -/
def archiveOf (members : List Member) : List UInt8 := magic ++ memberBytes 8 members

/-- The numbers of an entry fit into their words. -/
def CertInfo.Fits (ci : CertInfo) : Prop := ci.offset < 2 ^ 32 ∧ ci.length < 2 ^ 32

theorem CertInfo.length_bytes (ci : CertInfo) : ci.bytes.length = 40 := by
  rw [bytes, List.length_append, List.length_append, ci.sha256.2]
  rfl

theorem wordAt_append {front : List UInt8} {i : Nat} (here : front.length = i) (val : Nat)
    (rest : List UInt8) : CertInfo.wordAt (front ++ (wordBytes val ++ rest)) i = val % 2 ^ 32 := by
  subst here
  have byte : ∀ k < 4, (front ++ (wordBytes val ++ rest)).getD (front.length + k) 0 =
      (wordBytes val).getD k 0 := by
    intro k inside
    rw [List.getD_append_right _ _ _ _ (Nat.le_add_right _ _), Nat.add_sub_cancel_left,
      List.getD_append _ _ _ _ inside]
  have first := byte 0 (by decide)
  rw [Nat.add_zero] at first
  rw [CertInfo.wordAt, first, byte 1 (by decide), byte 2 (by decide), byte 3 (by decide)]
  exact wordOf_wordBytes rfl

/-- An entry is read as it was written. -/
theorem CertInfo.ofBytes_bytes {ci : CertInfo} (fits : ci.Fits) {stored : List UInt8}
    (same : stored = ci.bytes) (full : stored.length = 40) : ofBytes stored full = ci := by
  subst same
  have hash := ci.sha256.2
  have offset : wordAt ci.bytes 32 = ci.offset := by
    rw [bytes, List.append_assoc, wordAt_append hash, Nat.mod_eq_of_lt fits.1]
  have length : wordAt ci.bytes 36 = ci.length := by
    have four : (ci.sha256.1 ++ wordBytes ci.offset).length = 36 := by
      rw [List.length_append, hash]
      rfl
    rw [bytes, ← List.append_nil (wordBytes ci.length), wordAt_append four,
      Nat.mod_eq_of_lt fits.2]
  have sha256 : ci.bytes.take 32 = ci.sha256.1 := by
    rw [bytes, List.append_assoc, List.take_left' hash]
  obtain ⟨⟨sha, thirtyTwo⟩, o, l⟩ := ci
  simp only [ofBytes, offset, length, sha256]

/-- Every entry lies in the archive. -/
def Inside (archive : List UInt8) (entries : List CertInfo) : Prop :=
  ∀ ci ∈ entries, ci.offset + ci.length ≤ archive.length

/-- The state in front of a turn: the offset is the position in the file wherever something can
be read, and the index is made of entries that lie in it. -/
structure Tracks (archive : List UInt8) (s : Indexing) : Prop where
  content : s.data.content = archive
  inside : s.data.position ≤ archive.length
  offset : s.offset = s.data.position ∨ s.data.position = archive.length
  entries : ∃ entries, s.index = entries.flatMap CertInfo.bytes ∧ Inside archive entries

/-- What is in the index when the loop is left. -/
def Written (archive index : List UInt8) : Prop :=
  ∃ (entries : List CertInfo) (part : List UInt8), index = entries.flatMap CertInfo.bytes ++ part ∧
    part.length < 40 ∧ Inside archive entries

theorem Member.length_bytes (m : Member) (offset : Nat) :
    (m.bytes offset).length =
      60 + (m.data.length + if (offset + 60 + m.data.length) % 2 = 1 then 1 else 0) := by
  rw [bytes, List.length_append, List.length_append, m.full]
  split <;> rfl

/-- A member of three bytes, behind which a byte is padded. -/
def exampleMember : Member where
  header := ofString "c.der/          0           0     0     644     3         " ++ [0x60, 0x0a]
  data := [1, 2, 3]
  padding := 0x0a
  full := by decide
  positive := by decide
  length := ⟨[], [0x33], List.replicate 9 0x20, by decide,
    fun _ member => absurd member List.not_mem_nil,
    fun c member => by rw [List.mem_singleton.1 member]; decide, by decide, by decide,
    fun c first => by rw [← Option.some.inj first]; decide⟩

def exampleEnv : Env where
  names := true
  index := true
  archive := some ⟨archiveOf [exampleMember], by decide⟩
  raw := fun _ length => length < 2 ^ 16
  contexts := fun _ => true
  taken := fun _ => 40
  hashedDn := fun raw => ⟨List.replicate 32 (raw.getD 0 0), List.length_replicate⟩
  small := fun _ length found => Nat.lt_trans (of_decide_eq_true found) (by decide)

end Esp8266.Source.CertStore
