import Esp8266.Lib.Word32
import Esp8266.Source.WString

/-!
# Certificate store

libraries/ESP8266WiFi/src/CertStoreBearSSL.cpp:46-221. The hash of the name in a certificate is a
function of the certificate's bytes, and a list of certificates is the bytes it is made of. What
the heap and the file system provide is a parameter: memory may be short at every call, and the
index may take only a part of what is written to it. The archive and the index are two files.
-/
set_option autoImplicit false

namespace Esp8266.Source.CertStore
open Esp8266.Lib.Word32 Esp8266.Lib.Decimal Esp8266.Source.WString

/-- A SHA-256. -/
abbrev Hash := { bytes : List UInt8 // bytes.length = 32 }

/-- The content of a file; its size is a `size_t`. -/
abbrev Content := { bytes : List UInt8 // bytes.length < 2 ^ 32 }

/-- A file that is read. -/
structure File where
  content : List UInt8
  position : Nat

namespace File

def read (f : File) (size : Nat) : List UInt8 × File :=
  let bytes := (f.content.drop f.position).take size
  (bytes, { f with position := f.position + bytes.length })

/-- `seek` from the beginning; a position behind the end is refused. -/
def seek (f : File) (pos : Nat) : Option File :=
  if pos ≤ f.content.length then some { f with position := pos } else none

/-- A reader that knows what it got knows where the file stands. -/
theorem read_eq {f : File} {size : Nat} {bytes : List UInt8} (got : (f.read size).1 = bytes) :
    f.read size = (bytes, ⟨f.content, f.position + bytes.length⟩) := by
  rw [← got]
  rfl

/-- The bytes in front of the end. -/
def left (f : File) : Nat := f.content.length - f.position

theorem length_read (f : File) (size : Nat) : (f.read size).1.length = min size f.left := by
  rw [read, List.length_take, List.length_drop, left]

/-- What a reader got stands in the file. -/
theorem le_of_read {f : File} {size : Nat} (positive : 0 < size)
    (full : (f.read size).1.length = size) : f.position + size ≤ f.content.length := by
  rw [length_read] at full
  unfold left at full
  omega

end File

/-- An entry of the index. -/
structure CertInfo where
  sha256 : Hash
  offset : Nat
  length : Nat
  deriving DecidableEq

namespace CertInfo

/-- The entry in memory, 40 bytes of it. -/
def bytes (ci : CertInfo) : List UInt8 :=
  ci.sha256.1 ++ wordBytes ci.offset ++ wordBytes ci.length

def wordAt (bytes : List UInt8) (i : Nat) : Nat :=
  wordOf (bytes.getD i 0) (bytes.getD (i + 1) 0) (bytes.getD (i + 2) 0) (bytes.getD (i + 3) 0)

/-- The entry that is read from 40 bytes. -/
def ofBytes (bytes : List UInt8) (full : bytes.length = 40) : CertInfo where
  sha256 := ⟨bytes.take 32, by rw [List.length_take, full]; rfl⟩
  offset := wordAt bytes 32
  length := wordAt bytes 36

end CertInfo

/-- What the heap and the file system have when the store is initialised. -/
structure Env where
  /-- Memory for the names of the files. -/
  names : Bool
  /-- The index can be opened. -/
  index : Bool
  /-- The archive, if it can be opened. -/
  archive : Option Content
  /-- Memory for a member of this length, whose data is at the offset. -/
  raw : Nat → Nat → Bool
  /-- Memory for the contexts of the decoder, at the offset. -/
  contexts : Nat → Bool
  /-- How much of the n-th entry the index takes. -/
  taken : Nat → Nat
  /-- The hash of the name in a certificate. -/
  hashedDn : List UInt8 → Hash
  /-- The RAM is smaller than the positive numbers of an `int`. -/
  small : ∀ offset length, raw offset length = true → length < 2 ^ 31

def zeroHash : Hash := ⟨List.replicate 32 0, rfl⟩

def preprocessCert (env : Env) (length offset : Nat) (raw : List UInt8) : CertInfo :=
  if env.contexts offset then ⟨env.hashedDn raw, offset, length⟩ else ⟨zeroHash, 0, 0⟩

/-- `sscanf` with `%d`: nothing without a digit, and the nearest `int` for a number out of range. -/
def sscanfInt (s : WString) : Option Int :=
  let t := s.dropWhile fun c => IsSpace c
  let negative := t.head? = some 0x2d
  let digits :=
    (if negative ∨ t.head? = some 0x2b then t.tail else t).takeWhile fun c => IsDigit c
  if digits = [] then none
  else if negative then some (max (-value digits) (-2 ^ 31))
  else some (min (value digits) (2 ^ 31 - 1))

/-- The length in a header, whose byte 58 is made the end of the text. -/
def headerLength (fileHeader : List UInt8) : Option Nat :=
  (sscanfInt (cstr ((fileHeader.drop 48).take 10))).map fun length => (length % 2 ^ 32).toNat

/-- The name begins with `//`. -/
def Renames (fileHeader : List UInt8) : Prop :=
  fileHeader.getD 0 0 = 0x2f ∧ fileHeader.getD 1 0 = 0x2f

instance (fileHeader : List UInt8) : Decidable (Renames fileHeader) :=
  inferInstanceAs (Decidable (_ ∧ _))

/-- The variables of the loop over the members, and the bytes of the index. -/
structure Indexing where
  data : File
  offset : Nat
  count : Nat
  index : List UInt8

namespace Indexing

/-- The end of a turn: the member is passed, and the padding byte behind an odd one. -/
def pass (s : Indexing) (length : Nat) : Indexing :=
  let s := { s with offset := add32 s.offset length }
  if s.offset % 2 = 1 then { s with data := (s.data.read 1).2, offset := add32 s.offset 1 } else s

/-- A turn of the loop; `none` with it where the loop is left. -/
def turn (env : Env) (s : Indexing) : Indexing × Bool :=
  let (fileHeader, data) := s.data.read 60
  if fileHeader.length ≠ 60 then ({ s with data }, false)
  else
    let s := { s with data, offset := add32 s.offset 60 }
    match headerLength fileHeader with
    | none => (s, false)
    | some length =>
      if length = 0 then (s, false)
      else if env.raw s.offset length = false then (s, false)
      else
        let (raw, data) := s.data.read length
        if raw.length ≠ length then ({ s with data }, false)
        else if Renames fileHeader then (pass { s with data } length, true)
        else
          let entry := (preprocessCert env length s.offset raw).bytes
          let s := { s with data, index := s.index ++ entry.take (env.taken s.count) }
          if env.taken s.count < entry.length then (s, false)
          else (pass { s with count := s.count + 1 } length, true)

/-- The state in which a member of this length has been read. -/
def behind (s : Indexing) (length : Nat) : Indexing :=
  { s with data := { s.data with position := s.data.position + 60 + length },
           offset := add32 s.offset 60 }

/-- A member that is read whole in front of the file. -/
structure Found (env : Env) (s : Indexing) (fileHeader raw : List UInt8) : Prop where
  full : fileHeader.length = 60
  positive : raw ≠ []
  header : (s.data.read 60).1 = fileHeader
  length : headerLength fileHeader = some raw.length
  memory : env.raw (add32 s.offset 60) raw.length = true
  data : ((s.data.read 60).2.read raw.length).1 = raw

theorem turn_found {env : Env} {s : Indexing} {fileHeader raw : List UInt8}
    (found : Found env s fileHeader raw) :
    turn env s =
      let s' := s.behind raw.length
      let entry := (preprocessCert env raw.length s'.offset raw).bytes
      let stored := { s' with index := s.index ++ entry.take (env.taken s.count) }
      if Renames fileHeader then (pass s' raw.length, true)
      else if env.taken s.count < entry.length then (stored, false)
      else (pass { stored with count := s.count + 1 } raw.length, true) := by
  have header := File.read_eq found.header
  have length : raw.length ≠ 0 := fun none => found.positive (List.length_eq_zero_iff.1 none)
  have data := found.data
  rw [header] at data
  have read := File.read_eq data
  simp only [turn, header, found.full, found.length, length, found.memory, Bool.true_eq_false,
    ne_eq, not_true_eq_false, if_false] at read ⊢
  simp only [read, not_true_eq_false, if_false]
  rfl

/-- The loop is left where no member is read. -/
theorem turn_left {env : Env} {s : Indexing}
    (none : ∀ fileHeader raw, ¬Found env s fileHeader raw) :
    (turn env s).2 = false ∧ (turn env s).1.index = s.index ∧ (turn env s).1.count = s.count := by
  obtain ⟨fileHeader, first⟩ : ∃ fileHeader, (s.data.read 60).1 = fileHeader := ⟨_, rfl⟩
  have header := File.read_eq first
  by_cases full : fileHeader.length = 60
  · cases same : headerLength fileHeader with
    | none => simp only [turn, header, full, same, ne_eq, not_true_eq_false, if_false, and_self]
    | some length =>
      by_cases zero : length = 0
      · simp only [turn, header, full, same, zero, ne_eq, not_true_eq_false, if_false, if_true,
          and_self]
      · cases memory : env.raw (add32 s.offset 60) length with
        | false =>
          simp only [turn, header, full, same, zero, memory, ne_eq, not_true_eq_false, if_false,
            if_true, and_self]
        | true =>
          obtain ⟨raw, second⟩ : ∃ raw, ((s.data.read 60).2.read length).1 = raw := ⟨_, rfl⟩
          rw [header, full] at second
          have read := File.read_eq second
          by_cases whole : raw.length = length
          · refine absurd ⟨full, ?_, first, ?_, ?_, ?_⟩ (none fileHeader raw)
            · rintro rfl
              exact zero whole.symm
            · rw [whole]
              exact same
            · rw [whole]
              exact memory
            · rw [header, full, whole]
              exact second
          · simp only [turn, header, full, same, zero, memory, read, whole, Bool.true_eq_false,
              ne_eq, not_true_eq_false, not_false_eq_true, if_false, if_true, and_self]
  · simp only [turn, header, full, ne_eq, not_false_eq_true, if_true, and_self]

theorem Found.le {env : Env} {s : Indexing} {fileHeader raw : List UInt8}
    (found : Found env s fileHeader raw) :
    s.data.position + 60 + raw.length ≤ s.data.content.length := by
  have data := found.data
  rw [File.read_eq found.header, found.full] at data
  exact File.le_of_read (List.length_pos_iff.2 found.positive) (congrArg List.length data)

theorem pass_data (s : Indexing) (length : Nat) :
    (s.pass length).data.content = s.data.content ∧
      s.data.position ≤ (s.pass length).data.position := by
  simp only [pass]
  split
  · exact ⟨rfl, Nat.le_add_right _ _⟩
  · exact ⟨rfl, Nat.le_refl _⟩

/-- A turn behind which the loop goes on has read from the file. -/
theorem left_turn {env : Env} {s : Indexing} (goes : (turn env s).2 = true) :
    (turn env s).1.data.left < s.data.left := by
  by_cases some : ∃ fileHeader raw, Found env s fileHeader raw
  · obtain ⟨fileHeader, raw, found⟩ := some
    have inside := found.le
    have passed : ∀ s' : Indexing, s'.data = (s.behind raw.length).data →
        (s'.pass raw.length).data.left < s.data.left := by
      intro s' same
      obtain ⟨content, position⟩ := pass_data s' raw.length
      rw [same] at content position
      unfold behind at content position
      unfold File.left
      rw [content]
      dsimp only at position ⊢
      omega
    rw [turn_found found] at goes ⊢
    dsimp only at goes ⊢
    split
    · exact passed _ rfl
    · rename_i name
      rw [if_neg name] at goes
      split
      · rename_i short
        rw [if_pos short] at goes
        cases goes
      · exact passed _ rfl
  · push Not at some
    rw [(turn_left some).1] at goes
    cases goes

/-- The loop over the members, which ends with the file. -/
def loop (env : Env) (s : Indexing) : Indexing :=
  if (turn env s).2 then loop env (turn env s).1 else (turn env s).1
termination_by s.data.left
decreasing_by exact left_turn ‹_›

end Indexing

/-- The eight bytes `!<arch>` and a new line. -/
def magic : List UInt8 := [0x21, 0x3c, 0x61, 0x72, 0x63, 0x68, 0x3e, 0x0a]

end Esp8266.Source.CertStore
