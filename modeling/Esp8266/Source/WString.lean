import Esp8266.Lib.Decimal
import Mathlib.Data.List.Basic

/-!
# Strings

cores/esp8266/WString.cpp, as far as the parsers use it. A `String` is its bytes, NUL bytes
included; functions of C that work on its buffer stop at the first of these. Lengths are those
of allocated memory, so that an index fits into an `int`.
-/
set_option autoImplicit false

namespace Esp8266.Source
open Esp8266.Lib.Decimal

abbrev WString := List UInt8

/-- ASCII `tolower`, as `strcasecmp` uses it. -/
def toLower (c : UInt8) : UInt8 := if 0x41 ≤ c ∧ c ≤ 0x5a then c + 0x20 else c

/-- `isspace` of the C locale. -/
def IsSpace (c : UInt8) : Prop := c = 0x20 ∨ (0x09 ≤ c ∧ c ≤ 0x0d)

instance (c : UInt8) : Decidable (IsSpace c) := inferInstanceAs (Decidable (_ ∨ _))

namespace WString

/-- The bytes of an ASCII text. -/
def ofString (s : String) : WString := s.toList.map fun c => UInt8.ofNat c.toNat

/-- What a function of C sees of the bytes. -/
def cstr (s : WString) : WString := s.takeWhile (· ≠ 0)

/-- `operator[]` of a constant string. -/
def charAt (s : WString) (index : Nat) : UInt8 := s.getD index 0

/-- `indexOf` of a character; `strchr` finds the NUL at the end as well. -/
def indexOf (s : WString) (ch : UInt8) (fromIndex : Nat) : Int :=
  if s.length ≤ fromIndex then -1
  else
    match (cstr (s.drop fromIndex) ++ [0]).idxOf? ch with
    | some i => fromIndex + i
    | none => -1

/-- An `int` that is passed as the right end of a substring: a negative one is larger, as
`unsigned int`, than every length. -/
def rightEnd (s : WString) (index : Int) : Nat := if index < 0 then s.length else index.toNat

@[simp] theorem rightEnd_natCast (s : WString) (n : Nat) : rightEnd s n = n := by
  rw [rightEnd, if_neg (by omega), Int.toNat_natCast]

@[simp] theorem rightEnd_neg_one (s : WString) : rightEnd s (-1) = s.length := rfl

def substring (s : WString) (left right : Nat) : WString :=
  let (left, right) := if right < left then (right, left) else (left, right)
  if s.length ≤ left then [] else cstr ((s.take right).drop left)

/-- `strstr`: where the first occurrence of `needle` begins. -/
def strstr (needle : WString) : WString → Option Nat
  | [] => if needle = [] then some 0 else none
  | c :: rest =>
    if needle.isPrefixOf (c :: rest) then some 0 else (strstr needle rest).map (· + 1)

/-- `indexOf` of a string. -/
def indexOfString (s s2 : WString) (fromIndex : Nat) : Int :=
  if s.length ≤ fromIndex then -1
  else
    match strstr (cstr s2) (cstr (s.drop fromIndex)) with
    | some i => fromIndex + i
    | none => -1

/-- `remove`; a count that is too large goes to the end. -/
def remove (s : WString) (index count : Nat) : WString := s.take index ++ s.drop (index + count)

/-- `operator==` of two strings. -/
def equals (s s2 : WString) : Bool := s.length = s2.length ∧ cstr s = cstr s2

/-- `operator==` with a text of C. -/
def equalsText (s text : WString) : Bool := cstr s = text

/-- The loop stops at the first NUL of `s`. -/
def equalsIgnoreCase (s s2 : WString) : Bool :=
  s.length = s2.length ∧ (cstr s).map toLower = (s2.take (cstr s).length).map toLower

/-- `trim`, with `isspace` of the C locale. -/
def trim (s : WString) : WString :=
  let isSpace := fun c : UInt8 => c = 0x20 ∨ (0x09 ≤ c ∧ c ≤ 0x0d)
  ((s.dropWhile fun c => isSpace c).reverse.dropWhile fun c => isSpace c).reverse

/-- `equalsConstantTime`; the loop stops at the first NUL of `s`. -/
def equalsConstantTime (s s2 : WString) : Bool :=
  if s.length ≠ s2.length then false
  else if s.length = 0 then true
  else
    let pairs := s.cstr.zip s2
    decide (pairs.countP (fun p => p.1 = p.2) = s.length) &&
      decide (pairs.countP (fun p => p.1 ≠ p.2) = 0)

/-- `startsWith`, for a prefix without NUL. -/
def startsWith (s s2 : WString) : Bool := s2.isPrefixOf s

/-- `atol`: a number out of range gives the nearest `long`. -/
def toInt (s : WString) : Int :=
  let number := (cstr s).dropWhile fun c => IsSpace c
  let digits := fun t : WString => (value (t.takeWhile fun c => IsDigit c) : Int)
  match number with
  | 0x2d :: t => max (-digits t) (-2 ^ 31)
  | 0x2b :: t => min (digits t) (2 ^ 31 - 1)
  | t => min (digits t) (2 ^ 31 - 1)

/-! ## What the functions find -/

/-- A literal as a list of bytes, which is faster to compute with than the string. -/
theorem ofString_ofList (chars : List Char) :
    ofString (String.ofList chars) = chars.map fun c => UInt8.ofNat c.toNat := by
  rw [ofString, String.toList_ofList]

theorem ofString_append (s t : String) : ofString (s ++ t) = ofString s ++ ofString t := by
  rw [ofString, String.toList_append, List.map_append]
  rfl

theorem cstr_append_of_not_mem {s : WString} (plain : 0 ∉ s) (t : WString) :
    cstr (s ++ t) = s ++ cstr t := by
  induction s with
  | nil => rfl
  | cons c rest ih =>
    rw [List.mem_cons, not_or] at plain
    rw [List.cons_append, cstr, List.takeWhile_cons_of_pos (by simpa using Ne.symm plain.1)]
    exact congrArg (c :: ·) (ih plain.2)

theorem cstr_of_not_mem {s : WString} (plain : 0 ∉ s) : cstr s = s := by
  have := cstr_append_of_not_mem plain []
  simpa [cstr] using this

theorem not_mem_cstr (s : WString) : 0 ∉ cstr s := by
  intro mem
  have := List.all_takeWhile (p := fun c : UInt8 => decide (c ≠ 0)) (l := s)
  simpa using List.all_eq_true.mp this 0 mem

/-- The bytes are those before the first NUL, and a rest that begins with it. -/
theorem cstr_append (s : WString) :
    (cstr s = s ∧ 0 ∉ s) ∨ ∃ t, s = cstr s ++ 0 :: t := by
  induction s with
  | nil => exact .inl ⟨rfl, List.not_mem_nil⟩
  | cons c rest ih =>
    by_cases zero : c = 0
    · subst zero
      exact .inr ⟨rest, rfl⟩
    · have step : cstr (c :: rest) = c :: cstr rest :=
        List.takeWhile_cons_of_pos (by simpa using zero)
      rw [step]
      rcases ih with ⟨whole, plain⟩ | ⟨t, split⟩
      · left
        rw [whole]
        exact ⟨rfl, by simp [Ne.symm zero, plain]⟩
      · right
        exact ⟨t, congrArg (c :: ·) split⟩

theorem cstr_append_zero (s t : WString) : cstr (s ++ 0 :: t) = cstr s := by
  rcases cstr_append s with ⟨whole, plain⟩ | ⟨u, split⟩
  · rw [cstr_append_of_not_mem plain, whole]
    exact List.append_nil s
  · conv_lhs => rw [split]
    rw [List.append_assoc, cstr_append_of_not_mem (not_mem_cstr s)]
    exact List.append_nil (cstr s)

theorem cstr_take (s : WString) (n : Nat) : cstr (s.take n) = (cstr s).take n := by
  induction s generalizing n with
  | nil => rw [List.take_nil, cstr, List.takeWhile_nil, List.take_nil]
  | cons c rest ih =>
    cases n with
    | zero => rfl
    | succ n =>
      rw [List.take_succ_cons]
      by_cases zero : c = 0
      · rw [cstr, cstr, List.takeWhile_cons_of_neg (by simpa using zero),
          List.takeWhile_cons_of_neg (by simpa using zero), List.take_nil]
      · rw [cstr, cstr, List.takeWhile_cons_of_pos (by simpa using zero),
          List.takeWhile_cons_of_pos (by simpa using zero), List.take_succ_cons]
        exact congrArg (c :: ·) (ih n)

theorem charAt_append (s t : WString) : charAt (s ++ t) s.length = t.headD 0 := by
  cases t with
  | nil => simp [charAt]
  | cons c rest => simp [charAt]

theorem indexOf_found (s u v : WString) {ch : UInt8} (plain : 0 ∉ u) (first : ch ∉ u) (ch_ne : ch ≠ 0) :
    indexOf (s ++ (u ++ ch :: v)) ch s.length = (s.length + u.length : Nat) := by
  have short : ¬ (s ++ (u ++ ch :: v)).length ≤ s.length := by
    simp only [List.length_append, List.length_cons]
    omega
  have seen : cstr (u ++ ch :: v) ++ [0] = u ++ ch :: (cstr v ++ [0]) := by
    rw [cstr_append_of_not_mem plain, cstr, List.takeWhile_cons_of_pos (by simpa using ch_ne),
      List.append_assoc, List.cons_append, cstr]
  have found : (u ++ ch :: (cstr v ++ [0])).idxOf? ch = some u.length := by
    clear seen short
    induction u with
    | nil => simp [List.idxOf?_cons]
    | cons c rest ih =>
      rw [List.mem_cons, not_or] at plain first
      rw [List.cons_append, List.idxOf?_cons, ih plain.2 first.2]
      simp [Ne.symm first.1]
  rw [indexOf, if_neg short, List.drop_left, seen, found]
  rfl

theorem indexOf_absent (s t : WString) {ch : UInt8} (absent : ch ∉ cstr t) (ch_ne : ch ≠ 0) :
    indexOf (s ++ t) ch s.length = -1 := by
  rw [indexOf]
  split
  · rfl
  · have none : (cstr t ++ [0]).idxOf? ch = none := by
      rw [List.idxOf?_eq_none_iff, List.mem_append, not_or]
      exact ⟨absent, by simpa using ch_ne⟩
    rw [List.drop_left, none]

/-- A character that is not in `u` is found behind it or nowhere. -/
theorem indexOf_beyond (s u t : WString) {ch : UInt8} (plain : 0 ∉ u) (absent : ch ∉ u)
    (ch_ne : ch ≠ 0) : indexOf (s ++ (u ++ t)) ch s.length = -1 ∨
      ((s.length + u.length : Nat) : Int) ≤ indexOf (s ++ (u ++ t)) ch s.length := by
  by_cases mem : ch ∈ cstr t
  · right
    obtain ⟨a, b, split, first⟩ := List.eq_append_cons_of_mem mem
    obtain ⟨stop, whole⟩ : ∃ stop, t = cstr t ++ stop := by
      rcases cstr_append t with ⟨same, _⟩ | ⟨stop, split⟩
      · exact ⟨[], by rw [same, List.append_nil]⟩
      · exact ⟨_, split⟩
    have clean : 0 ∉ a := by
      intro zero
      exact not_mem_cstr t (by rw [split]; exact List.mem_append_left _ zero)
    have there : s ++ (u ++ t) = s ++ ((u ++ a) ++ ch :: (b ++ stop)) := by
      rw [whole, split]
      simp only [List.append_assoc, List.cons_append]
    rw [there, indexOf_found s (u ++ a) (b ++ stop) (by simp [plain, clean])
      (by simp [absent, first]) ch_ne, List.length_append]
    omega
  · left
    refine indexOf_absent s (u ++ t) ?_ ch_ne
    rw [cstr_append_of_not_mem plain, List.mem_append, not_or]
    exact ⟨absent, mem⟩

/-- The part `t` that lies behind `s`. -/
theorem substring_append (s t u : WString) (plain : 0 ∉ t) :
    substring (s ++ (t ++ u)) s.length (s.length + t.length) = t := by
  have ordered : ¬ s.length + t.length < s.length := by omega
  rw [substring, if_neg ordered]
  dsimp only
  rw [← List.append_assoc, List.take_left' (by rw [List.length_append]), List.drop_left]
  split
  · rename_i short
    simp only [List.length_append] at short
    have : t = [] := List.eq_nil_of_length_eq_zero (by omega)
    rw [this]
  · exact cstr_of_not_mem plain

theorem substring_end (s t : WString) :
    substring (s ++ t) s.length (s ++ t).length = cstr t := by
  have ordered : ¬ (s ++ t).length < s.length := by
    rw [List.length_append]
    omega
  rw [substring, if_neg ordered]
  dsimp only
  rw [List.take_length, List.drop_left]
  split
  · rename_i short
    simp only [List.length_append] at short
    have : t = [] := List.eq_nil_of_length_eq_zero (by omega)
    rw [this]
    rfl
  · rfl

end WString
end Esp8266.Source
