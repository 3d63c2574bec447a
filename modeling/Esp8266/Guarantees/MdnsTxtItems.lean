import Esp8266.Guarantees.MdnsDomains

/-!
# Items of TXT records

A string of the record is split at the next equal sign, which is looked for without regard to the
end of the string or of the record; a string without characters empties the list of what was read
before. As long as all strings are complete, with an equal sign of their own and no NUL, the items
are those of the record.
-/
set_option autoImplicit false

namespace Esp8266.Source.MdnsTransfer
open Esp8266.Lib.Labels Esp8266.Source.WString

/-! ## Records -/

def equalSign : UInt8 := 0x3d

/-- The strings of a record, as far as they are complete. -/
def txtStrings : Nat → List UInt8 → List (List UInt8)
  | 0, _ => []
  | _ + 1, [] => []
  | fuel + 1, length :: rest =>
    if length.toNat ≤ rest.length then
      rest.take length.toNat :: txtStrings fuel (rest.drop length.toNat)
    else []

/-- A value that has no characters is none. -/
def valueOf (value : List UInt8) : Option WString := if value = [] then none else some value

/-- A string at its first equal sign. -/
def splitString (s : List UInt8) : ServiceTxt where
  key := s.takeWhile (· ≠ equalSign)
  value := valueOf ((s.dropWhile (· ≠ equalSign)).drop 1)

/-- The items of a record: those of its strings that have an equal sign. -/
def txtItems (fuel : Nat) (rdata : List UInt8) : List ServiceTxt :=
  ((txtStrings fuel rdata).filter (equalSign ∈ ·)).map splitString

theorem splitString_eq {key : List UInt8} (solid : equalSign ∉ key) (value : List UInt8) :
    splitString (key ++ equalSign :: value) = ⟨key, valueOf value⟩ := by
  have all : ∀ c ∈ key, decide (c ≠ equalSign) = true := fun c mem =>
    decide_eq_true fun same => solid (same ▸ mem)
  have front : (key ++ equalSign :: value).takeWhile (· ≠ equalSign) = key := by
    rw [List.takeWhile_append_of_pos all]
    exact List.append_nil key
  have behind : (key ++ equalSign :: value).dropWhile (· ≠ equalSign) = equalSign :: value := by
    rw [List.dropWhile_append_of_pos all]
    rfl
  rw [splitString, front, behind]
  rfl

/-! ## The search and the copies -/

/-- What a search comes to: an equal sign, a NUL in front of all, or the end. -/
theorem search (cursor : List UInt8) :
    (∃ text behind, cursor = text ++ equalSign :: behind ∧ equalSign ∉ text ∧ 0 ∉ text) ∨
      (∃ text behind, cursor = text ++ 0 :: behind ∧ equalSign ∉ text ∧ 0 ∉ text) ∨
      (equalSign ∉ cursor ∧ 0 ∉ cursor) := by
  induction cursor with
  | nil => exact .inr (.inr ⟨List.not_mem_nil, List.not_mem_nil⟩)
  | cons c cursor ih =>
    by_cases equal : c = equalSign
    · exact .inl ⟨[], cursor, by rw [equal]; rfl, List.not_mem_nil, List.not_mem_nil⟩
    by_cases zero : c = 0
    · exact .inr (.inl ⟨[], cursor, by rw [zero]; rfl, List.not_mem_nil, List.not_mem_nil⟩)
    have further : ∀ {text : List UInt8}, equalSign ∉ text ∧ 0 ∉ text →
        equalSign ∉ c :: text ∧ 0 ∉ c :: text := fun solid =>
      ⟨fun mem => (List.mem_cons.mp mem).elim (fun same => equal same.symm) solid.1,
        fun mem => (List.mem_cons.mp mem).elim (fun same => zero same.symm) solid.2⟩
    rcases ih with ⟨text, behind, rfl, solid⟩ | ⟨text, behind, rfl, solid⟩ | solid
    · exact .inl ⟨c :: text, behind, rfl, further solid⟩
    · exact .inr (.inl ⟨c :: text, behind, rfl, further solid⟩)
    · exact .inr (.inr (further solid))

section

variable {text : List UInt8} (noEqual : equalSign ∉ text) (noZero : 0 ∉ text)

include noEqual noZero

theorem findEqual_append (behind : List UInt8) :
    findEqual (text ++ behind) =
      (findEqual behind).map fun found => found.map (· + text.length) := by
  induction text with
  | nil =>
    rw [List.nil_append]
    cases findEqual behind with
    | error fault => rfl
    | ok found => cases found <;> rfl
  | cons c text ih =>
    have equal : c ≠ 0x3d := fun same => noEqual (same ▸ List.mem_cons_self)
    have zero : c ≠ 0 := fun same => noZero (same ▸ List.mem_cons_self)
    rw [List.cons_append, findEqual, if_neg equal, if_neg zero,
      ih (fun mem => noEqual (List.mem_cons_of_mem _ mem))
        (fun mem => noZero (List.mem_cons_of_mem _ mem))]
    cases findEqual behind with
    | error fault => rfl
    | ok found =>
      cases found with
      | none => rfl
      | some i => rfl

theorem findEqual_found (behind : List UInt8) :
    findEqual (text ++ equalSign :: behind) = .ok (some text.length) := by
  rw [findEqual_append noEqual noZero]
  exact congrArg (fun i => Except.ok (some i)) (Nat.zero_add _)

theorem findEqual_zero (behind : List UInt8) : findEqual (text ++ 0 :: behind) = .ok none := by
  rw [findEqual_append noEqual noZero]
  rfl

theorem findEqual_end : findEqual text = .error .outside := by
  have := findEqual_append noEqual noZero []
  rw [List.append_nil] at this
  rw [this]
  rfl

end

/-- A copy ends at a NUL or has its length. -/
theorem strncpy_eq (n : Nat) : ∀ source : List UInt8,
    strncpy n source =
      if n ≤ source.length ∨ 0 ∈ source then .ok (cstr (source.take n)) else .error .outside := by
  induction n with
  | zero =>
    intro source
    rw [if_pos (.inl (Nat.zero_le _))]
    rfl
  | succ n ih =>
    intro source
    cases source with
    | nil => rfl
    | cons c source =>
      rw [strncpy]
      by_cases zero : c = 0
      · rw [if_pos zero, if_pos (.inr (zero ▸ List.mem_cons_self)), zero]
        rfl
      · have same : (n + 1 ≤ (c :: source).length ∨ 0 ∈ c :: source) ↔
            n ≤ source.length ∨ 0 ∈ source := by
          refine or_congr Nat.succ_le_succ_iff ⟨fun mem => ?_, List.mem_cons_of_mem _⟩
          exact (List.mem_cons.mp mem).resolve_left fun first => zero first.symm
        have first : cstr ((c :: source).take (n + 1)) = c :: cstr (source.take n) :=
          List.takeWhile_cons_of_pos (decide_eq_true zero)
        rw [if_neg zero, ih, if_congr same rfl rfl, first]
        split <;> rfl

/-! ## One item -/

/-- The length of a value with so many bytes in front of its equal sign. -/
def valueLength (length : UInt8) (front : Nat) : UInt8 := length - UInt8.ofNat (front + 1)

/-- The copy of a value of this length ends inside of the record. -/
def Inside (length : UInt8) (behind : List UInt8) : Prop :=
  length.toNat ≤ behind.length ∨ 0 ∈ behind

instance (length : UInt8) (behind : List UInt8) : Decidable (Inside length behind) :=
  inferInstanceAs (Decidable (_ ∨ _))

theorem setValue_eq (source : List UInt8) (length : UInt8) :
    setValue source length =
      if Inside length source then
        .ok (if length = 0 then none else some (cstr (source.take length.toNat)))
      else .error .outside := by
  have copied : strncpy length.toNat source =
      if Inside length source then .ok (cstr (source.take length.toNat)) else .error .outside :=
    strncpy_eq _ _
  rw [setValue, copied]
  by_cases zero : length = 0
  · have inside : Inside length source := .inl (by rw [zero]; exact Nat.zero_le _)
    rw [if_pos zero, if_pos inside, if_pos zero]
  · rw [if_neg zero, if_neg zero]
    by_cases inside : Inside length source
    · rw [if_pos inside, if_pos inside]
      rfl
    · rw [if_neg inside, if_neg inside]
      rfl

/-- The item that is made of the bytes in front of an equal sign and of those behind it. -/
def madeTxt (length : UInt8) (text behind : List UInt8) : ServiceTxt where
  key := text.take (text.length % 256)
  value :=
    if valueLength length text.length = 0 then none
    else some (cstr (behind.take (valueLength length text.length).toNat))

theorem toNat_keyLength (n : Nat) : (UInt8.ofNat n).toNat = n % 256 := UInt8.toNat_ofNat'

theorem keyLength_zero_iff (n : Nat) : UInt8.ofNat n = 0 ↔ n % 256 = 0 := by
  rw [← UInt8.toNat_inj, toNat_keyLength]
  rfl

theorem readTxt_found {text : List UInt8} (noEqual : equalSign ∉ text) (noZero : 0 ∉ text)
    (behind : List UInt8) (length : UInt8) :
    readTxt (text ++ equalSign :: behind) length =
      if text.length % 256 = 0 then .ok none
      else if Inside (valueLength length text.length) behind then
        .ok (some (madeTxt length text behind))
      else .error .outside := by
  rw [readTxt, findEqual_found noEqual noZero]
  change (if UInt8.ofNat text.length = 0 then _ else _) = _
  rw [if_congr (keyLength_zero_iff text.length) rfl rfl]
  by_cases whole : text.length % 256 = 0
  · rw [if_pos whole, if_pos whole]
    rfl
  · rw [if_neg whole, if_neg whole]
    have shorter : text.length % 256 ≤ text.length := Nat.mod_le _ _
    have front : (text ++ equalSign :: behind).take (text.length % 256) =
        text.take (text.length % 256) := List.take_append_of_le_length shorter
    have key : strncpy (UInt8.ofNat text.length).toNat (text ++ equalSign :: behind) =
        .ok (text.take (text.length % 256)) := by
      rw [strncpy_eq, toNat_keyLength, if_pos (.inl (by
        rw [List.length_append]
        omega)), front, cstr_of_not_mem fun mem => noZero (List.mem_of_mem_take mem)]
    have place : text.length + 1 = (text ++ [equalSign]).length := by
      rw [List.length_append, List.length_singleton]
    have rest : (text ++ equalSign :: behind).drop (text.length + 1) = behind := by
      rw [place, show text ++ equalSign :: behind = text ++ [equalSign] ++ behind by
        rw [List.append_assoc]; rfl, List.drop_left]
    rw [key, rest]
    by_cases inside : Inside (valueLength length text.length) behind
    · have value : setValue behind (length - UInt8.ofNat (text.length + 1)) = .ok _ :=
        (setValue_eq behind _).trans (if_pos inside)
      rw [value, if_pos inside]
      rfl
    · have value : setValue behind (length - UInt8.ofNat (text.length + 1)) = .error .outside :=
        (setValue_eq behind _).trans (if_neg inside)
      rw [value, if_neg inside]
      rfl

theorem readTxt_zero {text : List UInt8} (noEqual : equalSign ∉ text) (noZero : 0 ∉ text)
    (behind : List UInt8) (length : UInt8) : readTxt (text ++ 0 :: behind) length = .ok none := by
  rw [readTxt, findEqual_zero noEqual noZero]
  rfl

theorem readTxt_end {cursor : List UInt8} (noEqual : equalSign ∉ cursor) (noZero : 0 ∉ cursor)
    (length : UInt8) : readTxt cursor length = .error .outside := by
  rw [readTxt, findEqual_end noEqual noZero]
  rfl

/-! ## Strings that are refused -/

/-- No equal sign is found for a string, or no key in front of it. -/
def Keyless (cursor : List UInt8) : Prop :=
  ∃ text behind, equalSign ∉ text ∧ 0 ∉ text ∧
    (cursor = text ++ 0 :: behind ∨ cursor = text ++ equalSign :: behind ∧ text.length % 256 = 0)

/-- For a string that is this long a key is found, and a value that ends inside of the record. -/
def Found (length : UInt8) (cursor : List UInt8) : Prop :=
  ∃ text behind, equalSign ∉ text ∧ 0 ∉ text ∧ cursor = text ++ equalSign :: behind ∧
    text.length % 256 ≠ 0 ∧ Inside (valueLength length text.length) behind

/-- A string without key is reached inside of the record. -/
inductive Refused : List UInt8 → Prop
  | here {length : UInt8} {cursor : List UInt8} (full : length ≠ 0) (keyless : Keyless cursor) :
      Refused (length :: cursor)
  | empty {cursor : List UInt8} (rest : Refused cursor) : Refused (0 :: cursor)
  | item {length : UInt8} {cursor : List UInt8} (full : length ≠ 0) (found : Found length cursor)
      (rest : Refused (cursor.drop length.toNat)) : Refused (length :: cursor)

theorem readTxt_keyless {cursor : List UInt8} (keyless : Keyless cursor) (length : UInt8) :
    readTxt cursor length = .ok none := by
  obtain ⟨text, behind, noEqual, noZero, rfl | ⟨rfl, whole⟩⟩ := keyless
  · exact readTxt_zero noEqual noZero behind length
  · rw [readTxt_found noEqual noZero, if_pos whole]

/-- What reading a string comes to. -/
theorem readTxt_cases (length : UInt8) (cursor : List UInt8) :
    (Keyless cursor ∧ readTxt cursor length = .ok none) ∨
      readTxt cursor length = .error .outside ∨
      ∃ text behind, equalSign ∉ text ∧ 0 ∉ text ∧ cursor = text ++ equalSign :: behind ∧
        text.length % 256 ≠ 0 ∧ Inside (valueLength length text.length) behind ∧
        readTxt cursor length = .ok (some (madeTxt length text behind)) := by
  rcases search cursor with ⟨text, behind, rfl, noEqual, noZero⟩ |
    ⟨text, behind, rfl, noEqual, noZero⟩ | ⟨noEqual, noZero⟩
  · have read := readTxt_found noEqual noZero behind length
    by_cases whole : text.length % 256 = 0
    · rw [if_pos whole] at read
      exact .inl ⟨⟨text, behind, noEqual, noZero, .inr ⟨rfl, whole⟩⟩, read⟩
    · rw [if_neg whole] at read
      by_cases inside : Inside (valueLength length text.length) behind
      · rw [if_pos inside] at read
        exact .inr (.inr ⟨text, behind, noEqual, noZero, rfl, whole, inside, read⟩)
      · rw [if_neg inside] at read
        exact .inr (.inl read)
  · exact .inl ⟨⟨text, behind, noEqual, noZero, .inl rfl⟩, readTxt_zero noEqual noZero _ _⟩
  · exact .inr (.inl (readTxt_end noEqual noZero length))

theorem txtLoop_cons (fuel : Nat) {length : UInt8} (full : length ≠ 0) (cursor : List UInt8)
    (txts : List ServiceTxt) :
    txtLoop (fuel + 1) (length :: cursor) txts = (readTxt cursor length >>= fun
      | some txt => txtLoop fuel (cursor.drop length.toNat) (txt :: txts)
      | none => .ok (false, [])) := by
  rw [txtLoop, if_neg full]
  rfl

theorem length_drop_le {length : UInt8} {cursor : List UInt8} {fuel : Nat}
    (enough : (length :: cursor).length ≤ fuel + 1) :
    (cursor.drop length.toNat).length ≤ fuel := by
  rw [List.length_drop]
  exact Nat.le_trans (Nat.sub_le _ _) (Nat.le_of_succ_le_succ enough)

theorem Refused.read {rdata : List UInt8} (refused : Refused rdata) :
    ∀ (fuel : Nat) (txts : List ServiceTxt), rdata.length ≤ fuel →
      txtLoop fuel rdata txts = .ok (false, []) := by
  induction refused with
  | here full keyless =>
    intro fuel txts enough
    obtain ⟨fuel, rfl⟩ := Nat.exists_eq_add_one_of_ne_zero
      (Nat.ne_of_gt (Nat.lt_of_lt_of_le (Nat.succ_pos _) enough))
    rw [txtLoop_cons fuel full, readTxt_keyless keyless]
    rfl
  | empty _ ih =>
    intro fuel txts enough
    obtain ⟨fuel, rfl⟩ := Nat.exists_eq_add_one_of_ne_zero
      (Nat.ne_of_gt (Nat.lt_of_lt_of_le (Nat.succ_pos _) enough))
    rw [txtLoop, if_pos rfl]
    exact ih fuel [] (Nat.le_of_succ_le_succ enough)
  | item full found _ ih =>
    intro fuel txts enough
    obtain ⟨fuel, rfl⟩ := Nat.exists_eq_add_one_of_ne_zero
      (Nat.ne_of_gt (Nat.lt_of_lt_of_le (Nat.succ_pos _) enough))
    obtain ⟨text, behind, noEqual, noZero, rfl, key, inside⟩ := found
    rw [txtLoop_cons fuel full, readTxt_found noEqual noZero, if_neg key, if_pos inside]
    exact ih fuel _ (length_drop_le enough)

/-- The loop fails only at a string that is refused. -/
theorem refused_of_read (fuel : Nat) : ∀ {rdata : List UInt8} {txts txts' : List ServiceTxt},
    rdata.length ≤ fuel → txtLoop fuel rdata txts = .ok (false, txts') → Refused rdata := by
  induction fuel with
  | zero =>
    intro rdata txts txts' enough read
    rw [List.eq_nil_of_length_eq_zero (Nat.le_zero.mp enough)] at read
    cases read
  | succ fuel ih =>
    intro rdata txts txts' enough read
    rcases rdata with _ | ⟨length, cursor⟩
    · cases read
    by_cases zero : length = 0
    · rw [txtLoop, if_pos zero] at read
      rw [zero]
      exact .empty (ih (Nat.le_of_succ_le_succ enough) read)
    · rw [txtLoop_cons fuel zero] at read
      rcases readTxt_cases length cursor with ⟨keyless, -⟩ | outside |
        ⟨text, behind, noEqual, noZero, rfl, key, inside, made⟩
      · exact .here zero keyless
      · rw [outside] at read
        cases read
      · rw [made] at read
        exact .item zero ⟨text, behind, noEqual, noZero, rfl, key, inside⟩
          (ih (length_drop_le enough) read)

/-! ## Complete strings -/

/-- A string with a key, an equal sign and no NUL. -/
def Proper (s : List UInt8) : Prop :=
  s.length < 256 ∧ ∃ key value, s = key ++ equalSign :: value ∧ key ≠ [] ∧ equalSign ∉ key ∧
    0 ∉ key ∧ 0 ∉ value

/-- Empty strings, and behind them strings that are complete and proper. -/
def Plain (rdata : List UInt8) : Prop :=
  ∃ (k : Nat) (strings : List (List UInt8)),
    rdata = List.replicate k 0 ++ wire strings ∧ ∀ s ∈ strings, Proper s

theorem toNat_valueLength {key value : List UInt8}
    (short : (key ++ equalSign :: value).length < 256) :
    (valueLength (UInt8.ofNat (key ++ equalSign :: value).length) key.length).toNat =
      value.length := by
  rw [List.length_append, List.length_cons] at short ⊢
  rw [valueLength, UInt8.toNat_sub, toNat_keyLength, toNat_keyLength]
  omega

/-- What is made of a string with an equal sign: its value ends at its first NUL. -/
theorem madeTxt_eq {key value : List UInt8} (short : (key ++ equalSign :: value).length < 256)
    (behind : List UInt8) :
    madeTxt (UInt8.ofNat (key ++ equalSign :: value).length) key (value ++ behind) =
      ⟨key, if value = [] then none else some (cstr value)⟩ := by
  have length := toNat_valueLength short
  have small : key.length % 256 = key.length := Nat.mod_eq_of_lt (by
    rw [List.length_append, List.length_cons] at short
    omega)
  have none : valueLength (UInt8.ofNat (key ++ equalSign :: value).length) key.length = 0 ↔
      value = [] := by
    rw [← UInt8.toNat_inj, length]
    exact List.length_eq_zero_iff
  rw [madeTxt, small, List.take_length, length, List.take_left, if_congr none rfl rfl]

theorem readTxt_proper {s : List UInt8} (proper : Proper s) (behind : List UInt8) :
    readTxt (s ++ behind) (UInt8.ofNat s.length) = .ok (some (splitString s)) := by
  obtain ⟨short, key, value, rfl, full, noEqual, noZero, plain⟩ := proper
  have made := madeTxt_eq short behind
  have length := toNat_valueLength short
  have small : key.length % 256 ≠ 0 := by
    have some := List.length_pos_iff.mpr full
    rw [List.length_append, List.length_cons] at short
    rw [Nat.mod_eq_of_lt (by omega)]
    omega
  have inside : Inside (valueLength (UInt8.ofNat (key ++ equalSign :: value).length) key.length)
      (value ++ behind) := .inl (by rw [length, List.length_append]; omega)
  rw [splitString_eq noEqual, valueOf, List.append_assoc, List.cons_append,
    readTxt_found noEqual noZero, if_neg small, if_pos inside, made, cstr_of_not_mem plain]

theorem Proper.length_ne {s : List UInt8} (proper : Proper s) :
    UInt8.ofNat s.length ≠ 0 ∧ (UInt8.ofNat s.length).toNat = s.length := by
  obtain ⟨short, key, value, rfl, -⟩ := proper
  have same : (UInt8.ofNat (key ++ equalSign :: value).length).toNat =
      (key ++ equalSign :: value).length := UInt8.toNat_ofNat_of_lt short
  refine ⟨fun zero => ?_, same⟩
  rw [zero, List.length_append, List.length_cons] at same
  exact absurd same (Nat.ne_of_lt (Nat.lt_add_left _ (Nat.succ_pos _)))

theorem Proper.equalSign_mem {s : List UInt8} (proper : Proper s) : equalSign ∈ s := by
  obtain ⟨-, key, value, rfl, -⟩ := proper
  exact List.mem_append_right _ List.mem_cons_self

section

variable {length : UInt8} {cursor : List UInt8} (fuel : Nat)

theorem txtItems_own (whole : length.toNat ≤ cursor.length)
    (own : equalSign ∈ cursor.take length.toNat) :
    txtItems (fuel + 1) (length :: cursor) =
      splitString (cursor.take length.toNat) :: txtItems fuel (cursor.drop length.toNat) := by
  rw [txtItems, txtStrings, if_pos whole, List.filter_cons, if_pos (decide_eq_true own)]
  rfl

theorem txtItems_other (whole : length.toNat ≤ cursor.length)
    (other : equalSign ∉ cursor.take length.toNat) :
    txtItems (fuel + 1) (length :: cursor) = txtItems fuel (cursor.drop length.toNat) := by
  rw [txtItems, txtStrings, if_pos whole, List.filter_cons,
    if_neg (fun own => other (of_decide_eq_true own))]
  rfl

theorem txtItems_cut (cut : ¬ length.toNat ≤ cursor.length) :
    txtItems (fuel + 1) (length :: cursor) = [] := by
  rw [txtItems, txtStrings, if_neg cut]
  rfl

end

/-- Strings that are proper are read as they are. -/
theorem proper_read (fuel : Nat) : ∀ {strings : List (List UInt8)} (txts : List ServiceTxt),
    (wire strings).length ≤ fuel → (∀ s ∈ strings, Proper s) →
      txtLoop fuel (wire strings) txts = .ok (true, (strings.map splitString).reverse ++ txts) ∧
        txtItems fuel (wire strings) = strings.map splitString := by
  induction fuel with
  | zero =>
    intro strings txts enough all
    cases strings with
    | nil => exact ⟨rfl, rfl⟩
    | cons s strings =>
      rw [wire_cons] at enough
      exact absurd enough (Nat.not_succ_le_zero _)
  | succ fuel ih =>
    intro strings txts enough all
    cases strings with
    | nil => exact ⟨rfl, rfl⟩
    | cons s strings =>
      have proper := all s List.mem_cons_self
      obtain ⟨full, length⟩ := proper.length_ne
      rw [wire_cons] at enough
      have enough' := length_drop_le enough
      rw [length, List.drop_left] at enough'
      obtain ⟨read, items⟩ := ih (splitString s :: txts) enough'
        fun s mem => all s (List.mem_cons_of_mem _ mem)
      rw [wire_cons]
      constructor
      · rw [txtLoop_cons fuel full, readTxt_proper proper]
        change txtLoop fuel ((s ++ wire strings).drop (UInt8.ofNat s.length).toNat) _ = _
        rw [length, List.drop_left, read, List.map_cons, List.reverse_cons, List.append_assoc]
        rfl
      · have whole : (UInt8.ofNat s.length).toNat ≤ (s ++ wire strings).length := by
          rw [length, List.length_append]
          exact Nat.le_add_right _ _
        have own : equalSign ∈ (s ++ wire strings).take (UInt8.ofNat s.length).toNat := by
          rw [length, List.take_left]
          exact proper.equalSign_mem
        rw [txtItems_own fuel whole own, length, List.take_left, List.drop_left, items]
        rfl

/-! ## Records without empty strings inside -/

/-- Strings of which none is empty; the last may be longer than the record. -/
inductive Full : List UInt8 → Prop
  | nil : Full []
  | cons {length : UInt8} {cursor : List UInt8} (full : length ≠ 0)
      (rest : Full (cursor.drop length.toNat)) : Full (length :: cursor)

/-- No empty string stands behind one that is not empty. -/
def Undisturbed (rdata : List UInt8) : Prop :=
  ∃ (k : Nat) (tail : List UInt8), rdata = List.replicate k 0 ++ tail ∧ Full tail

/-- A string that is read as it is has no NUL. -/
theorem proper_of_made {text behind : List UInt8} {length : UInt8} (noEqual : equalSign ∉ text)
    (noZero : 0 ∉ text) (key : text.length % 256 ≠ 0)
    (whole : length.toNat ≤ (text ++ equalSign :: behind).length)
    (own : equalSign ∈ (text ++ equalSign :: behind).take length.toNat)
    (same : madeTxt length text behind =
      splitString ((text ++ equalSign :: behind).take length.toNat)) :
    Proper ((text ++ equalSign :: behind).take length.toNat) := by
  have inside : text.length < length.toNat := by
    by_contra short
    rw [List.take_append_of_le_length (Nat.le_of_not_lt short)] at own
    exact noEqual (List.mem_of_mem_take own)
  obtain ⟨m, sum⟩ := Nat.exists_eq_add_of_lt inside
  have split : (text ++ equalSign :: behind).take length.toNat =
      text ++ equalSign :: behind.take m := by
    rw [List.take_append, List.take_of_length_le (Nat.le_of_lt inside), sum]
    rw [show text.length + m + 1 - text.length = m + 1 by omega, List.take_succ_cons]
  have size : (text ++ equalSign :: behind.take m).length = length.toNat := by
    rw [← split, List.length_take, Nat.min_eq_left whole]
  have short : (text ++ equalSign :: behind.take m).length < 256 := size ▸ length.toNat_lt
  have byte : length = UInt8.ofNat (text ++ equalSign :: behind.take m).length := by
    rw [size, UInt8.ofNat_toNat]
  have made := madeTxt_eq short (behind.drop m)
  rw [List.take_append_drop, ← byte] at made
  rw [split, splitString_eq noEqual, made, ServiceTxt.mk.injEq] at same
  rw [split]
  refine ⟨short, text, _, rfl, fun nil => key (by rw [nil]; rfl), noEqual, noZero, ?_⟩
  have values := same.2
  rw [valueOf] at values
  split at values
  · rename_i nil
    rw [nil]
    exact List.not_mem_nil
  · rw [← Option.some.inj values]
    exact not_mem_cstr _

/-- Behind strings of which none is empty there is an item for each; they are those of the record
only if all are proper. -/
theorem full_read (fuel : Nat) : ∀ {rdata : List UInt8} {txts out : List ServiceTxt},
    rdata.length ≤ fuel → Full rdata → txtLoop fuel rdata txts = .ok (true, out) →
      ∃ items, out = items ++ txts ∧ (txtItems fuel rdata).length ≤ items.length ∧
        (items = (txtItems fuel rdata).reverse →
          ∃ strings, rdata = wire strings ∧ ∀ s ∈ strings, Proper s) := by
  induction fuel with
  | zero =>
    intro rdata txts out enough full read
    rw [List.eq_nil_of_length_eq_zero (Nat.le_zero.mp enough)] at read ⊢
    obtain rfl := (Prod.mk.inj (Except.ok.inj read)).2
    exact ⟨[], rfl, Nat.le_refl _, fun _ => ⟨[], rfl, fun _ no => absurd no List.not_mem_nil⟩⟩
  | succ fuel ih =>
    intro rdata txts out enough full read
    cases full with
    | nil =>
      obtain rfl := (Prod.mk.inj (Except.ok.inj read)).2
      exact ⟨[], rfl, Nat.le_refl _, fun _ => ⟨[], rfl, fun _ no => absurd no List.not_mem_nil⟩⟩
    | @cons length cursor full rest =>
      rw [txtLoop_cons fuel full] at read
      rcases readTxt_cases length cursor with ⟨-, refused⟩ | outside |
        ⟨text, behind, noEqual, noZero, rfl, key, -, made⟩
      · rw [refused] at read
        cases read
      · rw [outside] at read
        cases read
      rw [made] at read
      obtain ⟨items, rfl, longer, proper⟩ := ih (length_drop_le enough) rest read
      refine ⟨items ++ [madeTxt length text behind], by rw [List.append_assoc]; rfl, ?_⟩
      rw [List.length_append, List.length_singleton]
      by_cases whole : length.toNat ≤ (text ++ equalSign :: behind).length
      · by_cases own : equalSign ∈ (text ++ equalSign :: behind).take length.toNat
        · rw [txtItems_own fuel whole own, List.length_cons, List.reverse_cons]
          refine ⟨Nat.succ_le_succ longer, fun same => ?_⟩
          obtain ⟨others, last⟩ := List.append_inj' same rfl
          obtain ⟨strings, tail, all⟩ := proper others
          have first := proper_of_made noEqual noZero key whole own (List.singleton_inj.mp last)
          refine ⟨_ :: strings, ?_, List.forall_mem_cons.mpr ⟨first, all⟩⟩
          rw [wire_cons, ← tail, List.take_append_drop, List.length_take, Nat.min_eq_left whole,
            UInt8.ofNat_toNat]
        · rw [txtItems_other fuel whole own]
          refine ⟨Nat.le_succ_of_le longer, fun same => ?_⟩
          have lengths := congrArg List.length same
          rw [List.length_append, List.length_singleton, List.length_reverse] at lengths
          exact absurd longer (Nat.not_le_of_lt (Nat.lt_of_lt_of_eq (Nat.lt_succ_self _) lengths))
      · rw [txtItems_cut fuel whole]
        refine ⟨Nat.zero_le _, fun same => ?_⟩
        exact absurd same (List.append_ne_nil_of_right_ne_nil _ (List.cons_ne_nil _ _))

theorem txtLoop_zeros (k fuel : Nat) (tail : List UInt8) :
    txtLoop (k + fuel) (List.replicate k 0 ++ tail) [] = txtLoop fuel tail [] := by
  induction k with
  | zero => rw [Nat.zero_add]; rfl
  | succ k ih =>
    rw [Nat.add_right_comm, List.replicate_succ, List.cons_append, txtLoop, if_pos rfl]
    exact ih

theorem txtItems_zeros (k fuel : Nat) (tail : List UInt8) :
    txtItems (k + fuel) (List.replicate k 0 ++ tail) = txtItems fuel tail := by
  induction k with
  | zero => rw [Nat.zero_add]; rfl
  | succ k ih =>
    rw [Nat.add_right_comm, List.replicate_succ, List.cons_append,
      txtItems_other (k + fuel) (Nat.zero_le _) List.not_mem_nil]
    exact ih

/-! ## Records -/

/-- What is said of a record that is read: nothing outside of it is read, and if it is accepted, the
items are its own, the last in front. -/
def TxtRead (packet : List UInt8) (position rdLength : Nat) : Prop :=
  ∃ result txts next, readRRAnswerTXT packet position rdLength = .ok (result, txts, next) ∧
    (result = true →
      txts = (txtItems rdLength ((packet.drop position).take rdLength)).reverse)

/-- The record is not complete, a string of it is refused, or all are plain. -/
def TxtPlain (packet : List UInt8) (position rdLength : Nat) : Prop :=
  ((packet.drop position).take rdLength).length ≠ rdLength ∨
    Refused ((packet.drop position).take rdLength) ∨ Plain ((packet.drop position).take rdLength)

/-- **Reading TXT records.** A record of which a string is refused, or whose strings are all plain,
is read inside of its buffer as the strings it has; one in which no empty string stands behind
another is so read only then. -/
theorem txt_read (packet : List UInt8) (position rdLength : Nat) :
    (TxtPlain packet position rdLength → TxtRead packet position rdLength) ∧
      (Undisturbed ((packet.drop position).take rdLength) → TxtRead packet position rdLength →
        TxtPlain packet position rdLength) := by
  rw [TxtRead, TxtPlain, readRRAnswerTXT]
  generalize rdata' : (packet.drop position).take rdLength = rdata
  by_cases zero : rdLength = 0
  · have nil : rdata = [] := by
      rw [← rdata', zero, List.take_zero]
    rw [if_pos zero, nil]
    refine ⟨fun _ => ⟨true, [], position, rfl, fun _ => ?_⟩, fun _ _ => .inr (.inr ?_)⟩
    · rw [zero]
      rfl
    · exact ⟨0, [], rfl, fun _ no => absurd no List.not_mem_nil⟩
  have buffer : udpReadBuffer packet position rdLength =
      (decide (rdata.length = rdLength), rdata, position + rdata.length) := by
    rw [udpReadBuffer, if_neg zero, rdata']
  rw [if_neg zero, buffer]
  simp only
  by_cases whole : rdata.length = rdLength
  swap
  · rw [decide_eq_false whole]
    exact ⟨fun _ => ⟨false, [], _, rfl, fun no => absurd no Bool.false_ne_true⟩,
      fun _ _ => .inl whole⟩
  rw [decide_eq_true whole, if_pos rfl]
  have enough : rdata.length ≤ rdLength := Nat.le_of_eq whole
  constructor
  · rintro (short | refused | ⟨k, strings, rfl, all⟩)
    · exact absurd whole short
    · rw [refused.read rdLength [] enough]
      exact ⟨false, [], _, rfl, fun no => absurd no Bool.false_ne_true⟩
    · rw [List.length_append, List.length_replicate] at whole
      obtain ⟨read, items⟩ := proper_read (wire strings).length [] (Nat.le_refl _) all
      rw [← whole, txtLoop_zeros, txtItems_zeros, read, items, List.append_nil]
      exact ⟨true, _, _, rfl, fun _ => rfl⟩
  · rintro ⟨k, tail, rfl, full⟩ ⟨result, txts, next, read, own⟩
    refine .inr ?_
    cases loop : txtLoop rdLength (List.replicate k 0 ++ tail) [] with
    | error fault =>
      rw [loop] at read
      cases read
    | ok found =>
      obtain ⟨result', txts'⟩ := found
      rw [loop] at read
      obtain ⟨rfl, rfl, -⟩ : result' = result ∧ txts' = txts ∧ _ = next := by
        simpa using (Except.ok.inj read)
      cases result' with
      | false => exact .inl (refused_of_read rdLength enough loop)
      | true =>
        rw [List.length_append, List.length_replicate] at whole
        rw [← whole, txtLoop_zeros] at loop
        rw [← whole, txtItems_zeros] at own
        obtain ⟨items, rfl, -, proper⟩ := full_read tail.length (Nat.le_refl _) full loop
        rw [List.append_nil] at own
        obtain ⟨strings, rfl, all⟩ := proper (own rfl)
        exact .inr ⟨k, strings, rfl, all⟩

/-- The strings "a=b" and "c=". -/
theorem txt_read_plain : TxtRead [3, 0x61, 0x3d, 0x62, 2, 0x63, 0x3d] 0 7 := by
  refine (txt_read _ 0 7).1 (.inr (.inr ⟨0, [[0x61, 0x3d, 0x62], [0x63, 0x3d]], rfl, ?_⟩))
  refine List.forall_mem_cons.mpr ⟨⟨by decide, [0x61], [0x62], ?_⟩,
    List.forall_mem_singleton.mpr ⟨by decide, [0x63], [], ?_⟩⟩
  · exact ⟨rfl, by decide, by decide, by decide, by decide⟩
  · exact ⟨rfl, by decide, by decide, by decide, by decide⟩

/-- The equal sign of the string "a" is looked for behind the record. -/
theorem txt_read_without : ¬ ∀ (packet : List UInt8) (position rdLength : Nat),
    TxtRead packet position rdLength := by
  intro all
  obtain ⟨result, txts, next, read, -⟩ := all [1, 0x61] 0 2
  have outside : readRRAnswerTXT [1, 0x61] 0 2 = .error .outside := by decide
  rw [outside] at read
  cases read

end Esp8266.Source.MdnsTransfer
