import Esp8266.Source.IPAddress

/-!
# Addresses with dots

`fromString4` stores each octet at its dot, before it knows the rest of the text, and takes an empty
field for 0.
-/
set_option autoImplicit false

namespace Esp8266.Source.IPAddress
open Esp8266.Lib Esp8266.Lib.Decimal

/-! ## The bytes of an address -/

theorem byte_setByte (a : IPAddress) (i j : Nat) (value : UInt8) :
    (a.setByte i value).byte j = if i = j ∧ i < 16 then value else a.byte j := by
  rw [byte, setByte, byte, Vector.getElem?_setIfInBounds]
  by_cases same : i = j
  · subst same
    by_cases inside : i < 16
    · rw [if_pos rfl, if_pos inside, if_pos ⟨rfl, inside⟩, Option.getD_some]
    · rw [if_pos rfl, if_neg inside, if_neg fun both => inside both.2,
        Vector.getElem?_eq_none (Nat.not_lt.1 inside)]
  · rw [if_neg same, if_neg fun both => same both.1]

theorem ext_bytes {a b : IPAddress} (type : a.type = b.type) (zone : a.zone = b.zone)
    (bytes : ∀ i < 16, a.byte i = b.byte i) : a = b := by
  obtain ⟨aType, aBytes, aZone⟩ := a
  obtain ⟨bType, bBytes, bZone⟩ := b
  obtain rfl : aBytes = bBytes := by
    refine Vector.ext fun i inside => ?_
    have same := bytes i inside
    rwa [byte, byte, Vector.getElem?_eq_getElem inside, Vector.getElem?_eq_getElem inside] at same
  obtain rfl : aType = bType := type
  obtain rfl : aZone = bZone := zone
  rfl

/-- Octets one after the other. -/
def setOctets : Nat → List UInt8 → IPAddress → IPAddress
  | _, [], a => a
  | i, value :: rest, a => setOctets (i + 1) rest (a.setOctet i value)

theorem setOctets_append (i : Nat) (values more : List UInt8) (a : IPAddress) :
    setOctets i (values ++ more) a = setOctets (i + values.length) more (setOctets i values a) := by
  induction values generalizing i a with
  | nil => rfl
  | cons value rest ih =>
    rw [List.cons_append, setOctets, setOctets, ih, List.length_cons]
    congr 1
    omega

theorem zone_setOctets (i : Nat) (values : List UInt8) (a : IPAddress) :
    (setOctets i values a).zone = a.zone := by
  induction values generalizing i a with
  | nil => rfl
  | cons value rest ih => rw [setOctets, ih]; rfl

theorem type_setOctets {i : Nat} {values : List UInt8} {a : IPAddress}
    (v4 : values = [] → a.type = .v4) : (setOctets i values a).type = .v4 := by
  induction values generalizing i a with
  | nil => exact v4 rfl
  | cons value rest ih => exact ih fun _ => rfl

theorem byte_setOctets {i : Nat} {values : List UInt8} (fit : i + values.length ≤ 16)
    (a : IPAddress) (j : Nat) :
    (setOctets i values a).byte j =
      if i ≤ j ∧ j < i + values.length then values.getD (j - i) 0 else a.byte j := by
  induction values generalizing i a with
  | nil =>
    rw [List.length_nil, if_neg (by omega)]
    rfl
  | cons value rest ih =>
    rw [List.length_cons] at fit
    rw [setOctets, ih (by omega), setOctet, byte_setByte, List.length_cons]
    by_cases first : i = j
    · subst first
      rw [if_neg (by omega), if_pos ⟨rfl, by omega⟩, if_pos (by omega), Nat.sub_self,
        List.getD_cons_zero]
    · rw [if_neg (c := i = j ∧ i < 16) fun both => first both.1]
      by_cases later : i + 1 ≤ j ∧ j < i + 1 + rest.length
      · have next : j - i = j - (i + 1) + 1 := by omega
        rw [if_pos later, if_pos (by omega), next, List.getD_cons_succ]
      · rw [if_neg later, if_neg (by omega)]
        rfl

/-- An address that has these octets already does not change. -/
theorem setOctets_same {values : List UInt8} {a : IPAddress} (fit : values.length ≤ 16)
    (v4 : values ≠ [] → a.type = .v4)
    (same : ∀ i < values.length, a.byte i = values.getD i 0) : setOctets 0 values a = a := by
  refine ext_bytes ?_ (zone_setOctets 0 values a) fun i _ => ?_
  · by_cases empty : values = []
    · rw [empty]
      rfl
    · rw [v4 empty]
      exact type_setOctets fun none => absurd none empty
  · rw [byte_setOctets (by omega)]
    split
    · rename_i inside
      rw [same i (by omega), Nat.sub_zero]
    · rfl

/-! ## Numbers -/

/-- Digits, none of them at least, of a number that an octet can hold. -/
structure Number (field : List UInt8) : Prop where
  digits : ∀ c ∈ field, IsDigit c
  small : value field ≤ 255

/-- The octet of a field. -/
def octetOf (field : List UInt8) : UInt8 := UInt8.ofNat (value field)

/-- The value of a number whose first digits have been read. -/
def valueFrom (v : Nat) (digits : List UInt8) : Nat :=
  digits.foldl (fun v c => 10 * v + (c.toNat - 0x30)) v

theorem le_valueFrom (v : Nat) (digits : List UInt8) : v ≤ valueFrom v digits := by
  induction digits generalizing v with
  | nil => exact Nat.le_refl v
  | cons c rest ih => exact Nat.le_trans (by omega) (ih (10 * v + (c.toNat - 0x30)))

/-- One digit. -/
theorem toNat_digit {c : UInt8} (digit : IsDigit c) {acc : UInt16} (small : acc.toNat ≤ 255) :
    (acc * 10 + (c.toUInt16 - 0x30)).toNat = 10 * acc.toNat + (c.toNat - 0x30) := by
  obtain ⟨low, high⟩ := digit
  rw [UInt8.le_iff_toNat_le] at low high
  have low' : 0x30 ≤ c.toNat := low
  have high' : c.toNat ≤ 0x39 := high
  rw [UInt16.toNat_add, UInt16.toNat_mul, UInt16.toNat_sub, UInt8.toNat_toUInt16]
  change (acc.toNat * 10 % 65536 + (65536 - 0x30 + c.toNat) % 65536) % 65536 = _
  omega

/-- The digits of a field leave the address alone: either the number grows too large or what
follows is read with it. -/
theorem fromString4Loop_digits {field : List UInt8} (digits : ∀ c ∈ field, IsDigit c)
    (rest : List UInt8) {acc : UInt16} (small : acc.toNat ≤ 255) (dots : Nat) (a : IPAddress) :
    fromString4Loop (field ++ rest) acc dots a =
      if 255 < valueFrom acc.toNat field then (false, a)
      else fromString4Loop rest (UInt16.ofNat (valueFrom acc.toNat field)) dots a := by
  induction field generalizing acc with
  | nil => rw [valueFrom, List.foldl_nil, if_neg (Nat.not_lt.2 small), UInt16.ofNat_toNat]; rfl
  | cons c field ih =>
    have digit : IsDigit c := digits c List.mem_cons_self
    have read := toNat_digit digit small
    have next : valueFrom acc.toNat (c :: field) =
        valueFrom (acc * 10 + (c.toUInt16 - 0x30)).toNat field := by
      rw [read]
      rfl
    have more := le_valueFrom (acc * 10 + (c.toUInt16 - 0x30)).toNat field
    rw [List.cons_append, fromString4Loop, if_pos digit, next]
    by_cases large : 255 < (acc * 10 + (c.toUInt16 - 0x30))
    · have large' : 255 < (acc * 10 + (c.toUInt16 - 0x30)).toNat := UInt16.lt_iff_toNat_lt.1 large
      rw [if_pos large, if_pos (by omega)]
    · have small' : (acc * 10 + (c.toUInt16 - 0x30)).toNat ≤ 255 :=
        Nat.not_lt.1 fun large' => large (UInt16.lt_iff_toNat_lt.2 large')
      rw [if_neg large, ih (fun d mem => digits d (List.mem_cons_of_mem c mem)) small']

theorem fromString4Loop_number {field : List UInt8} (number : Number field) (rest : List UInt8)
    (dots : Nat) (a : IPAddress) :
    fromString4Loop (field ++ rest) 0 dots a =
      fromString4Loop rest (UInt16.ofNat (value field)) dots a := by
  rw [fromString4Loop_digits number.digits rest (by decide)]
  exact if_neg (Nat.not_lt.2 number.small)

theorem toUInt8_value {field : List UInt8} (number : Number field) :
    (UInt16.ofNat (value field)).toUInt8 = octetOf field := by
  have small := number.small
  rw [← UInt8.toNat_inj, UInt16.toNat_toUInt8, octetOf, UInt16.toNat_ofNat', UInt8.toNat_ofNat']
  omega

/-! ## Fields -/

/-- A text that begins with these fields, a dot behind each. -/
def dotted (fields : List (List UInt8)) (rest : List UInt8) : List UInt8 :=
  fields.flatMap (· ++ [0x2e]) ++ rest

theorem dotted_cons (field : List UInt8) (fields : List (List UInt8)) (rest : List UInt8) :
    dotted (field :: fields) rest = field ++ 0x2e :: dotted fields rest := by
  simp only [dotted, List.flatMap_cons, List.append_assoc, List.cons_append, List.nil_append]

/-- Numbers with dots are stored. -/
theorem fromString4Loop_dotted {fields : List (List UInt8)} (numbers : ∀ f ∈ fields, Number f)
    (rest : List UInt8) {dots : Nat} (few : dots + fields.length ≤ 3) (a : IPAddress) :
    fromString4Loop (dotted fields rest) 0 dots a =
      fromString4Loop rest 0 (dots + fields.length)
        (setOctets dots (fields.map octetOf) a) := by
  induction fields generalizing dots a with
  | nil => rfl
  | cons field fields ih =>
    rw [List.length_cons] at few
    have number : Number field := numbers field List.mem_cons_self
    rw [dotted_cons, fromString4Loop_number number, fromString4Loop, if_neg (by decide),
      if_pos rfl, if_neg (by omega), toUInt8_value number,
      ih (fun f mem => numbers f (List.mem_cons_of_mem field mem)) (by omega), List.map_cons,
      setOctets, List.length_cons, Nat.add_assoc, Nat.add_comm 1]

/-- How a text is read: some numbers with dots are stored, and then the text ends as a fourth
number or is refused. -/
def Reading (text : List UInt8) (dots : Nat) (a : IPAddress) : Prop :=
  ∃ fields rest, (∀ f ∈ fields, Number f) ∧ text = dotted fields rest ∧ dots + fields.length ≤ 3 ∧
    ((Number rest ∧ dots + fields.length = 3 ∧ fromString4Loop text 0 dots a =
        (true, setOctets dots ((fields ++ [rest]).map octetOf) a)) ∨
      fromString4Loop text 0 dots a = (false, setOctets dots (fields.map octetOf) a))

theorem Reading.refused {text : List UInt8} {dots : Nat} (few : dots ≤ 3) {a : IPAddress}
    (result : fromString4Loop text 0 dots a = (false, a)) : Reading text dots a :=
  ⟨[], text, fun _ mem => absurd mem List.not_mem_nil, rfl, few, .inr result⟩

theorem fromString4Loop_reading (text : List UInt8) {dots : Nat} (few : dots ≤ 3)
    (a : IPAddress) : Reading text dots a := by
  generalize length : text.length = n
  induction n using Nat.strongRecOn generalizing text dots a with
  | ind n ih =>
  -- the digits of the field, and what follows them
  obtain ⟨field, rest, rfl, digits, stop⟩ : ∃ field rest, text = field ++ rest ∧
      (∀ c ∈ field, IsDigit c) ∧ ∀ c more, rest = c :: more → ¬ IsDigit c :=
    ⟨text.takeWhile (IsDigit ·), text.dropWhile (IsDigit ·), List.takeWhile_append_dropWhile.symm,
      fun c mem => of_decide_eq_true (List.all_eq_true.1 List.all_takeWhile c mem),
      fun c more split digit => by
        have head := List.head?_dropWhile_not (fun c => decide (IsDigit c)) text
        rw [split] at head
        simp [digit] at head⟩
  refine if large : 255 < value field then Reading.refused few ?_ else ?_
  · rw [fromString4Loop_digits digits rest (by decide)]
    exact if_pos large
  have number : Number field := ⟨digits, Nat.not_lt.1 large⟩
  have read := fromString4Loop_number number rest dots a
  cases rest with
  | nil =>
    by_cases last : dots = 3
    · refine ⟨[], field, fun f mem => absurd mem List.not_mem_nil, List.append_nil field, few,
        .inl ⟨number, last, ?_⟩⟩
      rw [read, fromString4Loop, if_neg (not_not.2 last), toUInt8_value number, last]
      rfl
    · refine Reading.refused few ?_
      rw [read, fromString4Loop, if_pos last]
  | cons c more =>
    have other : ¬ IsDigit c := stop c more rfl
    by_cases dot : c = 0x2e
    · subst dot
      by_cases last : dots = 3
      · refine Reading.refused few ?_
        rw [read, fromString4Loop, if_neg other, if_pos rfl, if_pos last]
      · have next : fromString4Loop (field ++ 0x2e :: more) 0 dots a =
            fromString4Loop more 0 (dots + 1) (a.setOctet dots (octetOf field)) := by
          rw [read, fromString4Loop, if_neg other, if_pos rfl, if_neg last, toUInt8_value number]
        have shorter : more.length < n := by
          rw [← length, List.length_append, List.length_cons]
          omega
        obtain ⟨fields, rest, numbers, rfl, count, outcome⟩ :=
          ih more.length shorter more (show dots + 1 ≤ 3 by omega) (a.setOctet dots (octetOf field)) rfl
        refine ⟨field :: fields, rest, ?_, (dotted_cons field fields rest).symm, ?_, ?_⟩
        · rw [List.forall_mem_cons]
          exact ⟨number, numbers⟩
        · rw [List.length_cons]
          omega
        · rw [next, List.length_cons, Nat.add_comm fields.length, ← Nat.add_assoc]
          exact outcome
    · refine Reading.refused few ?_
      rw [read, fromString4Loop, if_neg other, if_neg dot]

/-- Whatever becomes of a text, only octets at later dots are stored. -/
theorem fromString4Loop_stores (text : List UInt8) {dots : Nat} (few : dots ≤ 3) (a : IPAddress) :
    ∃ values, dots + values.length ≤ 4 ∧
      (fromString4Loop text 0 dots a).2 = setOctets dots values a := by
  obtain ⟨fields, rest, -, -, count, ⟨-, -, accepted⟩ | refused⟩ :=
    fromString4Loop_reading text few a
  · refine ⟨(fields ++ [rest]).map octetOf, ?_, by rw [accepted]⟩
    rw [List.length_map, List.length_append, List.length_singleton]
    omega
  · refine ⟨fields.map octetOf, ?_, by rw [refused]⟩
    rw [List.length_map]
    omega

/-! ## What is accepted -/

/-- The first octets of an address. -/
def octets (a : IPAddress) (count : Nat) : List UInt8 := (List.range count).map a.octet

/-- A text of four fields, which are numbers if they are not empty. -/
structure FourFields (text : List UInt8) (front : List (List UInt8)) (last : List UInt8) : Prop where
  three : front.length = 3
  numbers : ∀ f ∈ front ++ [last], Number f
  text_eq : text = dotted front last

/-- A text of four numbers in 0..255 with single dots between them. -/
def FourNumbers (text : List UInt8) (front : List (List UInt8)) (last : List UInt8) : Prop :=
  FourFields text front last ∧ ∀ f ∈ front ++ [last], f ≠ []

/-- What `fromString4` is to do with a text, for an address that is there before. -/
def Parses (text : WString) (before : IPAddress) : Prop :=
  let result := fromString4 text before
  (result.1 = true ↔ ∃ front last, FourNumbers text.cstr front last) ∧
  (∀ front last, FourNumbers text.cstr front last →
    result.2.isV4 = true ∧ result.2.octets 4 = (front ++ [last]).map octetOf) ∧
  (result.1 = false → result.2 = before)

/-- The address has the octets already with which the text begins. -/
def Agrees (text : WString) (before : IPAddress) : Prop :=
  ∀ front rest, front ≠ [] → front.length ≤ 3 → (∀ f ∈ front, Number f) →
    text.cstr = dotted front rest →
    before.isV4 = true ∧ before.octets front.length = front.map octetOf

theorem octets_setOctets {values : List UInt8} (some : values ≠ []) (few : values.length ≤ 16)
    (a : IPAddress) {count : Nat} (fit : count ≤ values.length) :
    (setOctets 0 values a).octets count = values.take count := by
  have v4 : (setOctets 0 values a).isV4 = true :=
    decide_eq_true (type_setOctets fun none => absurd none some)
  refine List.ext_getElem ?_ fun i left right => ?_
  · rw [octets, List.length_map, List.length_range, List.length_take, Nat.min_eq_left fit]
  · rw [octets, List.length_map, List.length_range] at left
    have inside : i < values.length := by omega
    simp only [octets, List.getElem_map, List.getElem_range, List.getElem_take]
    rw [octet, if_pos v4, byte_setOctets (by omega), if_pos ⟨Nat.zero_le i, by omega⟩, Nat.sub_zero,
      List.getD_eq_getElem _ _ inside]

theorem fromString4_fields {text : WString} {front : List (List UInt8)} {last : List UInt8}
    (fields : FourFields text.cstr front last) (a : IPAddress) :
    fromString4 text a = (true, setOctets 0 ((front ++ [last]).map octetOf) a) := by
  have number : Number last := fields.numbers last (by simp)
  have read := fromString4Loop_number number [] 3 (setOctets 0 (front.map octetOf) a)
  rw [List.append_nil] at read
  rw [fromString4, fields.text_eq, fromString4Loop_dotted (fun f mem => fields.numbers f
    (List.mem_append_left _ mem)) last (by rw [fields.three]), fields.three, read, fromString4Loop,
    if_neg (by decide), toUInt8_value number, List.map_append, setOctets_append, List.length_map,
    fields.three]
  rfl

/-- What a text begins with is there after it was refused without a trace. -/
theorem agrees_of_unchanged {text : WString} {before : IPAddress}
    (same : (fromString4 text before).2 = before) : Agrees text before := by
  intro front rest some few numbers begins
  rw [fromString4, begins, fromString4Loop_dotted numbers rest (by omega)] at same
  obtain ⟨values, count, stored⟩ := fromString4Loop_stores rest
    (show 0 + front.length ≤ 3 by omega) (setOctets 0 (front.map octetOf) before)
  have length : front.length = (front.map octetOf).length := (List.length_map octetOf).symm
  rw [stored, length, ← setOctets_append] at same
  have some' : front.map octetOf ++ values ≠ [] := by
    simp [some]
  have v4 : (setOctets 0 (front.map octetOf ++ values) before).isV4 = true :=
    decide_eq_true (type_setOctets fun none => absurd none some')
  have first := octets_setOctets some' (by rw [List.length_append]; omega) before
    (show front.length ≤ (front.map octetOf ++ values).length by rw [List.length_append]; omega)
  rw [length, List.take_left, same, ← length] at first
  rw [same] at v4
  exact ⟨v4, first⟩

theorem setOctets_agrees {text : WString} {before : IPAddress} (agrees : Agrees text before)
    {front : List (List UInt8)} {rest : List UInt8} (few : front.length ≤ 3)
    (numbers : ∀ f ∈ front, Number f) (begins : text.cstr = dotted front rest) :
    setOctets 0 (front.map octetOf) before = before := by
  by_cases none : front = []
  · rw [none]
    rfl
  obtain ⟨v4, first⟩ := agrees front rest none few numbers begins
  refine setOctets_same (by rw [List.length_map]; omega) (fun _ => of_decide_eq_true v4)
    fun i inside => ?_
  have inside' : i < (before.octets front.length).length := by
    rwa [first]
  rw [← first, List.getD_eq_getElem _ _ inside']
  simp only [octets, List.getElem_map, List.getElem_range]
  rw [octet, if_pos v4]

/-- A text is parsed as it should be unless it has an empty field among four numbers, or is refused
after octets have been stored which the address did not have before. -/
theorem fromString4_parses (text : WString) (before : IPAddress) :
    Parses text before ↔ (∃ front last, FourNumbers text.cstr front last) ∨
      ((¬ ∃ front last, FourFields text.cstr front last) ∧ Agrees text before) := by
  constructor
  · rintro ⟨accepts, -, unchanged⟩
    by_cases four : ∃ front last, FourNumbers text.cstr front last
    · exact .inl four
    have refused : (fromString4 text before).1 = false :=
      Bool.not_eq_true _ ▸ fun accepted => four (accepts.1 accepted)
    refine .inr ⟨?_, agrees_of_unchanged (unchanged refused)⟩
    rintro ⟨front, last, fields⟩
    rw [fromString4_fields fields] at refused
    exact Bool.false_ne_true refused.symm
  · rintro (four | ⟨none, agrees⟩)
    · have accepted : (fromString4 text before).1 = true := by
        obtain ⟨front, last, fields, -⟩ := four
        rw [fromString4_fields fields]
      refine ⟨iff_of_true accepted four, fun front last fields => ?_, fun refused => ?_⟩
      · have length : ((front ++ [last]).map octetOf).length = 4 := by
          rw [List.length_map, List.length_append, fields.1.three]
          rfl
        have some : (front ++ [last]).map octetOf ≠ [] := by simp
        rw [fromString4_fields fields.1, octets_setOctets some (by omega) before (by omega),
          List.take_of_length_le (by omega)]
        exact ⟨decide_eq_true (type_setOctets fun empty => absurd empty some), rfl⟩
      · exact absurd (refused.symm.trans accepted) Bool.false_ne_true
    · have four : ¬ ∃ front last, FourNumbers text.cstr front last := by
        rintro ⟨front, last, fields, -⟩
        exact none ⟨front, last, fields⟩
      obtain ⟨front, rest, numbers, begins, few, ⟨last, three, -⟩ | refused⟩ :=
        fromString4Loop_reading text.cstr (Nat.zero_le 3) before
      · refine absurd ⟨front, rest, by omega, ?_, begins⟩ none
        rw [List.forall_mem_append, List.forall_mem_singleton]
        exact ⟨numbers, last⟩
      · rw [setOctets_agrees agrees (by omega) numbers begins] at refused
        have result : fromString4 text before = (false, before) := refused
        rw [Parses, result]
        exact ⟨iff_of_false Bool.false_ne_true four,
          fun front last fields => absurd ⟨front, last, fields⟩ four, fun _ => rfl⟩

/-- Empty fields are zeros. -/
example : (fromString4 (WString.ofString "10...7") empty).1 = true := by decide

/-- An octet is missing, and the others are stored. -/
theorem fromString4_keeps_octets : ¬ Parses (WString.ofString "10.0.7") empty := by
  intro parses
  have refused : (fromString4 (WString.ofString "10.0.7") empty).1 = false := by decide
  have unchanged := congrArg (fun a => a.byte 0) (parses.2.2 refused)
  have stored : (fromString4 (WString.ofString "10.0.7") empty).2.byte 0 = 10 := by decide
  exact absurd (stored.symm.trans unchanged) (by decide)

end Esp8266.Source.IPAddress
