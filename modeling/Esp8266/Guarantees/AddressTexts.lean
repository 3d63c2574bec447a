import Esp8266.Guarantees.DottedAddresses

/-!
# Addresses as text and back

An IPv6 address is written as its groups before the first run of zeros, a gap, and the groups
behind it. The gap is a second colon where a group stands before it; at the front it is one colon
only, unless seven groups are zero, and reads as one group.
-/
set_option autoImplicit false

namespace Esp8266.Source.IPAddress
open Esp8266.Lib Esp8266.Lib.Decimal Esp8266.Lib.Hexadecimal

/-! ## Groups -/

theorem group_setGroup (a : IPAddress) {i : Nat} (inside : i < 8) (value : UInt16) (j : Nat) :
    (a.setGroup i value).group j = if i = j then value else a.group j := by
  rw [group, setGroup]
  simp only [byte_setByte]
  by_cases same : i = j
  · subst same
    rw [if_neg (by omega), if_pos (by omega), if_pos (by omega), if_pos rfl, Word16.ofBytes_bytes]
  · rw [if_neg (by omega), if_neg (by omega), if_neg (by omega), if_neg (by omega), if_neg same]
    rfl

theorem zone_setGroup (a : IPAddress) (i : Nat) (value : UInt16) :
    (a.setGroup i value).zone = a.zone := rfl

/-- The first groups of an address, with the zone that it has. -/
structure Stored (a : IPAddress) (zone : UInt8) (groups : List UInt16) : Prop where
  zone : a.zone = zone
  groups : ∀ i (inside : i < groups.length), a.group i = groups[i]

theorem Stored.nil (a : IPAddress) : Stored a a.zone [] :=
  ⟨rfl, fun _ inside => absurd inside (Nat.not_lt_zero _)⟩

theorem Stored.push {a : IPAddress} {zone : UInt8} {groups : List UInt16}
    (stored : Stored a zone groups) (room : groups.length < 8) (value : UInt16) :
    Stored (a.setGroup groups.length value) zone (groups ++ [value]) := by
  refine ⟨stored.zone, fun i inside => ?_⟩
  rw [List.length_append, List.length_singleton] at inside
  rw [group_setGroup a room]
  by_cases last : groups.length = i
  · subst last
    rw [if_pos rfl, List.getElem_concat_length rfl]
  · have before : i < groups.length := by omega
    rw [if_neg last, List.getElem_append_left before, stored.groups i before]

/-- All groups and the zone are the address. -/
theorem equals_iff_stored {a b : IPAddress} (v6 : b.type = .v6) :
    b.equals a = true ↔ a.type = .v6 ∧ Stored b a.zone ((List.range 8).map a.group) := by
  by_cases same : b.type = a.type
  · have isV6 : b.isV6 = true := decide_eq_true v6
    rw [equals, if_neg (not_not.2 same), if_pos isV6, ← same, Bool.and_eq_true, decide_eq_true_eq,
      List.all_eq_true, and_iff_right v6]
    simp only [List.mem_range, decide_eq_true_eq]
    constructor
    · rintro ⟨bytes, zone⟩
      refine ⟨zone, fun i inside => ?_⟩
      rw [List.length_map, List.length_range] at inside
      rw [List.getElem_map, List.getElem_range, group, group, bytes _ (by omega),
        bytes _ (by omega)]
    · intro stored
      refine ⟨fun i inside => ?_, stored.zone⟩
      have halves := stored.groups (i / 2) (by rw [List.length_map, List.length_range]; omega)
      rw [List.getElem_map, List.getElem_range, group, group, Word16.ofBytes_inj] at halves
      rcases Nat.even_or_odd' i with ⟨k, rfl | rfl⟩
      · rw [Nat.mul_div_cancel_left k (by decide)] at halves
        exact halves.1
      · rw [Nat.mul_add_div (by decide)] at halves
        exact halves.2
  · rw [equals, if_pos same]
    exact iff_of_false Bool.false_ne_true fun both => same (v6.trans both.1.symm)

/-! ## Moving groups -/

theorem zone_moveGroups (source target n : Nat) (a : IPAddress) :
    (moveGroups source target n a).zone = a.zone := by
  induction n generalizing a with
  | zero => rfl
  | succ n ih => rw [moveGroups, ih, zone_setGroup]

/-- Groups that are moved up, the last one first, arrive as they were. -/
theorem group_moveGroups {source target n : Nat} (up : source ≤ target) (inside : target + n ≤ 8)
    (a : IPAddress) (j : Nat) :
    (moveGroups source target n a).group j =
      if target ≤ j ∧ j < target + n then a.group (source + (j - target)) else a.group j := by
  induction n generalizing a with
  | zero => rw [if_neg (by omega)]; rfl
  | succ n ih =>
    rw [moveGroups, ih (by omega), group_setGroup a (by omega), group_setGroup a (by omega)]
    by_cases moved : target ≤ j ∧ j < target + n
    · rw [if_pos moved, if_neg (by omega), if_pos (by omega)]
    · rw [if_neg moved]
      by_cases first : target + n = j
      · subst first
        rw [if_pos rfl, if_pos (by omega), Nat.add_sub_cancel_left]
      · rw [if_neg first, if_neg (by omega)]

theorem zone_clearGroups (first n : Nat) (a : IPAddress) :
    (clearGroups first n a).zone = a.zone := by
  induction n generalizing first a with
  | zero => rfl
  | succ n ih => rw [clearGroups, ih, zone_setGroup]

theorem group_clearGroups {first n : Nat} (inside : first + n ≤ 8) (a : IPAddress) (j : Nat) :
    (clearGroups first n a).group j = if first ≤ j ∧ j < first + n then 0 else a.group j := by
  induction n generalizing first a with
  | zero => rw [if_neg (by omega)]; rfl
  | succ n ih =>
    rw [clearGroups, ih (by omega), group_setGroup a (by omega)]
    by_cases later : first + 1 ≤ j ∧ j < first + 1 + n
    · rw [if_pos later, if_pos (by omega)]
    · rw [if_neg later]
      by_cases same : first = j
      · rw [if_pos same, if_pos (by omega)]
      · rw [if_neg same, if_neg (by omega)]

/-- With a gap, the groups behind it go to the end. -/
theorem fromString6End_gap {front back : List UInt16} {a : IPAddress} {zone : UInt8}
    (acc : UInt32) {groups : List UInt16} (stored : Stored a zone groups)
    (split : groups ++ [acc.toUInt16] = front ++ back) (few : (front ++ back).length ≤ 8)
    (behind : back ≠ []) :
    ∃ r, fromString6End acc groups.length (some front.length) a = (true, r) ∧ r.type = .v6 ∧
      Stored r zone (front ++ (List.replicate (8 - (front ++ back).length) 0 ++ back)) := by
  refine ⟨_, rfl, rfl, ?_⟩
  have length := congrArg List.length split
  rw [List.length_append, List.length_singleton] at length
  have whole := stored.push (by omega) acc.toUInt16
  rw [split] at whole
  have some_back := List.length_pos_iff.2 behind
  rw [List.length_append] at length few
  refine ⟨(zone_clearGroups _ _ _).trans ((zone_moveGroups _ _ _ _).trans whole.zone),
    fun i inside => ?_⟩
  simp only [List.length_append, List.length_replicate] at inside
  change (clearGroups _ _ _).group i = _
  rw [group_clearGroups (by omega), group_moveGroups (by omega) (by omega)]
  rw [length] at *
  by_cases first : i < front.length
  · rw [if_neg (by omega), if_neg (by omega), whole.groups i (by rw [List.length_append]; omega),
      List.getElem_append_left first, List.getElem_append_left first]
  by_cases gap : i < front.length + (8 - (front.length + back.length))
  · rw [if_pos (by omega), List.getElem_append_right (by omega),
      List.getElem_append_left (by rw [List.length_replicate, List.length_append]; omega),
      List.getElem_replicate]
  · rw [if_neg (by omega), if_pos (by omega), whole.groups _ (by rw [List.length_append]; omega),
      List.getElem_append_right (by omega), List.getElem_append_right (by omega),
      List.getElem_append_right (by rw [List.length_replicate, List.length_append]; omega)]
    simp only [List.length_replicate, List.length_append]
    congr 1
    omega

/-! ## Reading -/

theorem digit_facts : ∀ d < 16, IsAlnum (toLower (digit d)) ∧ digit d ≠ 0 ∧ digit d ≠ 0x2e ∧
    digit d ≠ 0x3a ∧ ((if 0x61 ≤ toLower (digit d) then toLower (digit d) - 39
      else toLower (digit d)).toUInt32 - 0x30).toNat = d := by
  decide

/-- One digit. -/
theorem fromString6Loop_digit {d : Nat} (small : d < 16) {n : Nat} (fit : 16 * n + d ≤ 0xffff)
    (rest : List UInt8) (dots : Nat) (doubledots : Option Nat) (a : IPAddress) :
    fromString6Loop (digit d :: rest) (UInt32.ofNat n) dots doubledots a =
      fromString6Loop rest (UInt32.ofNat (16 * n + d)) dots doubledots a := by
  obtain ⟨alnum, -, -, -, read⟩ := digit_facts d small
  rw [fromString6Loop_alnum alnum]
  dsimp only
  generalize UInt8.toUInt32 _ - 0x30 = value at *
  have sum : UInt32.ofNat n * 16 + value = UInt32.ofNat (16 * n + d) := by
    rw [← UInt32.toNat_inj, UInt32.toNat_add, UInt32.toNat_mul, UInt32.toNat_ofNat',
      UInt32.toNat_ofNat', read]
    change (n % 2 ^ 32 * 16 % 2 ^ 32 + d) % 2 ^ 32 = _
    omega
  have within : ¬ 0xffff < UInt32.ofNat (16 * n + d) := by
    rw [UInt32.lt_iff_toNat_lt, UInt32.toNat_ofNat']
    change ¬ 0xffff < _
    omega
  rw [sum, if_neg within]

/-- A group. -/
theorem fromString6Loop_hexadecimal (g : UInt16) (rest : List UInt8) (dots : Nat)
    (doubledots : Option Nat) (a : IPAddress) :
    fromString6Loop (hexadecimal g.toNat ++ rest) 0 dots doubledots a =
      fromString6Loop rest g.toUInt32 dots doubledots a := by
  have read : ∀ n, n ≤ 0xffff → ∀ rest,
      fromString6Loop (hexadecimal n ++ rest) (UInt32.ofNat 0) dots doubledots a =
        fromString6Loop rest (UInt32.ofNat n) dots doubledots a := by
    refine hexadecimal_induction (P := fun n text => n ≤ 0xffff → ∀ rest,
      fromString6Loop (text ++ rest) (UInt32.ofNat 0) dots doubledots a =
        fromString6Loop rest (UInt32.ofNat n) dots doubledots a) ?_ ?_
    · intro d small _ rest
      have first := fromString6Loop_digit small (n := 0) (by omega) rest dots doubledots a
      rwa [Nat.mul_zero, Nat.zero_add] at first
    · intro n d _ small ih fit rest
      rw [List.append_assoc, ih (by omega)]
      exact fromString6Loop_digit small fit rest dots doubledots a
  have whole := read g.toNat (Nat.le_of_lt_succ g.toNat_lt) rest
  rwa [UInt32.ofNat_uInt16ToNat] at whole

/-- The colon behind a group, if no other one follows. -/
theorem fromString6Loop_colon {rest : List UInt8} (plain : rest.head? ≠ some 0x3a) (acc : UInt32)
    {dots : Nat} (few : dots < 7) (doubledots : Option Nat) (a : IPAddress) :
    fromString6Loop (0x3a :: rest) acc dots doubledots a =
      fromString6Loop rest 0 (dots + 1) doubledots (a.setGroup dots acc.toUInt16) := by
  cases rest with
  | nil => rw [fromString6Loop_colon_last, if_neg (by omega)]
  | cons next more =>
    have other : next ≠ 0x3a := fun colon => plain (by rw [colon]; rfl)
    rw [fromString6Loop_colon_next, if_neg other, if_neg (by omega)]

theorem fromString6Loop_colons (rest : List UInt8) (acc : UInt32) {dots : Nat} (few : dots < 7)
    (a : IPAddress) :
    fromString6Loop (0x3a :: 0x3a :: rest) acc dots none a =
      fromString6Loop rest 0 (dots + 1) (some (dots + if acc = 0 then 0 else 1))
        (a.setGroup dots acc.toUInt16) := by
  rw [fromString6Loop_colon_next, if_pos rfl, Option.isSome_none, if_neg Bool.false_ne_true,
    if_neg (by omega)]

/-! ## Texts of groups -/

/-- Groups with a colon behind each. -/
def colonGroups (groups : List UInt16) : List UInt8 :=
  groups.flatMap fun g => hexadecimal g.toNat ++ [0x3a]

/-- Groups with a colon between them. -/
def joined : List UInt16 → List UInt8
  | [] => []
  | [g] => hexadecimal g.toNat
  | g :: rest => hexadecimal g.toNat ++ 0x3a :: joined rest

theorem colonGroups_cons (g : UInt16) (rest : List UInt16) :
    colonGroups (g :: rest) = hexadecimal g.toNat ++ 0x3a :: colonGroups rest := by
  rw [colonGroups, List.flatMap_cons, List.append_assoc]
  rfl

theorem joined_concat (groups : List UInt16) (last : UInt16) :
    joined (groups ++ [last]) = colonGroups groups ++ hexadecimal last.toNat := by
  induction groups with
  | nil => rfl
  | cons g rest ih =>
    rw [colonGroups_cons, List.append_assoc, List.cons_append, List.cons_append, ← ih]
    cases rest <;> rfl

/-- A group does not begin with a colon. -/
theorem head?_hexadecimal (n : Nat) (rest : List UInt8) :
    (hexadecimal n ++ rest).head? ≠ some 0x3a := by
  intro colon
  obtain ⟨c, more, text⟩ := List.exists_cons_of_ne_nil (hexadecimal_ne_nil n)
  rw [text, List.cons_append, List.head?_cons, Option.some_inj] at colon
  obtain ⟨d, small, digit⟩ := exists_digit_of_mem (n := n) (c := c) (by rw [text]; exact List.mem_cons_self)
  exact (digit_facts d small).2.2.2.1 (digit.symm.trans colon)

/-- Groups with colons are stored. -/
theorem fromString6Loop_groups {zone : UInt8} (more : List UInt16) {rest : List UInt8}
    (plain : rest.head? ≠ some 0x3a) {groups : List UInt16} {a : IPAddress}
    (stored : Stored a zone groups) (few : groups.length + more.length ≤ 7)
    (doubledots : Option Nat) :
    ∃ a', Stored a' zone (groups ++ more) ∧
      fromString6Loop (colonGroups more ++ rest) 0 groups.length doubledots a =
        fromString6Loop rest 0 (groups ++ more).length doubledots a' := by
  induction more generalizing groups a with
  | nil => exact ⟨a, by rwa [List.append_nil], by rw [List.append_nil]; rfl⟩
  | cons g more ih =>
    rw [List.length_cons] at few
    have next := stored.push (by omega) g
    obtain ⟨a', stored', read⟩ := ih next (by
      rw [List.length_append, List.length_singleton]
      omega)
    rw [List.append_assoc] at stored' read
    have plain' : (colonGroups more ++ rest).head? ≠ some 0x3a := by
      cases more with
      | nil => exact plain
      | cons g more =>
        rw [colonGroups_cons, List.append_assoc]
        exact head?_hexadecimal g.toNat _
    refine ⟨a', stored', ?_⟩
    rw [colonGroups_cons, List.append_assoc, List.cons_append, fromString6Loop_hexadecimal,
      fromString6Loop_colon plain' _ (by omega), UInt16.toUInt16_toUInt32]
    rwa [List.length_append, List.length_singleton] at read

theorem head?_joined (groups : List UInt16) : (joined groups).head? ≠ some 0x3a := by
  rcases List.eq_nil_or_concat groups with rfl | ⟨front, last, rfl⟩
  · exact fun colon => Option.some_ne_none _ colon.symm
  rw [List.concat_eq_append, joined_concat]
  cases front with
  | nil =>
    have plain := head?_hexadecimal last.toNat []
    rwa [List.append_nil] at plain
  | cons g rest =>
    rw [colonGroups_cons, List.append_assoc]
    exact head?_hexadecimal g.toNat _

/-- The end of a text of groups. -/
theorem fromString6Loop_joined {zone : UInt8} {more : List UInt16} (behind : more ≠ [])
    {groups : List UInt16} {a : IPAddress} (stored : Stored a zone groups)
    (few : groups.length + more.length ≤ 8) (doubledots : Option Nat) :
    ∃ front last a', more = front ++ [last] ∧ Stored a' zone (groups ++ front) ∧
      fromString6Loop (joined more) 0 groups.length doubledots a =
        fromString6End last.toUInt32 (groups ++ front).length doubledots a' := by
  rcases List.eq_nil_or_concat more with none | ⟨front, last, split⟩
  · exact absurd none behind
  rw [List.concat_eq_append] at split
  rw [split, List.length_append, List.length_singleton] at few
  have plain := head?_hexadecimal last.toNat []
  rw [List.append_nil] at plain
  obtain ⟨a', stored', read⟩ := fromString6Loop_groups front plain stored (by omega) doubledots
  refine ⟨front, last, a', split, stored', ?_⟩
  have whole := fromString6Loop_hexadecimal last [] (groups ++ front).length doubledots a'
  rw [List.append_nil] at whole
  rw [split, joined_concat, read, whole, fromString6Loop]

/-- Without a gap all eight groups are there, or the text is refused. -/
theorem fromString6Loop_whole {zone : UInt8} {more : List UInt16} (behind : more ≠ [])
    {groups : List UInt16} {a : IPAddress} (stored : Stored a zone groups)
    (few : groups.length + more.length ≤ 8) :
    (groups.length + more.length = 8 ∧
      ∃ r, fromString6Loop (joined more) 0 groups.length none a = (true, r) ∧ r.type = .v6 ∧
        Stored r zone (groups ++ more)) ∨
    (groups.length + more.length < 8 ∧
      (fromString6Loop (joined more) 0 groups.length none a).1 = false) := by
  obtain ⟨front, last, a', rfl, stored', read⟩ := fromString6Loop_joined behind stored few none
  rw [List.length_append, List.length_singleton] at few ⊢
  rw [read, fromString6End, List.length_append]
  by_cases all : groups.length + front.length = 7
  · left
    have whole := stored'.push (by rw [List.length_append]; omega) last.toUInt32.toUInt16
    rw [UInt16.toUInt16_toUInt32, List.append_assoc, List.length_append] at whole
    refine ⟨by omega, (a'.setGroup (groups.length + front.length) last).setV6, ?_, rfl, whole⟩
    rw [if_neg (not_not.2 all), UInt16.toUInt16_toUInt32]
  · right
    exact ⟨by omega, by rw [if_pos all]⟩

/-- The groups behind a gap. -/
theorem fromString6Loop_gap {zone : UInt8} (more : List UInt16) {groups : List UInt16}
    {a : IPAddress} (stored : Stored a zone groups) (front back : List UInt16)
    (split : groups ++ (if more = [] then [0] else more) = front ++ back) (behind : back ≠ [])
    (few : (front ++ back).length ≤ 8) :
    ∃ r, fromString6Loop (joined more) 0 groups.length (some front.length) a = (true, r) ∧
      r.type = .v6 ∧
      Stored r zone (front ++ (List.replicate (8 - (front ++ back).length) 0 ++ back)) := by
  by_cases none : more = []
  · rw [if_pos none] at split
    rw [none]
    exact fromString6End_gap 0 stored split few behind
  · rw [if_neg none] at split
    have count := congrArg List.length split
    rw [List.length_append] at count
    obtain ⟨start, last, a', rfl, stored', read⟩ :=
      fromString6Loop_joined none stored (by omega) (some front.length)
    rw [read]
    refine fromString6End_gap _ stored' ?_ few behind
    rw [UInt16.toUInt16_toUInt32, List.append_assoc, split]

/-- The groups before a gap. -/
theorem fromString6Loop_front {groups : List UInt16} (some_groups : groups ≠ [])
    (shown : ∀ g ∈ groups, g ≠ 0) (few : groups.length ≤ 7) (rest : List UInt8) (b : IPAddress) :
    ∃ a', Stored a' b.zone groups ∧
      fromString6Loop (colonGroups groups ++ 0x3a :: rest) 0 0 none b =
        fromString6Loop rest 0 groups.length (some groups.length) a' := by
  rcases List.eq_nil_or_concat groups with none | ⟨front, last, split⟩
  · exact absurd none some_groups
  rw [List.concat_eq_append] at split
  subst split
  rw [List.length_append, List.length_singleton] at few
  have plain := head?_hexadecimal last.toNat (0x3a :: 0x3a :: rest)
  obtain ⟨a', stored, read⟩ :=
    fromString6Loop_groups front plain (Stored.nil b) (by rw [List.length_nil]; omega) none
  have text : colonGroups (front ++ [last]) ++ 0x3a :: rest =
      colonGroups front ++ (hexadecimal last.toNat ++ 0x3a :: 0x3a :: rest) := by
    simp only [colonGroups, List.flatMap_append, List.flatMap_cons, List.flatMap_nil,
      List.append_assoc, List.append_nil, List.cons_append, List.nil_append]
  have nonzero : last.toUInt32 ≠ 0 := by
    intro zero
    refine shown last (by simp) ?_
    rw [← UInt16.toUInt16_toUInt32 last, zero]
    rfl
  have next := stored.push (by rw [List.nil_append]; omega) last
  rw [List.nil_append] at next read
  refine ⟨a'.setGroup front.length last, next, ?_⟩
  rw [text]
  refine read.trans ?_
  rw [fromString6Loop_hexadecimal, fromString6Loop_colons _ _ (by omega), if_neg nonzero,
    UInt16.toUInt16_toUInt32, List.length_append, List.length_singleton]

/-! ## Printing -/

/-- The loop over a list of groups, the last of which is the last one of the address. -/
def printList : List UInt16 → Int → List UInt8
  | [], _ => []
  | bit :: rest, count0 =>
    let shown := bit ≠ 0 ∨ count0 < 0
    let count0' := if shown then if 0 < count0 then -8 else count0 else count0 + 1
    (if shown then hexadecimal bit.toNat else []) ++
      (if (rest ≠ [] ∧ count0' < 2) ∨ count0' = 7 then [0x3a] else []) ++ printList rest count0'

theorem printGroups_eq (a : IPAddress) {i n : Nat} (whole : i + n = 8) (count0 : Int) :
    a.printGroups (List.range' i n) count0 = printList ((List.range' i n).map a.group) count0 := by
  induction n generalizing i count0 with
  | zero => rfl
  | succ n ih =>
    have last : i ≠ 7 ↔ (List.range' (i + 1) n).map a.group ≠ [] := by
      rw [Ne, Ne, List.map_eq_nil_iff, List.range'_eq_nil_iff]
      omega
    rw [List.range'_succ, printGroups, List.map_cons, printList]
    simp only [last, ih (i := i + 1) (by omega)]

theorem printList_cons_shown {g : UInt16} {count0 : Int} (shown : g ≠ 0 ∨ count0 < 0)
    (rest : List UInt16) :
    printList (g :: rest) count0 = hexadecimal g.toNat ++ (if rest ≠ [] then [0x3a] else []) ++
      printList rest (if 0 < count0 then -8 else count0) := by
  rw [printList]
  have small : (if 0 < count0 then -8 else count0) ≤ 0 := by split <;> omega
  simp only [if_pos shown]
  generalize (if 0 < count0 then -8 else count0) = next at *
  have colon : (rest ≠ [] ∧ next < 2) ∨ next = 7 ↔ rest ≠ [] :=
    ⟨fun either => either.elim And.left fun seven => by omega, fun more => .inl ⟨more, by omega⟩⟩
  simp only [colon]

theorem printList_cons_hidden {count0 : Int} (hidden : 0 ≤ count0) (rest : List UInt16) :
    printList (0 :: rest) count0 =
      (if (rest ≠ [] ∧ count0 < 1) ∨ count0 = 6 then [0x3a] else []) ++
        printList rest (count0 + 1) := by
  rw [printList]
  have not_shown : ¬ ((0 : UInt16) ≠ 0 ∨ count0 < 0) := by
    rintro (other | negative)
    · exact other rfl
    · omega
  have colon : (rest ≠ [] ∧ count0 + 1 < 2) ∨ count0 + 1 = 7 ↔
      (rest ≠ [] ∧ count0 < 1) ∨ count0 = 6 :=
    or_congr (and_congr_right fun _ => by omega) (by omega)
  simp only [if_neg not_shown, colon, List.nil_append]

/-- One more group of a text. -/
theorem joined_cons (g : UInt16) (rest : List UInt16) :
    hexadecimal g.toNat ++ (if rest ≠ [] then [0x3a] else []) ++ joined rest =
      joined (g :: rest) := by
  cases rest with
  | nil => rw [if_neg (not_not.2 rfl), joined, joined, List.append_nil, List.append_nil]
  | cons next more => rw [if_pos (List.cons_ne_nil _ _), List.append_assoc]; rfl

/-- After a gap every group is printed. -/
theorem printList_behind (groups : List UInt16) : printList groups (-8) = joined groups := by
  induction groups with
  | nil => rfl
  | cons g rest ih =>
    rw [printList_cons_shown (.inr (by decide)), if_neg (c := (0 : Int) < -8) (by decide), ih,
      joined_cons]

theorem printList_shown {groups : List UInt16} (shown : ∀ g ∈ groups, g ≠ 0) :
    printList groups 0 = joined groups := by
  induction groups with
  | nil => rfl
  | cons g rest ih =>
    rw [printList_cons_shown (.inl (shown g List.mem_cons_self)), if_neg (c := (0 : Int) < 0)
      (by decide), ih fun next mem => shown next (List.mem_cons_of_mem g mem), joined_cons]

/-- Groups before a gap. -/
theorem printList_front {front : List UInt16} (shown : ∀ g ∈ front, g ≠ 0)
    {rest : List UInt16} (more : rest ≠ []) :
    printList (front ++ rest) 0 = colonGroups front ++ printList rest 0 := by
  induction front with
  | nil => rfl
  | cons g front ih =>
    have more' : front ++ rest ≠ [] := by simp [more]
    rw [List.cons_append, printList_cons_shown (.inl (shown g List.mem_cons_self)), if_pos more',
      if_neg (c := (0 : Int) < 0) (by decide),
      ih fun next mem => shown next (List.mem_cons_of_mem g mem), colonGroups_cons]
    simp only [List.append_assoc, List.cons_append, List.nil_append]

/-- Zeros after a first one. -/
theorem printList_zeros (n : Nat) (rest : List UInt16) {count0 : Int} (one : 1 ≤ count0) :
    printList (List.replicate n 0 ++ rest) count0 =
      (if count0 < 7 ∧ 7 ≤ count0 + n then [0x3a] else []) ++ printList rest (count0 + n) := by
  induction n generalizing count0 with
  | zero => rw [if_neg (by omega)]; simp
  | succ n ih =>
    have next : count0 + 1 + n = count0 + (n + 1 : Nat) := by omega
    rw [List.replicate_succ, List.cons_append, printList_cons_hidden (by omega),
      ih (by omega), next]
    by_cases six : count0 = 6
    · rw [if_pos (.inr six), if_neg (by omega), if_pos (by omega)]
      rfl
    · have more : (count0 + 1 < 7 ∧ 7 ≤ count0 + (n + 1 : Nat)) ↔
          (count0 < 7 ∧ 7 ≤ count0 + (n + 1 : Nat)) := by omega
      rw [if_neg (by omega), List.nil_append]
      simp only [more]

/-- A gap of at least one group. -/
theorem printList_gap {n : Nat} (few : n + 1 ≤ 7) {rest : List UInt16}
    (first : rest.head? ≠ some 0) :
    printList (List.replicate (n + 1) 0 ++ rest) 0 =
      (if n + 1 + rest.length ≠ 1 then [0x3a] else []) ++ (if n + 1 = 7 then [0x3a] else []) ++
        joined rest := by
  have colon : ((List.replicate n 0 ++ rest ≠ [] ∧ (0 : Int) < 1) ∨ (0 : Int) = 6) ↔
      n + 1 + rest.length ≠ 1 := by
    rw [or_iff_left (by decide), and_iff_left (by decide), Ne, ← List.length_eq_zero_iff,
      List.length_append, List.length_replicate]
    omega
  have second : ((0 : Int) + 1 < 7 ∧ 7 ≤ (0 : Int) + 1 + n) ↔ n + 1 = 7 := by omega
  have behind : printList rest (0 + 1 + n) = joined rest := by
    cases rest with
    | nil => rfl
    | cons g rest =>
      have shown : g ≠ 0 := fun zero => first (by rw [zero]; rfl)
      rw [printList_cons_shown (.inl shown), if_pos (c := (0 : Int) < 0 + 1 + n) (by omega),
        printList_behind, joined_cons]
  rw [List.replicate_succ, List.cons_append, printList_cons_hidden (by decide),
    printList_zeros n rest (by decide), behind, List.append_assoc]
  simp only [colon, second]

/-! ## The way back -/

/-- The groups up to the first run of zeros, that run, and the rest. -/
theorem exists_gap (groups : List UInt16) :
    ∃ front n rest, groups = front ++ (List.replicate n 0 ++ rest) ∧ (∀ g ∈ front, g ≠ 0) ∧
      rest.head? ≠ some 0 ∧ (n = 0 → rest = []) := by
  induction groups with
  | nil =>
    exact ⟨[], 0, [], rfl, fun _ mem => absurd mem List.not_mem_nil,
      fun zero => Option.some_ne_none _ zero.symm, fun _ => rfl⟩
  | cons g groups ih =>
    obtain ⟨front, n, rest, split, shown, first, empty⟩ := ih
    by_cases zero : g = 0
    · subst zero
      cases front with
      | nil =>
        exact ⟨[], n + 1, rest, by rw [split]; rfl, shown, first, fun none => absurd none (by omega)⟩
      | cons next front =>
        refine ⟨[], 1, groups, rfl, fun _ mem => absurd mem List.not_mem_nil, ?_,
          fun none => absurd none (by decide)⟩
        rw [split, List.cons_append, List.head?_cons, Ne, Option.some_inj]
        exact shown next List.mem_cons_self
    · refine ⟨g :: front, n, rest, by rw [split]; rfl, ?_, first, empty⟩
      rw [List.forall_mem_cons]
      exact ⟨zero, shown⟩

/-- The text of these groups gives them back. -/
def Returns (groups : List UInt16) (b : IPAddress) : Prop :=
  ∃ r, fromString6Loop (printList groups 0) 0 0 none b = (true, r) ∧ r.type = .v6 ∧
    Stored r b.zone groups

theorem returns_shown {groups : List UInt16} (eight : groups.length = 8)
    (shown : ∀ g ∈ groups, g ≠ 0) (b : IPAddress) : Returns groups b := by
  have some_groups : groups ≠ [] := fun none => by simp [none] at eight
  rcases fromString6Loop_whole some_groups (Stored.nil b) (by rw [eight]; decide) with
    ⟨-, whole⟩ | ⟨less, -⟩
  · rw [Returns, printList_shown shown]
    exact whole
  · rw [eight] at less
    exact absurd less (by decide)

/-- A gap behind some groups. -/
theorem returns_front {front : List UInt16} (some_front : front ≠ []) (shown : ∀ g ∈ front, g ≠ 0)
    {n : Nat} {rest : List UInt16} (first : rest.head? ≠ some 0)
    (eight : front.length + (n + 1 + rest.length) = 8) (b : IPAddress) :
    Returns (front ++ (List.replicate (n + 1) 0 ++ rest)) b := by
  have length := List.length_pos_iff.2 some_front
  have text : printList (front ++ (List.replicate (n + 1) 0 ++ rest)) 0 =
      colonGroups front ++ ((if n + 1 + rest.length ≠ 1 then [0x3a] else []) ++
        (if n + 1 = 7 then [0x3a] else []) ++ joined rest) := by
    rw [printList_front shown (by simp), printList_gap (by omega) first]
  rw [Returns, text]
  by_cases last : n + 1 + rest.length = 1
  · -- the last group only
    obtain rfl : rest = [] := List.length_eq_zero_iff.1 (by omega)
    obtain rfl : n = 0 := by rw [List.length_nil] at last; omega
    obtain ⟨a', stored, read⟩ := fromString6Loop_groups front
      (show ([] : List UInt8).head? ≠ some 0x3a from fun colon => Option.some_ne_none _ colon.symm)
      (Stored.nil b) (by
        rw [List.length_nil] at eight ⊢
        omega) none
    have seven : front.length = 7 := by rw [List.length_nil] at eight; omega
    have whole := stored.push (by rw [List.nil_append]; omega) 0
    rw [List.nil_append, seven] at whole
    rw [List.nil_append, seven] at read
    exact ⟨_, read, rfl, whole⟩
  rw [if_pos last, List.append_assoc, List.singleton_append]
  by_cases seven : n + 1 = 7
  · -- all groups but the first
    obtain rfl : rest = [] := List.length_eq_zero_iff.1 (by omega)
    have one : front.length = 1 := by rw [List.length_nil] at eight; omega
    obtain ⟨a', stored, read⟩ :=
      fromString6Loop_front some_front shown (by omega) [0x3a] b
    have next := stored.push (by omega) 0
    obtain ⟨r, done, v6, groups⟩ := fromString6Loop_gap [] next front [0, 0]
      (by simp) (by simp) (by rw [List.length_append, one]; decide)
    refine ⟨r, ?_, v6, ?_⟩
    · rw [List.length_append, List.length_singleton] at done
      rw [if_pos seven, joined, List.append_nil, read, fromString6Loop_colon_last,
        if_neg (by omega)]
      exact done
    · rw [List.length_append, one] at groups
      rw [seven]
      exact groups
  · rw [if_neg seven, List.nil_append]
    obtain ⟨a', stored, read⟩ :=
      fromString6Loop_front some_front shown (by omega) (joined rest) b
    rw [read]
    by_cases none : rest = []
    · subst none
      have count : 8 - (front ++ [(0 : UInt16)]).length = n := by
        rw [List.length_nil] at eight
        rw [List.length_append, List.length_singleton]
        omega
      have gap := fromString6Loop_gap [] stored front [0]
        (by rw [if_pos rfl]) (by simp) (by rw [List.length_append, List.length_singleton]; omega)
      rwa [count, ← List.replicate_succ', ← List.append_nil (List.replicate (n + 1) 0)] at gap
    · have count : 8 - (front ++ rest).length = n + 1 := by
        rw [List.length_append]
        omega
      have gap := fromString6Loop_gap rest stored front rest
        (by rw [if_neg none]) none (by rw [List.length_append]; omega)
      rwa [count] at gap

/-- Zeros at the front. -/
theorem returns_zeros {n : Nat} (few : n + 1 ≤ 7) {rest : List UInt16}
    (first : rest.head? ≠ some 0) (eight : n + 1 + rest.length = 8) (b : IPAddress) :
    ((n = 0 ∨ n = 6) ∧ Returns (List.replicate (n + 1) 0 ++ rest) b) ∨
      (1 ≤ n ∧ n ≤ 5 ∧
        (fromString6Loop (printList (List.replicate (n + 1) 0 ++ rest) 0) 0 0 none b).1 = false) := by
  have some_rest : rest ≠ [] := fun none => by
    rw [none, List.length_nil] at eight
    omega
  rw [Returns, printList_gap few first, if_pos (by omega), List.append_assoc, List.singleton_append]
  by_cases six : n = 6
  · left
    subst six
    have next := (Stored.nil b).push (by decide) 0
    obtain ⟨r, done, v6, groups⟩ := fromString6Loop_gap rest next [] (0 :: rest)
      (by rw [if_neg some_rest]; rfl) (List.cons_ne_nil _ _) (by
        rw [List.nil_append, List.length_cons]
        omega)
    have count : 8 - ([] ++ (0 :: rest)).length = 6 := by
      rw [List.nil_append, List.length_cons]
      omega
    rw [count] at groups
    refine ⟨.inr rfl, r, ?_, v6, groups⟩
    rw [if_pos rfl]
    exact (fromString6Loop_colons (joined rest) 0 (by decide) b).trans done
  · rw [if_neg (by omega), List.nil_append,
      fromString6Loop_colon (head?_joined rest) 0 (by decide) none b]
    have next := (Stored.nil b).push (by decide) 0
    rcases fromString6Loop_whole some_rest next (by
        rw [List.nil_append, List.length_singleton]
        omega) with ⟨all, whole⟩ | ⟨less, refused⟩
    · rw [List.nil_append, List.length_singleton] at all
      obtain rfl : n = 0 := by omega
      exact .inl ⟨.inl rfl, whole⟩
    · rw [List.nil_append, List.length_singleton] at less
      exact .inr ⟨by omega, by omega, refused⟩

/-- At least two groups at the front are zero, and one before the last is not. -/
def GapAtFront (groups : List UInt16) : Prop :=
  groups.take 2 = [0, 0] ∧ ∃ g ∈ groups.take 7, g ≠ 0

theorem not_gapAtFront {g : UInt16} (shown : g ≠ 0) (rest : List UInt16) :
    ¬ GapAtFront (g :: rest) := by
  rintro ⟨zeros, -⟩
  rw [List.take_succ_cons, List.cons.injEq] at zeros
  exact shown zeros.1

theorem returns_or_refused {groups : List UInt16} (eight : groups.length = 8)
    (set : ∃ g ∈ groups, g ≠ 0) (b : IPAddress) :
    (¬ GapAtFront groups ∧ Returns groups b) ∨ (GapAtFront groups ∧
      (fromString6Loop (printList groups 0) 0 0 none b).1 = false) := by
  obtain ⟨front, n, rest, rfl, shown, first, empty⟩ := exists_gap groups
  cases front with
  | cons g front =>
    refine .inl ⟨not_gapAtFront (shown g List.mem_cons_self) _, ?_⟩
    cases n with
    | zero =>
      obtain rfl := empty rfl
      rw [List.replicate_zero, List.append_nil, List.append_nil] at eight ⊢
      exact returns_shown eight shown b
    | succ n =>
      simp only [List.length_append, List.length_replicate] at eight
      exact returns_front (List.cons_ne_nil g front) shown first eight b
  | nil =>
    rw [List.nil_append] at eight set ⊢
    rw [List.length_append, List.length_replicate] at eight
    have one : n ≠ 0 := fun zero => by
      rw [zero, empty zero] at eight
      exact absurd eight (by decide)
    obtain ⟨n, rfl⟩ := Nat.exists_eq_succ_of_ne_zero one
    have few : n + 1 ≤ 7 := by
      by_contra more
      obtain rfl : rest = [] := List.length_eq_zero_iff.1 (by omega)
      obtain ⟨g, mem, shown⟩ := set
      rw [List.append_nil] at mem
      exact shown (List.eq_of_mem_replicate mem)
    obtain ⟨g, rest, rfl⟩ := List.exists_cons_of_length_pos (l := rest) (by omega)
    have behind : g ≠ 0 := fun zero => first (by rw [zero]; rfl)
    rcases returns_zeros few first eight b with ⟨rfl | rfl, returns⟩ | ⟨two, most, refused⟩
    · refine .inl ⟨fun gap => behind ?_, returns⟩
      have zeros : [0, g] = [0, (0 : UInt16)] := gap.1
      rw [List.cons.injEq, List.cons.injEq] at zeros
      exact zeros.2.1
    · refine .inl ⟨?_, returns⟩
      rintro ⟨-, early, mem, shown⟩
      rw [List.take_left' (List.length_replicate ..)] at mem
      exact shown (List.eq_of_mem_replicate mem)
    · obtain ⟨m, rfl⟩ := Nat.exists_eq_succ_of_ne_zero (n := n) (by omega)
      refine .inr ⟨⟨rfl, g, ?_, behind⟩, refused⟩
      obtain ⟨k, room⟩ : ∃ k, 7 = (List.replicate (m + 1 + 1) (0 : UInt16)).length + (k + 1) :=
        ⟨4 - m, by rw [List.length_replicate]; omega⟩
      rw [room, List.take_length_add_append, List.take_succ_cons]
      exact List.mem_append_right _ List.mem_cons_self

theorem ne_of_mem_printList {c : UInt8} (groups : List UInt16) (count0 : Int)
    (mem : c ∈ printList groups count0) : c ≠ 0 ∧ c ≠ 0x2e := by
  induction groups generalizing count0 with
  | nil => exact absurd mem List.not_mem_nil
  | cons g rest ih =>
    rw [printList] at mem
    rcases List.mem_append.1 mem with shown | later
    · rcases List.mem_append.1 shown with group | colon
      · obtain ⟨d, small, rfl⟩ := exists_digit_of_mem (List.mem_ite_nil_right.1 group).2
        exact ⟨(digit_facts d small).2.1, (digit_facts d small).2.2.1⟩
      · rw [List.mem_singleton.1 (List.mem_ite_nil_right.1 colon).2]
        decide
    · exact ih _ later

/-- Without a dot nothing is stored as an IPv4 address. -/
theorem fromString4Loop_plain {text : List UInt8} (plain : 0x2e ∉ text) (acc : UInt16)
    (a : IPAddress) : fromString4Loop text acc 0 a = (false, a) := by
  induction text generalizing acc with
  | nil => rfl
  | cons c rest ih =>
    rw [List.mem_cons, not_or] at plain
    rw [fromString4Loop, if_neg (Ne.symm plain.1)]
    simp only [ih plain.2, ite_self]

/-- An address is read back from its text. -/
def RoundTrips (a b : IPAddress) : Prop :=
  (fromString a.toString b).1 = true ∧ (fromString a.toString b).2.equals a = true

theorem number_decimal (o : UInt8) : Number (decimal o.toNat) where
  digits _ mem := isDigit_of_mem_decimal mem
  small := by
    rw [value_decimal]
    exact Nat.le_of_lt_succ o.toNat_lt

theorem octetOf_decimal (o : UInt8) : octetOf (decimal o.toNat) = o := by
  rw [octetOf, value_decimal, UInt8.ofNat_toNat]

theorem toString_v4 {a : IPAddress} (set : a.isSet = true) (v4 : a.isV4 = true) :
    a.toString = dotted ([a.octet 0, a.octet 1, a.octet 2].map fun o => decimal o.toNat)
      (decimal (a.octet 3).toNat) := by
  have v6 : ¬ a.isV6 = true := fun v6 => by
    have both := (of_decide_eq_true v4).symm.trans (of_decide_eq_true v6)
    cases both
  rw [toString, set, Bool.not_true, if_neg Bool.false_ne_true, if_neg v6]
  simp [List.range_succ, dotted]

theorem roundTrips_v4 {a : IPAddress} (set : a.isSet = true) (v4 : a.isV4 = true) (b : IPAddress) :
    RoundTrips a b := by
  have text := toString_v4 set v4
  have plain : 0 ∉ a.toString := by
    rw [text]
    simp only [dotted, List.map_cons, List.map_nil, List.flatMap_cons, List.flatMap_nil,
      List.mem_append, List.mem_singleton, List.append_nil, not_or]
    have digits : ∀ o : UInt8, 0 ∉ decimal o.toNat := fun o zero =>
      absurd (isDigit_of_mem_decimal zero) (by decide)
    exact ⟨⟨⟨digits _, by decide⟩, ⟨digits _, by decide⟩, digits _, by decide⟩, digits _⟩
  have fields : FourFields a.toString.cstr
      ([a.octet 0, a.octet 1, a.octet 2].map fun o => decimal o.toNat)
      (decimal (a.octet 3).toNat) := by
    refine ⟨rfl, ?_, by rw [WString.cstr_of_not_mem plain, text]⟩
    simp only [List.map_cons, List.map_nil, List.cons_append, List.nil_append,
      List.forall_mem_cons]
    exact ⟨number_decimal _, number_decimal _, number_decimal _, number_decimal _,
      fun _ mem => absurd mem List.not_mem_nil⟩
  rw [RoundTrips, fromString, fromString4_fields fields b, Bool.not_true,
    if_neg Bool.false_ne_true]
  refine ⟨rfl, ?_⟩
  simp only [List.map_cons, List.map_nil, List.cons_append, List.nil_append, octetOf_decimal]
  have type := of_decide_eq_true v4
  have v4' : (setOctets 0 [a.octet 0, a.octet 1, a.octet 2, a.octet 3] b).type = .v4 :=
    type_setOctets fun none => absurd none (List.cons_ne_nil _ _)
  rw [equals, v4', type, if_neg (not_not.2 rfl), isV6, v4', if_neg (by decide), List.all_eq_true]
  intro i mem
  rw [List.mem_range] at mem
  rw [decide_eq_true_eq, byte_setOctets (by simp), if_pos ⟨Nat.zero_le i, by simpa using mem⟩]
  simp only [octet, if_pos v4]
  rcases i with _ | _ | _ | _ | i
  · rfl
  · rfl
  · rfl
  · rfl
  · omega

theorem toString_v6 {a : IPAddress} (set : a.isSet = true) (v6 : a.isV6 = true) :
    a.toString = printList ((List.range 8).map a.group) 0 := by
  rw [toString, set, Bool.not_true, if_neg Bool.false_ne_true, if_pos v6, List.range_eq_range']
  exact a.printGroups_eq rfl 0

theorem exists_group {a : IPAddress} (set : a.isSet = true) (v6 : a.isV6 = true) :
    ∃ g ∈ (List.range 8).map a.group, g ≠ 0 := by
  by_contra none
  push Not at none
  rw [isSet, if_pos v6, Bool.not_eq_true', List.all_eq_false] at set
  obtain ⟨i, mem, shown⟩ := set
  rw [List.mem_range] at mem
  have zero : a.group (i / 2) = Word16.ofBytes 0 0 :=
    none _ (List.mem_map_of_mem (List.mem_range.2 (by omega)))
  rw [group, Word16.ofBytes_inj] at zero
  refine shown (decide_eq_true ?_)
  rcases Nat.even_or_odd' i with ⟨k, rfl | rfl⟩
  · rw [Nat.mul_div_cancel_left k (by decide)] at zero
    exact zero.1
  · rw [Nat.mul_add_div (by decide)] at zero
    exact zero.2

/-- An address comes back from its text unless it is an IPv6 address of another zone or with a gap
of less than seven groups at the front. -/
theorem roundTrips_iff {a : IPAddress} (set : a.isSet = true)
    (family : a.isV4 = true ∨ a.isV6 = true) (b : IPAddress) :
    RoundTrips a b ↔ a.isV4 = true ∨
      (a.zone = b.zone ∧ ¬ GapAtFront ((List.range 8).map a.group)) := by
  by_cases v4 : a.isV4 = true
  · exact iff_of_true (roundTrips_v4 set v4 b) (.inl v4)
  have v6 : a.isV6 = true := family.resolve_left v4
  have text := toString_v6 set v6
  have plain : 0 ∉ a.toString := fun zero => by
    rw [text] at zero
    exact (ne_of_mem_printList _ _ zero).1 rfl
  have no_dot : 0x2e ∉ a.toString := fun dot => by
    rw [text] at dot
    exact (ne_of_mem_printList _ _ dot).2 rfl
  have read : fromString a.toString b =
      fromString6Loop (printList ((List.range 8).map a.group) 0) 0 0 none b := by
    rw [fromString, fromString4, WString.cstr_of_not_mem plain, fromString4Loop_plain no_dot,
      Bool.not_false, if_pos rfl, fromString6, WString.cstr_of_not_mem plain, text]
  rw [RoundTrips, read, or_iff_right v4]
  rcases returns_or_refused (by rw [List.length_map, List.length_range]) (exists_group set v6) b
    with ⟨readable, r, done, type, stored⟩ | ⟨gap, refused⟩
  · rw [done, and_iff_right rfl, and_iff_left readable, equals_iff_stored type,
      and_iff_right (of_decide_eq_true v6)]
    constructor
    · intro same
      exact same.zone.symm.trans stored.zone
    · intro same
      rwa [same]
  · rw [refused]
    exact iff_of_false (fun both => Bool.false_ne_true both.1) fun both => both.2 gap

/-- `fe80::1`. -/
def linkLocal : IPAddress := (empty.setGroup 0 0xfe80).setGroup 7 1

theorem roundTrips_linkLocal : RoundTrips linkLocal empty ↔ linkLocal.isV4 = true ∨
    (linkLocal.zone = empty.zone ∧ ¬ GapAtFront ((List.range 8).map linkLocal.group)) :=
  roundTrips_iff (by decide) (.inr (by decide)) empty

/-- `::a:b`. -/
def gapped : IPAddress := (empty.setGroup 6 0xa).setGroup 7 0xb

/-- It is written with one colon at the front, which is refused. -/
theorem not_roundTrips_gapped : gapped.isSet = true ∧ gapped.isV6 = true ∧
    gapped.zone = empty.zone ∧ ¬ RoundTrips gapped empty := by
  have text : gapped.toString = [0x3a, 0x61, 0x3a, 0x62] := by decide
  refine ⟨by decide, by decide, rfl, fun both => ?_⟩
  rw [RoundTrips, text] at both
  exact absurd both.1 (by decide)

end Esp8266.Source.IPAddress
