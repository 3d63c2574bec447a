import Mathlib.Data.List.TakeWhile
import Esp8266.Guarantees.StringSearches
import Esp8266.Lib.Matching
import Esp8266.Source.Stream

/-!
# What `find` finds in a stream

The target is matched with one index, and a character that departs from it is tried again as the
first one; for the terminator it is dropped. What begins within an attempt that fails is missed.
-/
set_option autoImplicit false

namespace Esp8266.Source.Stream
open Esp8266.Lib.Matching

/-! ## The two indices -/

theorem eq_chars_iff {text : List UInt8} {c : UInt8} (plain : c ≠ 0) (i : Nat) :
    c = chars text i ↔ text[i]? = some c := by
  rw [chars, List.getD_eq_getElem?_getD]
  cases text[i]? with
  | none => exact iff_of_false plain (Option.some_ne_none c).symm
  | some d => exact eq_comm.trans (Option.some_inj (a := d) (b := c)).symm

/-- The first match of the terminator, if there is one. -/
def terminatorHit (terminator : List UInt8) (k : Nat) (stream : List UInt8) : Option Nat :=
  if terminator = [] then none else hit false terminator k stream

/-- The target is matched, and not after the terminator. -/
def Wins (target terminator : List UInt8) (index termIndex : Nat) (stream : List UInt8)
    (n : Nat) : Prop :=
  hit true target index stream = some n ∧
    ∀ m, terminatorHit terminator termIndex stream = some m → n ≤ m

theorem wins_cons {target terminator : List UInt8} {index termIndex : Nat} {c : UInt8}
    {rest : List UInt8} (short : ¬ target.length ≤ advance true target index c)
    (goes_on : terminator ≠ [] →
      ¬ terminator.length ≤ advance false terminator termIndex c) (n : Nat) :
    Wins target terminator index termIndex (c :: rest) n ↔
      ∃ m, n = m + 1 ∧ Wins target terminator (advance true target index c)
        (advance false terminator termIndex c) rest m := by
  have later : terminatorHit terminator termIndex (c :: rest) =
      (terminatorHit terminator (advance false terminator termIndex c) rest).map (· + 1) := by
    unfold terminatorHit
    split
    · rfl
    · rename_i some_terminator
      rw [hit, if_neg (goes_on some_terminator)]
  unfold Wins
  rw [hit, if_neg short, later]
  constructor
  · rintro ⟨found, before⟩
    obtain ⟨m, found', rfl⟩ := Option.map_eq_some_iff.1 found
    exact ⟨m, rfl, found', fun k stops => Nat.le_of_succ_le_succ
      (before (k + 1) (Option.map_eq_some_iff.2 ⟨k, stops, rfl⟩))⟩
  · rintro ⟨m, rfl, found, before⟩
    refine ⟨Option.map_eq_some_iff.2 ⟨m, found, rfl⟩, fun k stops => ?_⟩
    obtain ⟨k, stops', rfl⟩ := Option.map_eq_some_iff.1 stops
    exact Nat.succ_le_succ (before k stops')

theorem advance_dropping (pattern : List UInt8) {c : UInt8} (plain : c ≠ 0) (i : Nat) :
    advance false pattern i c = if c = chars pattern i then i + 1 else 0 := by
  unfold advance
  rw [if_neg (fun both : false = true ∧ _ => Bool.false_ne_true both.1)]
  exact if_congr (eq_chars_iff plain i).symm rfl rfl

theorem advance_again (pattern : List UInt8) {c : UInt8} (plain : c ≠ 0) (i : Nat) :
    advance true pattern i c =
      if c = chars pattern (if c ≠ chars pattern i then 0 else i) then
        (if c ≠ chars pattern i then 0 else i) + 1
      else if c ≠ chars pattern i then 0 else i := by
  by_cases same : c = chars pattern i
  · rw [advance, if_pos ((eq_chars_iff plain i).1 same), if_neg (not_not.2 same), if_pos same]
  · rw [advance, if_neg (mt (eq_chars_iff plain i).2 same), if_pos same]
    by_cases first : c = chars pattern 0
    · rw [if_pos ⟨rfl, (eq_chars_iff plain 0).1 first⟩, if_pos first]
    · rw [if_neg fun both => first ((eq_chars_iff plain 0).2 both.2), if_neg first]

variable {target terminator : List UInt8}

/-- One character is read. -/
theorem findUntilLoop_cons (some_target : target ≠ []) {c : UInt8} (plain : c ≠ 0)
    (rest : List UInt8) (index termIndex : Nat) :
    findUntilLoop (chars target) target.length (chars terminator) terminator.length (c :: rest)
        index termIndex =
      if target.length ≤ advance true target index c then (true, rest)
      else if terminator ≠ [] ∧ terminator.length ≤ advance false terminator termIndex c then
        (false, rest)
      else findUntilLoop (chars target) target.length (chars terminator) terminator.length rest
        (advance true target index c) (advance false terminator termIndex c) := by
  have some_length : 0 < target.length := List.length_pos_of_ne_nil some_target
  rw [findUntilLoop, if_neg plain]
  dsimp only
  generalize reset : (if c ≠ chars target index then 0 else index) = start
  have next : advance true target index c = if c = chars target start then start + 1 else start :=
    reset ▸ advance_again target plain index
  have found_iff : (c = chars target start ∧ advance true target index c ≥ target.length) ↔
      target.length ≤ advance true target index c := by
    refine ⟨fun both => both.2, fun found => ⟨?_, found⟩⟩
    by_contra differs
    have restarted : start = 0 := by
      by_cases same : c = chars target index
      · rw [if_neg (not_not.2 same)] at reset
        exact absurd (reset ▸ same) differs
      · rw [if_pos same] at reset
        exact reset.symm
    rw [next, if_neg differs, restarted] at found
    omega
  have some_terminator : terminator.length > 0 ↔ terminator ≠ [] := List.length_pos_iff
  rw [← next, if_congr found_iff rfl rfl, advance_dropping terminator plain termIndex]
  by_cases found : target.length ≤ advance true target index c
  · rw [if_pos found, if_pos found]
  rw [if_neg found, if_neg found]
  by_cases stops : c = chars terminator termIndex
  · rw [if_pos stops]
    by_cases empty : terminator = []
    · subst empty
      exact absurd stops plain
    · rw [if_pos ⟨some_terminator.2 empty, stops⟩]
      exact if_congr (and_iff_right empty).symm rfl rfl
  · rw [if_neg fun both => stops both.2, if_neg stops]
    refine (if_neg fun both => ?_).symm
    exact absurd (List.length_pos_of_ne_nil both.1) (Nat.not_lt.2 both.2)

/-- The loop stops behind the target, if this comes first. -/
theorem findUntilLoop_spec (some_target : target ≠ []) (stream : List UInt8)
    (plain : 0 ∉ stream) (index termIndex : Nat) :
    (∃ n, Wins target terminator index termIndex stream n ∧
      findUntilLoop (chars target) target.length (chars terminator) terminator.length stream index
        termIndex = (true, stream.drop n)) ∨
    (∀ n, ¬ Wins target terminator index termIndex stream n) ∧
      (findUntilLoop (chars target) target.length (chars terminator) terminator.length stream
        index termIndex).1 = false := by
  induction stream generalizing index termIndex with
  | nil => exact .inr ⟨fun n wins => Option.some_ne_none n wins.1.symm, rfl⟩
  | cons c rest ih =>
    rw [List.mem_cons, not_or] at plain
    rw [findUntilLoop_cons some_target (Ne.symm plain.1)]
    by_cases found : target.length ≤ advance true target index c
    · refine .inl ⟨1, ⟨?_, fun m stops => ?_⟩, if_pos found⟩
      · rw [hit, if_pos found]
      · unfold terminatorHit at stops
        split at stops
        · exact absurd stops.symm (Option.some_ne_none m)
        · exact hit_pos stops
    rw [if_neg found]
    by_cases stops : terminator ≠ [] ∧ terminator.length ≤ advance false terminator termIndex c
    · refine .inr ⟨fun n wins => ?_, congrArg Prod.fst (if_pos stops)⟩
      have stopped : terminatorHit terminator termIndex (c :: rest) = some 1 := by
        rw [terminatorHit, if_neg stops.1, hit, if_pos stops.2]
      have early := wins.2 1 stopped
      have late := wins.1
      rw [hit, if_neg found] at late
      obtain ⟨m, later, rfl⟩ := Option.map_eq_some_iff.1 late
      have := hit_pos later
      omega
    · rw [if_neg stops]
      have step : ∀ n, Wins target terminator index termIndex (c :: rest) n ↔
          ∃ m, n = m + 1 ∧ Wins target terminator (advance true target index c)
            (advance false terminator termIndex c) rest m :=
        wins_cons found fun some_terminator ends => stops ⟨some_terminator, ends⟩
      rcases ih plain.2 (advance true target index c) (advance false terminator termIndex c) with
        ⟨n, wins, same⟩ | ⟨loses, same⟩
      · exact .inl ⟨n + 1, (step _).2 ⟨n, rfl, wins⟩, same⟩
      · refine .inr ⟨fun n wins => ?_, same⟩
        obtain ⟨m, -, wins'⟩ := (step n).1 wins
        exact loses m wins'

/-! ## Occurrences -/

/-- The first place of a text in a stream. -/
def First (text stream : List UInt8) (i : Nat) : Prop := IsLeast {i | OccursAt text stream i} i

/-- `find` finds the target where it stands, and reads up to its end. -/
def FindsTarget (target stream : List UInt8) : Prop :=
  ((find target stream).1 = true ↔ ∃ i, OccursAt target stream i) ∧
    ((find target stream).1 = true → ∀ i, First target stream i →
      (find target stream).2 = stream.drop (i + target.length))

/-- `findUntil` finds the target, if its first end is not behind that of the terminator. -/
def FindsUntil (target terminator stream : List UInt8) : Prop :=
  (findUntil target terminator stream).1 = true ↔
    ∃ i, First target stream i ∧ (terminator ≠ [] → ∀ k, First terminator stream k →
      i + target.length ≤ k + terminator.length)

/-- The first target stands where the matcher begins an attempt, and so does one of the terminators
that end before it does, if there are any. -/
def Met (target terminator stream : List UInt8) : Prop :=
  ∀ i, First target stream i → Tried true target stream i ∧
    (terminator ≠ [] → ∀ k, First terminator stream k →
      k + terminator.length < i + target.length →
      ∃ k', Tried false terminator stream k' ∧ OccursAt terminator stream k' ∧
        k' + terminator.length < i + target.length)

theorem exists_first {text stream : List UInt8} (occurs : ∃ i, OccursAt text stream i) :
    ∃ i, First text stream i :=
  ⟨Nat.find occurs, Nat.find_spec occurs, fun _ here => Nat.find_min' occurs here⟩

theorem strlen_plain {text : List UInt8} (plain : 0 ∉ text) : strlen text = text.length := by
  have whole : text.takeWhile (· ≠ 0) = text := List.takeWhile_eq_self_iff.2 fun c inside =>
    decide_eq_true fun zero => plain (zero ▸ inside)
  rw [strlen, whole]

section Answers

variable {stream : List UInt8} (some_target : target ≠ []) (target_plain : 0 ∉ target)
  (plain : 0 ∉ stream)

include some_target target_plain plain

/-- The answer of `findUntil`, and what is left of the stream where it is true. -/
theorem findUntil_spec (terminator_plain : 0 ∉ terminator) :
    (∃ n, Wins target terminator 0 0 stream n ∧
      findUntil target terminator stream = (true, stream.drop n)) ∨
    (∀ n, ¬ Wins target terminator 0 0 stream n) ∧
      (findUntil target terminator stream).1 = false := by
  have nonzero : chars target 0 ≠ 0 := by
    cases target with
    | nil => exact absurd rfl some_target
    | cons c rest => exact fun zero => target_plain (zero ▸ List.mem_cons_self)
  have called : findUntil target terminator stream = findUntilLoop (chars target) target.length
      (chars terminator) terminator.length stream 0 0 := by
    rw [findUntil, strlen_plain target_plain, strlen_plain terminator_plain, findUntilLen,
      if_neg nonzero]
  rw [called]
  exact findUntilLoop_spec some_target stream plain 0 0

omit target_plain plain in
/-- The first target is matched where an attempt begins at it. -/
theorem tried_first_iff {i : Nat} (first : First target stream i) :
    Tried true target stream i ↔ hit true target 0 stream = some (i + target.length) := by
  constructor
  · intro tried
    obtain ⟨n, most, found⟩ := hit_of_tried some_target tried first.1
    obtain ⟨i', -, stands, rfl⟩ := tried_of_hit some_target found
    have least : i ≤ i' := first.2 stands
    rw [found]
    exact congrArg some (by omega)
  · intro found
    obtain ⟨i', tried, -, same⟩ := tried_of_hit some_target found
    rwa [Nat.add_right_cancel same]

/-- `find` is right where the first target is matched. -/
theorem findsTarget_iff : FindsTarget target stream ↔
    ∀ i, First target stream i → Tried true target stream i := by
  have wins : ∀ n, Wins target [] 0 0 stream n ↔ hit true target 0 stream = some n := fun n =>
    and_iff_left fun m stops => absurd stops.symm (Option.some_ne_none m)
  have no_terminator : (0 : UInt8) ∉ [] := List.not_mem_nil
  have answer := findUntil_spec some_target target_plain plain no_terminator
  unfold FindsTarget find
  constructor
  · rintro ⟨finds, reads⟩ i first
    rcases answer with ⟨n, won, same⟩ | ⟨-, missed⟩
    · have found := (wins n).1 won
      have left := reads (congrArg Prod.fst same) i first
      rw [same] at left
      obtain ⟨i', -, stands, rfl⟩ := tried_of_hit some_target found
      have lengths := congrArg List.length left
      dsimp only at lengths
      rw [List.length_drop, List.length_drop] at lengths
      have inside := OccursAt.le first.1 some_target
      have inside' := OccursAt.le stands some_target
      rw [tried_first_iff some_target first, found]
      exact congrArg some (by omega)
    · exact absurd (finds.2 ⟨i, first.1⟩) (by rw [missed]; exact Bool.false_ne_true)
  · intro met
    rcases answer with ⟨n, won, same⟩ | ⟨missed, same⟩
    · have found := (wins n).1 won
      obtain ⟨i', -, stands, -⟩ := tried_of_hit some_target found
      rw [same]
      refine ⟨iff_of_true rfl ⟨i', stands⟩, fun _ i first => ?_⟩
      have found' := (tried_first_iff some_target first).1 (met i first)
      rw [Option.some.inj (found.symm.trans found')]
    · rw [same]
      refine ⟨iff_of_false Bool.false_ne_true fun occurs => ?_,
        fun true_ => absurd true_ Bool.false_ne_true⟩
      obtain ⟨i, first⟩ := exists_first occurs
      exact missed _ ((wins _).2 ((tried_first_iff some_target first).1 (met i first)))

end Answers

/-- `find` and `findUntil` do what they are said to do exactly where the first target, and a
terminator that ends before it, are met by attempts. -/
theorem finds_iff (target terminator stream : List UInt8) (some_target : target ≠ [])
    (target_plain : 0 ∉ target) (terminator_plain : 0 ∉ terminator) (plain : 0 ∉ stream) :
    (FindsTarget target stream ∧ FindsUntil target terminator stream) ↔
      Met target terminator stream := by
  have answer := findUntil_spec some_target target_plain plain terminator_plain
  have wins_iff : (findUntil target terminator stream).1 = true ↔
      ∃ n, Wins target terminator 0 0 stream n := by
    rcases answer with ⟨n, won, same⟩ | ⟨missed, same⟩
    · exact iff_of_true (congrArg Prod.fst same) ⟨n, won⟩
    · exact iff_of_false (by rw [same]; exact Bool.false_ne_true) fun ⟨n, won⟩ => missed n won
  rw [findsTarget_iff some_target target_plain plain, FindsUntil, wins_iff]
  constructor
  · rintro ⟨met, until_⟩ i first
    refine ⟨met i first, fun some_terminator k before early => ?_⟩
    by_contra none_met
    have found := (tried_first_iff some_target first).1 (met i first)
    obtain ⟨i', first', last⟩ := until_.1 ⟨_, found, fun m stops => by
      rw [terminatorHit, if_neg some_terminator] at stops
      obtain ⟨k', tried, stands, rfl⟩ := tried_of_hit some_terminator stops
      exact Nat.le_of_not_lt fun earlier => none_met ⟨k', tried, stands, earlier⟩⟩
    obtain rfl := first.unique first'
    exact absurd (last some_terminator k before) (Nat.not_le_of_lt early)
  · intro met
    refine ⟨fun i first => (met i first).1, ?_⟩
    constructor
    · rintro ⟨n, found, wins⟩
      obtain ⟨i', -, stands, -⟩ := tried_of_hit some_target found
      obtain ⟨i, first⟩ := exists_first ⟨i', stands⟩
      refine ⟨i, first, fun some_terminator k before => Nat.le_of_not_lt fun early => ?_⟩
      have own := (tried_first_iff some_target first).1 (met i first).1
      obtain ⟨k', tried, stands', earlier⟩ := (met i first).2 some_terminator k before early
      obtain ⟨m, most, stops⟩ := hit_of_tried some_terminator tried stands'
      have later := wins m ((if_neg some_terminator).trans stops)
      have same := Option.some.inj (found.symm.trans own)
      omega
    · rintro ⟨i, first, last⟩
      refine ⟨i + target.length, (tried_first_iff some_target first).1 (met i first).1,
        fun m stops => ?_⟩
      unfold terminatorHit at stops
      split at stops
      · exact absurd stops.symm (Option.some_ne_none m)
      · rename_i some_terminator
        obtain ⟨k', -, stands, rfl⟩ := tried_of_hit some_terminator stops
        obtain ⟨k, before⟩ := exists_first ⟨k', stands⟩
        have least : k ≤ k' := before.2 stands
        have := last some_terminator k before
        omega

/-- A line is read up to `=`, which ends it. -/
theorem finds_key :
    (FindsTarget [0x3d] [0x61, 0x3d, 0x31, 0x0a] ∧
        FindsUntil [0x3d] [0x0a] [0x61, 0x3d, 0x31, 0x0a]) ↔
      Met [0x3d] [0x0a] [0x61, 0x3d, 0x31, 0x0a] :=
  finds_iff [0x3d] [0x0a] [0x61, 0x3d, 0x31, 0x0a] (by decide) (by decide) (by decide) (by decide)

/-- `aab` is missed in `aaab`. -/
theorem find_misses_border :
    ¬ FindsTarget [0x61, 0x61, 0x62] [0x61, 0x61, 0x61, 0x62] := by
  rintro ⟨finds, -⟩
  have missed : (find [0x61, 0x61, 0x62] [0x61, 0x61, 0x61, 0x62]).1 = false := by decide
  have found := finds.2 ⟨1, by decide⟩
  rw [missed] at found
  exact Bool.false_ne_true found

end Esp8266.Source.Stream
