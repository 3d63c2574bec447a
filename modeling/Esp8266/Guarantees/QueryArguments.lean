import Esp8266.Source.QueryString

/-!
# What a query string is parsed to

The loop is followed over the segments between separators. It sees the data up to the first NUL
byte, stays where it is at a segment that begins with `=` and is not the last, and otherwise
takes one segment after the other. The arguments meant are those of all segments with a key.
-/
set_option autoImplicit false

namespace Esp8266.Source.QueryString
open Esp8266.Source.WString

/-! ## What is meant -/

/-- The segments between `&` and `;`. -/
def segments (data : WString) : List WString := data.splitOnP separator

def rawKey (segment : WString) : WString := segment.takeWhile (· ≠ 61)

def rawValue (segment : WString) : WString := (segment.dropWhile (· ≠ 61)).tail

def argument (segment : WString) : RequestArgument :=
  ⟨urlDecode (rawKey segment), urlDecode (rawValue segment)⟩

/-- The arguments of the segments with a key. -/
def arguments (segments : List WString) : List RequestArgument :=
  (segments.filter fun segment => rawKey segment ≠ []).map argument

/-! ## Segments of a concatenation -/

theorem segments_ne_nil (data : WString) : segments data ≠ [] := List.splitOnP_ne_nil _ _

/-- The last segment of the front and the first of the back are one. -/
theorem segments_append (front back : WString) :
    segments (front ++ back) = (segments front).dropLast ++
      ((segments front).getLast (segments_ne_nil front) ++ (segments back).head (segments_ne_nil back)) ::
        (segments back).tail := by
  induction front with
  | nil =>
    have one : segments [] = [[]] := List.splitOnP_nil
    simp only [List.nil_append, one, List.dropLast_singleton, List.getLast_singleton,
      List.cons_head_tail]
  | cons c rest ih =>
    have step (data : WString) : segments (c :: data) =
        if separator c then [] :: segments data else (segments data).modifyHead (c :: ·) :=
      List.splitOnP_cons_eq_if_modifyHead ..
    obtain ⟨first, more, split⟩ := List.exists_cons_of_ne_nil (segments_ne_nil rest)
    simp only [List.cons_append, step, ih]
    by_cases sep : separator c
    · simp only [sep, if_true, split]
      simp
    · simp only [sep, split]
      cases more with
      | nil => simp
      | cons second others => simp

/-! ## What one pass of the loop finds -/

theorem charAt_mid (pre : WString) (c : UInt8) (t : WString) :
    charAt (pre ++ c :: t) pre.length = c := charAt_append pre (c :: t)

theorem skipEmpty_eq (seps : WString) : ∀ (pre rest : WString) (fuel : Nat),
    seps.length ≤ fuel → (∀ c ∈ seps, separator c = true) → separator (rest.headD 0) = false →
    skipEmpty (pre ++ (seps ++ rest)) fuel pre.length = pre.length + seps.length := by
  induction seps with
  | nil =>
    intro pre rest fuel _ _ stop
    cases fuel with
    | zero => rfl
    | succ fuel =>
      rw [skipEmpty, List.nil_append, charAt_append, stop, if_neg Bool.false_ne_true]
      rfl
  | cons c seps ih =>
    intro pre rest fuel enough all stop
    cases fuel with
    | zero => cases enough
    | succ fuel =>
      rw [skipEmpty, List.cons_append, charAt_mid, if_pos (all c List.mem_cons_self)]
      have next := ih (pre ++ [c]) rest fuel (Nat.le_of_succ_le_succ enough)
        (fun c' mem => all c' (List.mem_cons_of_mem _ mem)) stop
      rw [List.append_assoc, List.singleton_append, List.length_append,
        List.length_singleton] at next
      split
      · rename_i short
        simp only [List.length_append, List.length_cons] at short ⊢
        omega
      · rw [next, List.length_cons]
        omega

/-- Neither a separator nor a NUL. -/
def Plain (segment : WString) : Prop := 0 ∉ segment ∧ ∀ c ∈ segment, separator c = false

theorem Plain.not_mem {segment : WString} (plain : Plain segment) {c : UInt8}
    (sep : separator c = true) : c ∉ segment := by
  intro mem
  rw [plain.2 c mem] at sep
  cases sep

/-- The data ends, or what functions of C see of it. -/
def Ends (stop : WString) : Prop := stop = [] ∨ ∃ t, stop = 0 :: t

theorem Ends.cstr {stop : WString} (ends : Ends stop) : stop.cstr = [] := by
  rcases ends with rfl | ⟨t, rfl⟩ <;> rfl

theorem nextIndex_last (pre seg stop : WString) (plain : Plain seg) (ends : Ends stop) :
    nextIndex (pre ++ (seg ++ stop)) pre.length = -1 := by
  have absent {ch : UInt8} (sep : separator ch = true) : ch ∉ cstr (seg ++ stop) := by
    rw [cstr_append_of_not_mem plain.1, ends.cstr, List.append_nil]
    exact plain.not_mem sep
  rw [nextIndex, indexOf_absent _ _ (absent (by decide)) (by decide),
    indexOf_absent _ _ (absent (by decide)) (by decide)]
  decide

theorem nextIndex_sep (pre seg rest : WString) (plain : Plain seg) {c : UInt8}
    (sep : separator c = true) :
    nextIndex (pre ++ (seg ++ c :: rest)) pre.length = (pre.length + seg.length : Nat) := by
  have first : c ∉ seg := plain.not_mem sep
  have beyond (ch : UInt8) (ch_sep : separator ch = true) (other : ch ≠ c) (ch_ne : ch ≠ 0) :
      indexOf (pre ++ (seg ++ c :: rest)) ch pre.length = -1 ∨
        ((pre.length + (seg.length + 1) : Nat) : Int) ≤
          indexOf (pre ++ (seg ++ c :: rest)) ch pre.length := by
    have := indexOf_beyond pre (seg ++ [c]) rest
      (by
        have : (0 : UInt8) ≠ c := fun zero => by rw [← zero] at sep; cases sep
        simp [plain.1, this])
      (by simp [plain.not_mem ch_sep, other]) ch_ne
    rwa [List.append_assoc, List.singleton_append, List.length_append,
      List.length_singleton] at this
  have found (ch_ne : c ≠ 0) := indexOf_found pre seg rest plain.1 first ch_ne
  rw [nextIndex]
  have which : c = 38 ∨ c = 59 := by simpa [separator] using sep
  rcases which with rfl | rfl
  · rw [found (by decide)]
    rcases beyond 59 (by decide) (by decide) (by decide) with none | later
    · rw [none]
      simp only [ne_eq, not_true_eq_false, false_and, or_false]
      rw [if_neg (by omega)]
    · rw [if_neg (by omega)]
  · rw [found (by decide)]
    rcases beyond 38 (by decide) (by decide) (by decide) with none | later
    · rw [none, if_pos (.inl rfl)]
    · rw [if_pos (.inr (by omega))]

/-- A segment is its key alone, or its key, `=` and its value. -/
theorem segment_cases (segment : WString) :
    (61 ∉ segment ∧ rawKey segment = segment ∧ rawValue segment = []) ∨
    ∃ key value, segment = key ++ 61 :: value ∧ 61 ∉ key ∧ rawKey segment = key ∧
      rawValue segment = value := by
  induction segment with
  | nil => exact .inl ⟨List.not_mem_nil, rfl, rfl⟩
  | cons c rest ih =>
    by_cases equal : c = 61
    · subst equal
      exact .inr ⟨[], rest, rfl, List.not_mem_nil, rfl, rfl⟩
    · have key : rawKey (c :: rest) = c :: rawKey rest :=
        List.takeWhile_cons_of_pos (by simpa using equal)
      have value : rawValue (c :: rest) = rawValue rest :=
        congrArg List.tail (List.dropWhile_cons_of_pos (by simpa using equal))
      rw [key, value]
      rcases ih with ⟨none, same, empty⟩ | ⟨key, value, split, none, same, after⟩
      · left
        rw [same]
        exact ⟨by simp [none, Ne.symm equal], rfl, empty⟩
      · right
        exact ⟨c :: key, value, congrArg (c :: ·) split, by simp [none, Ne.symm equal],
          congrArg (c :: ·) same, after⟩

theorem Plain.of_append {front back : WString} (plain : Plain (front ++ back)) :
    Plain front ∧ Plain back := by
  constructor
  · exact ⟨fun mem => plain.1 (List.mem_append_left _ mem),
      fun c mem => plain.2 c (List.mem_append_left _ mem)⟩
  · exact ⟨fun mem => plain.1 (List.mem_append_right _ mem),
      fun c mem => plain.2 c (List.mem_append_right _ mem)⟩

theorem keyEndPos_next {data : WString} {equal next : Int}
    (outside : equal = -1 ∨ (equal > next ∧ next ≠ -1)) (some : next ≠ -1) :
    keyEndPos data equal next = next := by
  rw [keyEndPos]
  simp only [if_pos outside, if_neg some]

theorem keyEndPos_equal {data : WString} {equal next : Int}
    (inside : ¬ (equal = -1 ∨ (equal > next ∧ next ≠ -1))) :
    keyEndPos data equal next = equal := by
  rw [keyEndPos]
  simp only [if_neg inside, if_neg (fun none => inside (.inl none))]

/-- What the loop knows of the segment that it stands before. -/
structure Located (data : WString) (pos : Nat) (segment : WString) (keyEnd next : Int) : Prop where
  ends : keyEndPos data (data.indexOf 61 pos) next = keyEnd
  stored : storeArg .empty data (data.indexOf 61 pos) pos keyEnd next = argument segment

/-- The key of a segment reads as it stands, also where the segment is the last. -/
theorem located_sep (pre seg rest : WString) (plain : Plain seg) {c : UInt8}
    (sep : separator c = true) :
    Located (pre ++ (seg ++ c :: rest)) pre.length seg (pre.length + (rawKey seg).length : Nat)
      (pre.length + seg.length : Nat) := by
  have other : c ≠ 61 := fun same => by rw [same] at sep; cases sep
  have ch_ne : (0 : UInt8) ≠ c := fun zero => by rw [← zero] at sep; cases sep
  rcases segment_cases seg with ⟨none, key, value⟩ | ⟨key, value, rfl, none, same, held⟩
  · have beyond := indexOf_beyond pre (seg ++ [c]) rest
      (by simp [plain.1, ch_ne]) (by simp [none, Ne.symm other]) (show (61 : UInt8) ≠ 0 by decide)
    rw [List.append_assoc, List.singleton_append, List.length_append,
      List.length_singleton] at beyond
    have ends : keyEndPos (pre ++ (seg ++ c :: rest))
        (indexOf (pre ++ (seg ++ c :: rest)) 61 pre.length) (pre.length + seg.length : Nat) =
        (pre.length + (rawKey seg).length : Nat) := by
      rw [key]
      exact keyEndPos_next (by omega) (by omega)
    refine ⟨ends, ?_⟩
    rw [storeArg, if_neg (by omega), rightEnd_natCast, key,
      substring_append pre seg (c :: rest) plain.1, argument, key, value]
    rfl
  · rw [same]
    obtain ⟨keyPlain, valuePlain⟩ := plain.of_append
    have equal : indexOf (pre ++ ((key ++ 61 :: value) ++ c :: rest)) 61 pre.length =
        (pre.length + key.length : Nat) := by
      rw [List.append_assoc]
      exact indexOf_found pre key _ keyPlain.1 none (by decide)
    have length : (key ++ 61 :: value).length = key.length + (value.length + 1) := by simp
    have whole : pre ++ ((key ++ 61 :: value) ++ c :: rest) =
        (pre ++ (key ++ [61])) ++ (value ++ c :: rest) := by simp
    have behind : (pre ++ (key ++ [61])).length = pre.length + key.length + 1 := by
      simp [Nat.add_assoc]
    have ends : keyEndPos (pre ++ ((key ++ 61 :: value) ++ c :: rest))
        (indexOf (pre ++ ((key ++ 61 :: value) ++ c :: rest)) 61 pre.length)
        (pre.length + (key ++ 61 :: value).length : Nat) = (pre.length + key.length : Nat) := by
      rw [equal, length]
      exact keyEndPos_equal (by omega)
    refine ⟨ends, ?_⟩
    have first : substring (pre ++ ((key ++ 61 :: value) ++ c :: rest)) pre.length
        (pre.length + key.length) = key := by
      rw [List.append_assoc]
      exact substring_append pre key _ keyPlain.1
    rw [equal, storeArg, rightEnd_natCast, rightEnd_natCast, first, argument, same, held]
    by_cases more : value = []
    · rw [if_neg (by rw [length, more, List.length_nil]; omega), more]
      rfl
    · have some : 0 < value.length := List.length_pos_iff.mpr more
      have clean : 0 ∉ value := fun zero => valuePlain.1 (List.mem_cons_of_mem _ zero)
      have second := substring_append (pre ++ (key ++ [61])) value (c :: rest) clean
      rw [← whole, behind] at second
      have left : (((pre.length + key.length : Nat) : Int) + 1).toNat =
          pre.length + key.length + 1 := by omega
      have right : pre.length + (key ++ 61 :: value).length =
          pre.length + key.length + 1 + value.length := by omega
      rw [if_pos (by omega), left, right, second]

/-- The last segment that the loop sees. -/
theorem located_last (pre seg stop : WString) (plain : Plain seg) (ends : Ends stop) :
    Located (pre ++ (seg ++ stop)) pre.length seg
      (if 61 ∈ seg then (pre.length + (rawKey seg).length : Nat)
        else ((pre ++ (seg ++ stop)).length : Nat)) (-1) := by
  rcases segment_cases seg with ⟨none, key, value⟩ | ⟨key, value, rfl, none, same, held⟩
  · have absent : 61 ∉ cstr (seg ++ stop) := by
      rw [cstr_append_of_not_mem plain.1, ends.cstr, List.append_nil]
      exact none
    have equal := indexOf_absent pre (seg ++ stop) absent (by decide)
    rw [if_neg none]
    constructor
    · rw [equal]
      rfl
    · rw [storeArg, if_neg (by omega), rightEnd_natCast, substring_end,
        cstr_append_of_not_mem plain.1, ends.cstr, List.append_nil, argument, key, value]
      rfl
  · obtain ⟨keyPlain, valuePlain⟩ := plain.of_append
    have equal : indexOf (pre ++ ((key ++ 61 :: value) ++ stop)) 61 pre.length =
        (pre.length + key.length : Nat) := by
      rw [List.append_assoc]
      exact indexOf_found pre key _ keyPlain.1 none (by decide)
    have first : substring (pre ++ ((key ++ 61 :: value) ++ stop)) pre.length
        (pre.length + key.length) = key := by
      rw [List.append_assoc]
      exact substring_append pre key _ keyPlain.1
    have whole : pre ++ ((key ++ 61 :: value) ++ stop) =
        (pre ++ (key ++ [61])) ++ (value ++ stop) := by simp
    have behind : (pre ++ (key ++ [61])).length = pre.length + key.length + 1 := by
      simp [Nat.add_assoc]
    have clean : 0 ∉ value := fun zero => valuePlain.1 (List.mem_cons_of_mem _ zero)
    have second := substring_end (pre ++ (key ++ [61])) (value ++ stop)
    rw [← whole, behind, cstr_append_of_not_mem clean, ends.cstr, List.append_nil] at second
    have left : (((pre.length + key.length : Nat) : Int) + 1).toNat =
        pre.length + key.length + 1 := by omega
    rw [if_pos (by simp), same]
    constructor
    · rw [equal]
      exact keyEndPos_equal (by omega)
    · rw [equal, storeArg, rightEnd_natCast, rightEnd_neg_one, first, argument, same, held,
        if_pos (by omega), left, second]

/-! ## One pass of the loop -/

theorem rawKey_eq_nil_iff {seg : WString} (none : 61 ∉ seg) : rawKey seg = [] ↔ seg = [] := by
  rcases segment_cases seg with ⟨_, key, _⟩ | ⟨key, value, rfl, _, _, _⟩
  · rw [key]
  · exact absurd (List.mem_append_right _ List.mem_cons_self) none

theorem Plain.head {seg : WString} (plain : Plain seg) {rest : WString}
    (stops : seg = [] → separator (rest.headD 0) = false) :
    separator ((seg ++ rest).headD 0) = false := by
  cases seg with
  | nil => exact stops rfl
  | cons c others => exact plain.2 c List.mem_cons_self

theorem Ends.head {stop : WString} (ends : Ends stop) : separator (stop.headD 0) = false := by
  rcases ends with rfl | ⟨t, rfl⟩ <;> rfl

/-- The pass at the last segment ends the loop. -/
theorem pass_last (handler : ArgHandler) {pre seps seg stop data : WString} (fuel total : Nat)
    (args : List RequestArgument) (isSeps : ∀ c ∈ seps, separator c = true) (plain : Plain seg)
    (ends : Ends stop) (whole : data = pre ++ (seps ++ (seg ++ stop))) :
    ∃ equal keyEnd, storeArg .empty data equal (pre.length + seps.length) keyEnd (-1) =
        argument seg ∧
      parseArguments handler data (fuel + 1) pre.length total args =
        if rawKey seg = [] ∧ (seg ≠ [] ∨ stop = []) then some (total, args)
        else some (total + 1, args.modify total fun arg =>
          handler arg data equal (pre.length + seps.length) keyEnd (-1)) := by
  have skip : skipEmpty data data.length pre.length = pre.length + seps.length := by
    rw [whole]
    refine skipEmpty_eq seps pre _ _ ?_ isSeps (plain.head fun _ => ends.head)
    simp only [List.length_append]
    omega
  have split : data = (pre ++ seps) ++ (seg ++ stop) := by rw [whole, List.append_assoc]
  have next := nextIndex_last (pre ++ seps) seg stop plain ends
  have located := located_last (pre ++ seps) seg stop plain ends
  rw [← split, List.length_append] at next located
  refine ⟨_, _, located.stored, ?_⟩
  rw [parseArguments, skip, next, located.ends]
  have ahead : ((pre.length + seps.length : Nat) : Int) <
      (if 61 ∈ seg then ((pre.length + seps.length + (rawKey seg).length : Nat) : Int)
        else (data.length : Nat)) ↔ ¬ (rawKey seg = [] ∧ (seg ≠ [] ∨ stop = [])) := by
    have length : data.length = pre.length + seps.length + seg.length + stop.length := by
      rw [split]
      simp only [List.length_append]
      omega
    by_cases equal : 61 ∈ seg
    · have some : seg ≠ [] := List.ne_nil_of_mem equal
      rw [if_pos equal, ← List.length_eq_zero_iff]
      simp only [ne_eq, some, not_false_eq_true, true_or, and_true]
      omega
    · rw [if_neg equal, rawKey_eq_nil_iff equal, length]
      simp only [← List.length_eq_zero_iff, ne_eq]
      omega
  by_cases nothing : rawKey seg = [] ∧ (seg ≠ [] ∨ stop = [])
  · rw [if_neg (fun less => ahead.mp less nothing), if_pos nothing, if_pos rfl]
  · rw [if_pos (ahead.mpr nothing), if_neg nothing, if_pos rfl]

/-- The pass at another segment goes on behind it, or stays when the segment begins with `=`. -/
theorem pass_sep (handler : ArgHandler) {pre seps seg rest data : WString} {c : UInt8}
    (fuel total : Nat) (args : List RequestArgument) (isSeps : ∀ c ∈ seps, separator c = true)
    (plain : Plain seg) (some : seg ≠ []) (sep : separator c = true)
    (whole : data = pre ++ (seps ++ (seg ++ c :: rest))) :
    ∃ equal keyEnd next, storeArg .empty data equal (pre.length + seps.length) keyEnd next =
        argument seg ∧
      parseArguments handler data (fuel + 1) pre.length total args =
        if rawKey seg = [] then
          parseArguments handler data fuel (pre.length + seps.length) total args
        else parseArguments handler data fuel (pre.length + seps.length + seg.length + 1) (total + 1)
          (args.modify total fun arg =>
            handler arg data equal (pre.length + seps.length) keyEnd next) := by
  have skip : skipEmpty data data.length pre.length = pre.length + seps.length := by
    rw [whole]
    refine skipEmpty_eq seps pre _ _ ?_ isSeps (plain.head fun none => absurd none some)
    simp only [List.length_append]
    omega
  have split : data = (pre ++ seps) ++ (seg ++ c :: rest) := by rw [whole, List.append_assoc]
  have next := nextIndex_sep (pre ++ seps) seg rest plain sep
  have located := located_sep (pre ++ seps) seg rest plain sep
  rw [← split, List.length_append] at next located
  refine ⟨_, _, _, located.stored, ?_⟩
  rw [parseArguments, skip, next, located.ends]
  have later : ¬ ((pre.length + seps.length + seg.length : Nat) : Int) = -1 := by omega
  have behind : (((pre.length + seps.length + seg.length : Nat) : Int) + 1).toNat =
      pre.length + seps.length + seg.length + 1 := by omega
  by_cases nothing : rawKey seg = []
  · rw [if_neg (by rw [nothing, List.length_nil]; omega), if_pos nothing, if_neg later]
  · have := List.length_pos_iff.mpr nothing
    rw [if_pos (by omega), if_neg nothing, if_neg later, behind]

/-! ## The whole loop -/

/-- What the loop makes of the segments that it sees; `cut` says that a NUL byte comes after
them. It does not end at a segment that begins with `=`, unless it is the last. -/
def outcome (cut : Bool) : List WString → Option (List RequestArgument)
  | [] => some []
  | [last] =>
    if rawKey last = [] ∧ (last ≠ [] ∨ cut = false) then some [] else some [argument last]
  | seg :: next :: more =>
    if seg = [] then outcome cut (next :: more)
    else if rawKey seg = [] then none
    else (outcome cut (next :: more)).map (argument seg :: ·)

theorem outcome_cons (cut : Bool) (seg : WString) (rest : WString) :
    outcome cut (seg :: segments rest) =
      if seg = [] then outcome cut (segments rest)
      else if rawKey seg = [] then none
      else (outcome cut (segments rest)).map (argument seg :: ·) := by
  obtain ⟨first, more, split⟩ := List.exists_cons_of_ne_nil (segments_ne_nil rest)
  rw [split, outcome]

theorem outcome_seps (cut : Bool) (seps rest : WString)
    (isSeps : ∀ c ∈ seps, separator c = true) :
    outcome cut (segments (seps ++ rest)) = outcome cut (segments rest) := by
  induction seps with
  | nil => rfl
  | cons c seps ih =>
    have step : segments (c :: (seps ++ rest)) = [] :: segments (seps ++ rest) :=
      (List.splitOnP_cons_eq_if_modifyHead ..).trans (if_pos (isSeps c List.mem_cons_self))
    rw [List.cons_append, step, outcome_cons, if_pos rfl]
    exact ih fun c' mem => isSeps c' (List.mem_cons_of_mem _ mem)

theorem segments_sep {seg rest : WString} {c : UInt8} (plain : Plain seg)
    (sep : separator c = true) : segments (seg ++ c :: rest) = seg :: segments rest :=
  List.splitOnP_append_cons_of_forall_mem plain.2 c sep rest

theorem segments_last {seg : WString} (plain : Plain seg) : segments seg = [seg] :=
  List.splitOnP_eq_singleton plain.2

/-- Separators, a segment and, unless it is the last, the rest behind it. -/
theorem front_cases (seen : WString) (clean : 0 ∉ seen) :
    ∃ seps seg, (∀ c ∈ seps, separator c = true) ∧ Plain seg ∧
      (seen = seps ++ seg ∨
        seg ≠ [] ∧ ∃ c rest, separator c = true ∧ seen = seps ++ (seg ++ c :: rest)) := by
  induction seen with
  | nil => exact ⟨[], [], by simp, ⟨by simp, by simp⟩, .inl rfl⟩
  | cons c rest ih =>
    rw [List.mem_cons, not_or] at clean
    obtain ⟨seps, seg, isSeps, plain, shape⟩ := ih clean.2
    by_cases sep : separator c = true
    · refine ⟨c :: seps, seg, ?_, plain, ?_⟩
      · intro c' mem
        rcases List.mem_cons.mp mem with rfl | old
        · exact sep
        · exact isSeps c' old
      · rcases shape with last | ⟨some, c', more, sep', split⟩
        · exact .inl (congrArg (c :: ·) last)
        · exact .inr ⟨some, c', more, sep', congrArg (c :: ·) split⟩
    · have single {s : WString} (plain : Plain s) : Plain (c :: s) := by
        refine ⟨by simp [plain.1, clean.1], fun c' mem => ?_⟩
        rcases List.mem_cons.mp mem with rfl | old
        · simpa using sep
        · exact plain.2 c' old
      cases seps with
      | nil =>
        refine ⟨[], c :: seg, by simp, single plain, ?_⟩
        rcases shape with last | ⟨_, c', more, sep', split⟩
        · exact .inl (congrArg (c :: ·) last)
        · exact .inr ⟨List.cons_ne_nil _ _, c', more, sep', congrArg (c :: ·) split⟩
      | cons s others =>
        refine ⟨[], [c], by simp, single ⟨by simp, by simp⟩, .inr ⟨by simp, s, ?_⟩⟩
        have first := isSeps s List.mem_cons_self
        rcases shape with last | ⟨_, c', more, _, split⟩
        · exact ⟨others ++ seg, first, congrArg (c :: ·) last⟩
        · exact ⟨others ++ (seg ++ c' :: more), first, congrArg (c :: ·) split⟩

theorem modify_done (done : List RequestArgument) (k : Nat) (f : RequestArgument → RequestArgument) :
    (done ++ List.replicate (k + 1) RequestArgument.empty).modify done.length f =
      (done ++ [f .empty]) ++ List.replicate k RequestArgument.empty := by
  induction done with
  | nil => rfl
  | cons arg rest ih => exact congrArg (arg :: ·) ih

theorem outcome_front {cut : Bool} {seps seg rest : WString} {c : UInt8}
    (isSeps : ∀ c ∈ seps, separator c = true) (plain : Plain seg) (some : seg ≠ [])
    (sep : separator c = true) :
    outcome cut (segments (seps ++ (seg ++ c :: rest))) =
      if rawKey seg = [] then none
      else (outcome cut (segments rest)).map (argument seg :: ·) := by
  rw [outcome_seps cut seps _ isSeps, segments_sep plain sep, outcome_cons, if_neg some]

theorem outcome_last {cut : Bool} {seps seg : WString} (isSeps : ∀ c ∈ seps, separator c = true)
    (plain : Plain seg) : outcome cut (segments (seps ++ seg)) =
      if rawKey seg = [] ∧ (seg ≠ [] ∨ cut = false) then some [] else some [argument seg] := by
  rw [outcome_seps cut seps _ isSeps, segments_last plain, outcome]

/-- The storing pass puts the arguments of the outcome behind those that are there. -/
theorem parse_some {stop : WString} (ends : Ends stop) : ∀ (n : Nat) (seen : WString),
    seen.length < n → 0 ∉ seen → ∀ entries,
    outcome (decide (stop ≠ [])) (segments seen) = some entries →
    ∀ (pre : WString) (fuel : Nat) (done : List RequestArgument) (k : Nat), n ≤ fuel →
      parseArguments storeArg (pre ++ (seen ++ stop)) fuel pre.length done.length
        (done ++ List.replicate (entries.length + k) RequestArgument.empty) =
      some (done.length + entries.length,
        (done ++ entries) ++ List.replicate k RequestArgument.empty) := by
  intro n
  induction n with
  | zero => intro seen short; cases short
  | succ n ih =>
    intro seen short clean entries result pre fuel done k enough
    obtain ⟨fuel, rfl⟩ : ∃ f, fuel = f + 1 := ⟨fuel - 1, by omega⟩
    obtain ⟨seps, seg, isSeps, plain, shape⟩ := front_cases seen clean
    rcases shape with last | ⟨some, c, rest, sep, split⟩
    · subst last
      rw [outcome_last isSeps plain] at result
      obtain ⟨equal, keyEnd, stored, pass⟩ := pass_last storeArg fuel done.length
        (done ++ List.replicate (entries.length + k) RequestArgument.empty) isSeps plain ends
        (congrArg (pre ++ ·) (List.append_assoc seps seg stop))
      rw [pass]
      have same : (rawKey seg = [] ∧ (seg ≠ [] ∨ decide (stop ≠ []) = false)) ↔
          (rawKey seg = [] ∧ (seg ≠ [] ∨ stop = [])) := by
        rw [decide_eq_false_iff_not, not_not]
      by_cases nothing : rawKey seg = [] ∧ (seg ≠ [] ∨ stop = [])
      · rw [if_pos (same.mpr nothing)] at result
        cases result
        rw [if_pos nothing, List.append_nil, List.length_nil, Nat.zero_add, Nat.add_zero]
      · rw [if_neg (fun h => nothing (same.mp h))] at result
        cases result
        rw [if_neg nothing, List.length_singleton, Nat.add_comm 1 k, modify_done, stored]
    · subst split
      rw [outcome_front isSeps plain some sep] at result
      have whole : pre ++ ((seps ++ (seg ++ c :: rest)) ++ stop) =
          pre ++ (seps ++ (seg ++ c :: (rest ++ stop))) := by
        simp only [List.append_assoc, List.cons_append]
      obtain ⟨equal, keyEnd, next, stored, pass⟩ := pass_sep storeArg fuel done.length
        (done ++ List.replicate (entries.length + k) RequestArgument.empty) isSeps plain some sep
        whole
      rw [pass]
      by_cases stays : rawKey seg = []
      · rw [if_pos stays] at result
        cases result
      · rw [if_neg stays] at result ⊢
        obtain ⟨others, rest_result, rfl⟩ := Option.map_eq_some_iff.mp result
        have shorter : rest.length < n := by
          simp only [List.length_append, List.length_cons] at short
          omega
        have unseen : 0 ∉ rest := fun zero => clean (by simp [zero])
        have goes_on := ih rest shorter unseen others rest_result
          (pre ++ (seps ++ (seg ++ [c]))) fuel (done ++ [argument seg]) k (by omega)
        rw [show (argument seg :: others).length + k = others.length + k + 1 by
          rw [List.length_cons]; omega, modify_done, stored]
        have data : pre ++ (seps ++ (seg ++ [c])) ++ (rest ++ stop) =
            pre ++ (seps ++ (seg ++ c :: rest) ++ stop) := by
          simp only [List.append_assoc, List.cons_append, List.nil_append]
        have pos : (pre ++ (seps ++ (seg ++ [c]))).length =
            pre.length + seps.length + seg.length + 1 := by
          simp only [List.length_append, List.length_singleton]
          omega
        rw [data, pos, List.length_append, List.length_singleton] at goes_on
        rw [goes_on, List.length_cons, List.append_assoc done, List.singleton_append]
        congr 2
        omega

/-- At a segment that begins with `=` and is not the last, the loop stays for ever. -/
theorem stays_forever (handler : ArgHandler) {pre seg rest : WString} {c : UInt8}
    (plain : Plain seg) (some : seg ≠ []) (sep : separator c = true) (noKey : rawKey seg = [])
    (total : Nat) (args : List RequestArgument) : ∀ fuel,
    parseArguments handler (pre ++ (seg ++ c :: rest)) fuel pre.length total args = none := by
  intro fuel
  induction fuel with
  | zero => rfl
  | succ fuel ih =>
    obtain ⟨_, _, _, _, pass⟩ := pass_sep handler fuel total args (by simp) plain
      some sep (show pre ++ (seg ++ c :: rest) = pre ++ ([] ++ (seg ++ c :: rest)) from rfl)
    rw [if_pos noKey] at pass
    exact pass.trans ih

theorem parse_none (handler : ArgHandler) {stop : WString} : ∀ (n : Nat) (seen : WString),
    seen.length < n → 0 ∉ seen → outcome (decide (stop ≠ [])) (segments seen) = none →
    ∀ (fuel : Nat) (pre : WString) (total : Nat) (args : List RequestArgument),
      parseArguments handler (pre ++ (seen ++ stop)) fuel pre.length total args = none := by
  intro n
  induction n with
  | zero => intro seen short; cases short
  | succ n ih =>
    intro seen short clean result fuel pre total args
    obtain ⟨seps, seg, isSeps, plain, shape⟩ := front_cases seen clean
    rcases shape with last | ⟨some, c, rest, sep, split⟩
    · rw [last, outcome_last isSeps plain] at result
      split at result <;> cases result
    · subst split
      rw [outcome_front isSeps plain some sep] at result
      have whole : pre ++ ((seps ++ (seg ++ c :: rest)) ++ stop) =
          pre ++ (seps ++ (seg ++ c :: (rest ++ stop))) := by
        simp only [List.append_assoc, List.cons_append]
      cases fuel with
      | zero => rfl
      | succ fuel =>
        obtain ⟨_, _, _, _, pass⟩ := pass_sep handler fuel total args isSeps plain some sep whole
        rw [pass]
        by_cases stays : rawKey seg = []
        · rw [if_pos stays, whole, ← List.append_assoc, ← List.length_append]
          exact stays_forever handler plain some sep stays total args fuel
        · rw [if_neg stays] at result ⊢
          have shorter : rest.length < n := by
            simp only [List.length_append, List.length_cons] at short
            omega
          have unseen : 0 ∉ rest := fun zero => clean (by simp [zero])
          have goes_on := ih rest shorter unseen (Option.map_eq_none_iff.mp result) fuel
            (pre ++ (seps ++ (seg ++ [c])))
          have data : pre ++ (seps ++ (seg ++ [c])) ++ (rest ++ stop) =
              pre ++ (seps ++ (seg ++ c :: rest) ++ stop) := by
            simp only [List.append_assoc, List.cons_append, List.nil_append]
          have pos : (pre ++ (seps ++ (seg ++ [c]))).length =
              pre.length + seps.length + seg.length + 1 := by
            simp only [List.length_append, List.length_singleton]
            omega
          rw [data, pos] at goes_on
          exact goes_on _ _

/-- The number of arguments does not depend on what is done with them. -/
theorem parse_count (handler handler' : ArgHandler) (data : WString) (fuel : Nat) :
    ∀ (pos total : Nat) (args args' : List RequestArgument),
      (parseArguments handler data fuel pos total args).map Prod.fst =
        (parseArguments handler' data fuel pos total args').map Prod.fst := by
  induction fuel with
  | zero => intro pos total args args'; rfl
  | succ fuel ih =>
    intro pos total args args'
    rw [parseArguments, parseArguments]
    split
    · split
      · rfl
      · exact ih _ _ _ _
    · split
      · rfl
      · exact ih _ _ _ _

/-- A loop that has ended has ended with more fuel as well. -/
theorem parse_mono (handler : ArgHandler) (data : WString) (fuel : Nat) :
    ∀ (pos total : Nat) (args : List RequestArgument) (r : Nat × List RequestArgument)
      (fuel' : Nat), parseArguments handler data fuel pos total args = some r → fuel ≤ fuel' →
      parseArguments handler data fuel' pos total args = some r := by
  induction fuel with
  | zero => intro pos total args r fuel' ended; cases ended
  | succ fuel ih =>
    intro pos total args r fuel' ended more
    obtain ⟨fuel', rfl⟩ : ∃ f, fuel' = f + 1 := ⟨fuel' - 1, by omega⟩
    rw [parseArguments] at ended ⊢
    split
    · rename_i ahead
      rw [if_pos ahead] at ended
      split
      · rename_i last
        rw [if_pos last] at ended
        exact ended
      · rename_i last
        rw [if_neg last] at ended
        exact ih _ _ _ _ _ ended (by omega)
    · rename_i ahead
      rw [if_neg ahead] at ended
      split
      · rename_i last
        rw [if_pos last] at ended
        exact ended
      · rename_i last
        rw [if_neg last] at ended
        exact ih _ _ _ _ _ ended (by omega)

/-! ## When the arguments are those meant -/

/-- Both passes end and count the same arguments, and the list stored is the one meant. -/
def Right (data : WString) : Prop :=
  ∃ fuel count counted stored, parseArgumentsPrivate fuel data nullArg [] = some (count, counted) ∧
    parseArgumentsPrivate fuel data storeArg (List.replicate (count + 1) .empty) =
      some (count, stored) ∧
    stored.take count = arguments (segments data)

theorem right_iff_outcome {seen stop : WString} (clean : 0 ∉ seen) (ends : Ends stop) :
    Right (seen ++ stop) ↔ outcome (decide (stop ≠ [])) (segments seen) =
      some (arguments (segments (seen ++ stop))) := by
  constructor
  · rintro ⟨fuel, count, counted, stored, first, second, meant⟩
    cases result : outcome (decide (stop ≠ [])) (segments seen) with
    | none =>
      have none := parse_none nullArg (seen.length + 1) seen (Nat.lt_succ_self _) clean result fuel
        [] 0 []
      rw [parseArgumentsPrivate] at first
      cases first.symm.trans none
    | some entries =>
      have stores (k : Nat) := parse_some ends (seen.length + 1) seen (Nat.lt_succ_self _) clean
        entries result [] (fuel + seen.length + 1) [] k (by omega)
      have longer {handler : ArgHandler} {args : List RequestArgument}
          {r : Nat × List RequestArgument}
          (ended : parseArgumentsPrivate fuel (seen ++ stop) handler args = some r) :=
        parse_mono handler (seen ++ stop) fuel 0 0 args r (fuel + seen.length + 1) ended (by omega)
      have counts := parse_count nullArg storeArg (seen ++ stop) (fuel + seen.length + 1) 0 0 []
        ([] ++ List.replicate (entries.length + 0) RequestArgument.empty)
      have same : count = entries.length := by
        rw [longer first] at counts
        have := counts.trans (congrArg (Option.map Prod.fst) (stores 0))
        simpa using this
      subst same
      have := (longer second).symm.trans (stores 1)
      simp only [List.length_nil, Nat.zero_add, List.nil_append, Option.some.injEq, Prod.mk.injEq,
        true_and] at this
      rw [← meant, this, List.take_left]
  · intro result
    have stores (k : Nat) := parse_some ends (seen.length + 1) seen (Nat.lt_succ_self _) clean
      _ result [] (seen.length + 1) [] k (Nat.le_refl _)
    have counts := parse_count nullArg storeArg (seen ++ stop) (seen.length + 1) 0 0 []
      ([] ++ List.replicate ((arguments (segments (seen ++ stop))).length + 0)
        RequestArgument.empty)
    rw [show parseArguments storeArg (seen ++ stop) (seen.length + 1) 0 0 _ = _ from stores 0]
      at counts
    obtain ⟨⟨count, counted⟩, first, same⟩ := Option.map_eq_some_iff.mp counts
    simp only [List.length_nil, Nat.zero_add] at same
    subst same
    have second := stores 1
    simp only [List.length_nil, Nat.zero_add, List.nil_append] at second
    exact ⟨seen.length + 1, _, counted, _, first, second, List.take_left⟩

/-- What the last segment adds. -/
def lastArgument (cut : Bool) (last : WString) : List RequestArgument :=
  if rawKey last = [] ∧ (last ≠ [] ∨ cut = false) then [] else [argument last]

theorem outcome_eq (cut : Bool) (front : List WString) (last : WString) :
    outcome cut (front ++ [last]) =
      if ∀ seg ∈ front, seg ≠ [] → rawKey seg ≠ [] then
        some (arguments front ++ lastArgument cut last)
      else none := by
  induction front with
  | nil =>
    have none : ∀ seg ∈ ([] : List WString), seg ≠ [] → rawKey seg ≠ [] := by simp
    rw [if_pos none, List.nil_append, outcome, lastArgument]
    by_cases nothing : rawKey last = [] ∧ (last ≠ [] ∨ cut = false)
    · rw [if_pos nothing, if_pos nothing]
      rfl
    · rw [if_neg nothing, if_neg nothing]
      rfl
  | cons seg front ih =>
    obtain ⟨next, more, split⟩ := List.exists_cons_of_ne_nil
      (List.append_ne_nil_of_right_ne_nil front (List.cons_ne_nil last []))
    rw [List.cons_append, split, outcome, ← split, ih]
    by_cases empty : seg = []
    · subst empty
      simp [arguments, rawKey]
    · by_cases noKey : rawKey seg = []
      · simp [empty, noKey]
      · simp only [empty, noKey, if_false]
        simp [arguments, noKey]

theorem hexDigit?_ne {c h : UInt8} (digit : hexDigit? c = some h) : h ≠ 37 := by
  grind [hexDigit?]

/-- An escape that a NUL byte completes is no `%`. -/
theorem hexByte_cut (high : UInt8) : hexByte high 0 ≠ 37 := by
  have none : hexDigit? 0 = none := by decide
  rw [hexByte, none]
  cases digit : hexDigit? high with
  | none => decide
  | some h => exact hexDigit?_ne digit

/-- A NUL byte behind the text shows in what it decodes to. -/
theorem urlDecode_cut (text rest : WString) : urlDecode (text ++ 0 :: rest) ≠ urlDecode text := by
  induction text using urlDecode.induct with
  | case1 => simp [urlDecode]
  | case2 high low text ih =>
    rw [List.cons_append, List.cons_append, List.cons_append, urlDecode, urlDecode]
    intro same
    exact ih (List.cons.inj same).2
  | case3 text ih =>
    rw [List.cons_append, urlDecode, urlDecode]
    intro same
    exact ih (List.cons.inj same).2
  | case4 c text noEscape noPlus ih =>
    by_cases percent : c = 37
    · subst percent
      match text, noEscape with
      | [], _ => cases rest <;> simp [urlDecode, hexByte, hexDigit?]
      | [high], _ =>
        rw [List.cons_append, List.cons_append, List.nil_append, urlDecode]
        intro same
        exact hexByte_cut high (List.cons.inj same).1
      | high :: low :: more, noEscape => exact absurd rfl (noEscape high low more rfl)
    · rw [List.cons_append, urlDecode, urlDecode]
      · intro same
        exact ih (List.cons.inj same).2
      · exact noEscape
      · exact noPlus
      · intro _ _ _ same
        exact absurd same percent
      · exact noPlus

/-! ## The data that is parsed right -/

/-- A segment begins with `=`. -/
def Keyless (segment : WString) : Prop := segment.head? = some 61

theorem keyless_iff (segment : WString) :
    Keyless segment ↔ segment ≠ [] ∧ rawKey segment = [] := by
  cases segment with
  | nil => simp [Keyless]
  | cons c rest =>
    rw [Keyless, List.head?_cons, Option.some.injEq, rawKey]
    by_cases equal : c = 61
    · simp [equal]
    · simp [equal]

/-- No segment but the last begins with `=`. A NUL byte stands in such a segment if there is one,
and the segments after that have no key. -/
structure Parsable (data : WString) : Prop where
  inner : ∀ segment ∈ (segments data.cstr).dropLast, ¬ Keyless segment
  cut : 0 ∈ data → Keyless ((segments data.cstr).getLast (segments_ne_nil _)) ∧
    ∀ segment ∈ (segments data).drop (segments data.cstr).length, rawKey segment = []

theorem arguments_eq_nil_iff (list : List WString) :
    arguments list = [] ↔ ∀ segment ∈ list, rawKey segment = [] := by
  rw [arguments, List.map_eq_nil_iff, List.filter_eq_nil_iff]
  simp

theorem arguments_append (xs ys : List WString) :
    arguments (xs ++ ys) = arguments xs ++ arguments ys := by
  simp [arguments]

theorem inner_iff (front : List WString) :
    (∀ segment ∈ front, segment ≠ [] → rawKey segment ≠ []) ↔
      ∀ segment ∈ front, ¬ Keyless segment := by
  simp only [keyless_iff, not_and]

/-- Without a NUL byte only the segments before the last matter. -/
theorem outcome_plain (front : List WString) (last : WString) :
    outcome false (front ++ [last]) = some (arguments (front ++ [last])) ↔
      ∀ segment ∈ front, ¬ Keyless segment := by
  have same : lastArgument false last = arguments [last] := by
    by_cases noKey : rawKey last = [] <;> simp [lastArgument, arguments, noKey]
  rw [outcome_eq, ← inner_iff, arguments_append, same]
  constructor
  · intro result
    by_contra bad
    rw [if_neg bad] at result
    cases result
  · intro good
    rw [if_pos good]

theorem rawKey_append {segment : WString} (none : 61 ∉ segment) (rest : WString) :
    rawKey (segment ++ rest) = segment ++ rawKey rest := by
  refine List.takeWhile_append_of_pos fun c mem => ?_
  rw [decide_eq_true_iff]
  rintro rfl
  exact none mem

theorem rawValue_append {key : WString} (none : 61 ∉ key) (value : WString) :
    rawValue (key ++ 61 :: value) = value := by
  rw [rawValue, List.dropWhile_append_of_pos]
  · rfl
  · intro c mem
    rw [decide_eq_true_iff]
    rintro rfl
    exact none mem

/-- With a NUL byte behind it, a segment is another argument. -/
theorem argument_cut (segment rest : WString) :
    argument (segment ++ 0 :: rest) ≠ argument segment := by
  intro same
  injection same with sameKey sameValue
  rcases segment_cases segment with ⟨none, key, _⟩ | ⟨key, value, rfl, none, _, held⟩
  · rw [rawKey_append none, key] at sameKey
    exact urlDecode_cut segment _ sameKey
  · rw [held, List.append_assoc, List.cons_append, rawValue_append none] at sameValue
    exact urlDecode_cut value rest sameValue

/-- A segment that a NUL byte cuts off is not parsed right, unless it has no key. -/
theorem lastArgument_cut (last rest : WString) (others : List WString) :
    lastArgument true last = arguments ((last ++ 0 :: rest) :: others) ↔
      Keyless last ∧ ∀ segment ∈ others, rawKey segment = [] := by
  have split : arguments ((last ++ 0 :: rest) :: others) =
      arguments [last ++ 0 :: rest] ++ arguments others := arguments_append [_] others
  rw [keyless_iff, lastArgument, split]
  by_cases noKey : rawKey last = []
  · by_cases empty : last = []
    · subst empty
      have key : rawKey (0 :: rest) = 0 :: rawKey rest := rfl
      simp [noKey, arguments, argument, key, urlDecode]
    · have still : rawKey (last ++ 0 :: rest) = [] := by
        rcases segment_cases last with ⟨none, key, _⟩ | ⟨key, value, rfl, none, same, _⟩
        · exact absurd (key.symm.trans noKey) empty
        · rw [same] at noKey
          subst noKey
          rfl
      have nothing : arguments [last ++ 0 :: rest] = [] :=
        (arguments_eq_nil_iff _).mpr (by simpa using still)
      rw [if_pos ⟨noKey, .inl empty⟩, nothing, List.nil_append, eq_comm, arguments_eq_nil_iff]
      exact ⟨fun rest => ⟨⟨empty, noKey⟩, rest⟩, fun both => both.2⟩
  · have other := argument_cut last rest
    have key : rawKey (last ++ 0 :: rest) ≠ [] := by
      rcases segment_cases last with ⟨none, _, _⟩ | ⟨key, value, rfl, none, same, _⟩
      · rw [rawKey_append none]
        simp [rawKey]
      · rw [same] at noKey
        rw [List.append_assoc, rawKey_append none]
        simp [noKey]
    simp [noKey, arguments, key, other.symm]

/-- With a NUL byte, the segment that it stands in has no key, nor those behind it. -/
theorem outcome_cut (front : List WString) (last rest : WString) (others : List WString) :
    outcome true (front ++ [last]) = some (arguments (front ++ (last ++ 0 :: rest) :: others)) ↔
      (∀ segment ∈ front, ¬ Keyless segment) ∧ Keyless last ∧
        ∀ segment ∈ others, rawKey segment = [] := by
  rw [outcome_eq, ← inner_iff, arguments_append, ← lastArgument_cut last rest others]
  by_cases good : ∀ segment ∈ front, segment ≠ [] → rawKey segment ≠ []
  · rw [if_pos good, Option.some.injEq, List.append_cancel_left_eq]
    exact ⟨fun same => ⟨good, same⟩, fun both => both.2⟩
  · rw [if_neg good]
    constructor
    · intro none
      cases none
    · intro both
      exact absurd both.1 good

/-- **Query strings.** The parser ends, counts what it stores and stores what is meant exactly for
the data that is `Parsable`. -/
theorem query_parsed (data : WString) : Right data ↔ Parsable data := by
  rcases cstr_append data with ⟨whole, clean⟩ | ⟨rest, split⟩
  · have right := right_iff_outcome clean (show Ends [] from .inl rfl)
    have parts := List.dropLast_append_getLast (segments_ne_nil data)
    have plain := outcome_plain (segments data).dropLast
      ((segments data).getLast (segments_ne_nil data))
    rw [parts] at plain
    rw [List.append_nil] at right
    rw [right, show decide (([] : WString) ≠ []) = false from rfl, plain]
    constructor
    · intro inner
      exact ⟨by rw [whole]; exact inner, fun zero => absurd zero clean⟩
    · intro parsable
      have inner := parsable.inner
      rw [whole] at inner
      exact inner
  · have clean := not_mem_cstr data
    have right := right_iff_outcome clean (show Ends (0 :: rest) from .inr ⟨rest, rfl⟩)
    have joined := segments_append (cstr data) (0 :: rest)
    have parts := List.dropLast_append_getLast (segments_ne_nil (cstr data))
    obtain ⟨z, others, back⟩ : ∃ z others, segments (0 :: rest) = (0 :: z) :: others := by
      obtain ⟨z, others, tail⟩ := List.exists_cons_of_ne_nil (segments_ne_nil rest)
      refine ⟨z, others, (List.splitOnP_cons_eq_if_modifyHead 0 rest).trans ?_⟩
      rw [show separator 0 = false from rfl, if_neg Bool.false_ne_true]
      exact congrArg (List.modifyHead _) tail
    have cutoff := outcome_cut (segments (cstr data)).dropLast
      ((segments (cstr data)).getLast (segments_ne_nil _)) z others
    simp only [back, List.head_cons, List.tail_cons] at joined
    rw [← joined, parts, ← split] at cutoff
    rw [← split] at right joined
    have behind : (segments data).drop (segments (cstr data)).length = others := by
      rw [joined, List.append_cons]
      refine List.drop_left' ?_
      have length := congrArg List.length parts
      rw [List.length_append, List.length_singleton] at length ⊢
      exact length
    have zero : 0 ∈ data := by
      rw [split]
      exact List.mem_append_right _ List.mem_cons_self
    rw [right, show decide ((0 :: rest : WString) ≠ []) = true from rfl, cutoff]
    constructor
    · rintro ⟨inner, keyless, later⟩
      exact ⟨inner, fun _ => ⟨keyless, by rw [behind]; exact later⟩⟩
    · intro parsable
      obtain ⟨keyless, later⟩ := parsable.cut zero
      exact ⟨parsable.inner, keyless, by rw [behind] at later; exact later⟩

/-- A first segment without a key keeps the loop where it is. -/
theorem empty_key_hangs (fuel : Nat) (args : List RequestArgument) :
    parseArgumentsPrivate fuel (ofString "=a&b") nullArg args = none :=
  show parseArguments nullArg ([] ++ (ofString "=a" ++ 38 :: ofString "b")) fuel
      ([] : WString).length 0 args = none from
    stays_forever nullArg ⟨by decide, by decide +kernel⟩ (by decide) rfl rfl 0 args fuel

theorem empty_key_not_right : ¬ Right (ofString "=a&b") := by
  rintro ⟨fuel, count, counted, _, first, _⟩
  cases (empty_key_hangs fuel []).symm.trans first

end Esp8266.Source.QueryString
