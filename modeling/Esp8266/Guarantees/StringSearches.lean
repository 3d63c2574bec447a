import Esp8266.Source.StringMemory
import Mathlib.Order.Bounds.Defs

/-!
# Searching a string

The answers on the buffer of a string are those on its text, whatever lies behind the terminator,
except that `startsWith` looks behind it when the prefix is longer than the string.
-/
set_option autoImplicit false

namespace Esp8266.Source

/-- `pattern` stands in `text` from index `i` on. -/
def OccursAt (pattern text : List UInt8) (i : Nat) : Prop := pattern <+: text.drop i

instance (pattern text : List UInt8) (i : Nat) : Decidable (OccursAt pattern text i) :=
  inferInstanceAs (Decidable (_ <+: _))

/-- The least occurrence from an offset on, or -1. -/
def FirstFrom (pattern text : List UInt8) (offset : Nat) (answer : Int) : Prop :=
  (answer = -1 ∧ ∀ i, offset ≤ i → ¬OccursAt pattern text i) ∨
    ∃ i : Nat, answer = i ∧ IsLeast {i | offset ≤ i ∧ OccursAt pattern text i} i

/-- The greatest occurrence up to an offset, or -1. -/
def LastUpTo (pattern text : List UInt8) (offset : Nat) (answer : Int) : Prop :=
  (answer = -1 ∧ ∀ i, i ≤ offset → ¬OccursAt pattern text i) ∨
    ∃ i : Nat, answer = i ∧ IsGreatest {i | i ≤ offset ∧ OccursAt pattern text i} i

namespace StringMemory

/-- The string is a text without NUL, with a terminator behind it. -/
structure Holds (s : StringMemory) (text : List UInt8) : Prop where
  plain : 0 ∉ text
  len : s.len = text.length
  short : text.length < 2 ^ 16
  terminated : match s.buffer with
    | none => text = []
    | some buffer => ∃ stale, buffer = text ++ 0 :: stale

/-- The buffer ends with the terminator. -/
def cut (s : StringMemory) : StringMemory :=
  { s with buffer := s.buffer.map fun buffer => buffer.take (s.len + 1) }

/-- Each of the searches has an answer, and it is that on the text. -/
structure Searches (s s2 : StringMemory) (text pattern : List UInt8) (offset : UInt32) : Prop where
  indexOf : ∃ answer, s.indexOf s2 offset = some answer ∧
    FirstFrom pattern text offset.toNat answer
  lastIndexOf : ∃ answer, s.lastIndexOf s2 offset = some answer ∧
    LastUpTo pattern text offset.toNat answer
  startsWith : s.startsWith s2 offset = some (decide (OccursAt pattern text offset.toNat))
  endsWith : s.endsWith s2 = some (decide (pattern.length ≤ text.length ∧
    OccursAt pattern text (text.length - pattern.length)))

theorem Holds.cut {s : StringMemory} {text : List UInt8} (holds : s.Holds text) :
    s.cut.Holds text := by
  refine ⟨holds.plain, holds.len, holds.short, ?_⟩
  have terminated := holds.terminated
  unfold StringMemory.cut
  cases known : s.buffer with
  | none =>
    rw [known] at terminated
    exact terminated
  | some buffer =>
    rw [known] at terminated
    obtain ⟨stale, rfl⟩ := terminated
    refine ⟨[], ?_⟩
    change (text ++ 0 :: stale).take (s.len + 1) = text ++ [0]
    rw [holds.len, List.take_length_add_append]
    rfl

end StringMemory

/-! ## Texts in a buffer -/

theorem cString_append {text : List UInt8} (plain : 0 ∉ text) (stale : List UInt8) :
    cString (text ++ 0 :: stale) = some text := by
  induction text with
  | nil => rfl
  | cons c rest ih =>
    rw [List.mem_cons, not_or] at plain
    rw [List.cons_append, cString, if_neg (Ne.symm plain.1), ih plain.2]
    rfl

theorem order_ne_zero {a b : UInt8} (different : a ≠ b) : (a.toNat : Int) - b.toNat ≠ 0 := by
  intro same
  exact different (UInt8.toNat_inj.1 (by omega))

/-- `strncmp` of a pattern and its length. -/
theorem strncmp_text {text pattern : List UInt8} (plain : 0 ∉ text) (pattern_plain : 0 ∉ pattern)
    (stale rest : List UInt8) :
    (strncmp pattern.length (text ++ 0 :: stale) (pattern ++ rest)).map
        (fun order => decide (order = 0)) = some (decide (pattern <+: text)) := by
  induction pattern generalizing text with
  | nil => simp [strncmp]
  | cons b bs ih =>
    rw [List.mem_cons, not_or] at pattern_plain
    cases text with
    | nil =>
      rw [List.length_cons, List.nil_append, List.cons_append, strncmp, if_pos pattern_plain.1,
        Option.map_some, decide_eq_false (order_ne_zero pattern_plain.1)]
      simp
    | cons a as =>
      rw [List.mem_cons, not_or] at plain
      rw [List.length_cons, List.cons_append, List.cons_append, strncmp]
      by_cases same : a = b
      · subst same
        rw [if_neg (not_not.2 rfl), if_neg (Ne.symm plain.1), ih plain.2 pattern_plain.2]
        simp
      · rw [if_pos same, Option.map_some, decide_eq_false (order_ne_zero same)]
        simp [Ne.symm same]

/-- `strcmp` of two texts. -/
theorem strcmp_text {text pattern : List UInt8} (plain : 0 ∉ text) (pattern_plain : 0 ∉ pattern)
    (stale rest : List UInt8) :
    (strcmp (text ++ 0 :: stale) (pattern ++ 0 :: rest)).map (fun order => decide (order = 0)) =
      some (decide (text = pattern)) := by
  induction pattern generalizing text with
  | nil =>
    cases text with
    | nil => rfl
    | cons a as =>
      rw [List.mem_cons, not_or] at plain
      rw [List.cons_append, List.nil_append, strcmp, if_pos (Ne.symm plain.1), Option.map_some,
        decide_eq_false (order_ne_zero (Ne.symm plain.1))]
      simp
  | cons b bs ih =>
    rw [List.mem_cons, not_or] at pattern_plain
    cases text with
    | nil =>
      rw [List.nil_append, List.cons_append, strcmp, if_pos pattern_plain.1, Option.map_some,
        decide_eq_false (order_ne_zero pattern_plain.1)]
      simp
    | cons a as =>
      rw [List.mem_cons, not_or] at plain
      rw [List.cons_append, List.cons_append, strcmp]
      by_cases same : a = b
      · subst same
        rw [if_neg (not_not.2 rfl), if_neg (Ne.symm plain.1), ih plain.2 pattern_plain.2]
        simp
      · rw [if_pos same, Option.map_some, decide_eq_false (order_ne_zero same)]
        simp [same]

/-- What `strstr` finds is the first occurrence. -/
theorem strstr_cases (pattern text : List UInt8) (nonempty : pattern ≠ []) :
    (WString.strstr pattern text = none ∧ ∀ i, ¬OccursAt pattern text i) ∨
      ∃ i, WString.strstr pattern text = some i ∧ IsLeast {i | OccursAt pattern text i} i := by
  induction text with
  | nil =>
    left
    rw [WString.strstr, if_neg nonempty]
    refine ⟨rfl, fun i occurs => nonempty ?_⟩
    rw [OccursAt, List.drop_nil] at occurs
    exact List.prefix_nil.1 occurs
  | cons c rest ih =>
    rw [WString.strstr]
    by_cases here : pattern <+: c :: rest
    · right
      rw [if_pos (List.isPrefixOf_iff_prefix.2 here)]
      exact ⟨0, rfl, here, fun i _ => Nat.zero_le i⟩
    · rw [if_neg (mt List.isPrefixOf_iff_prefix.1 here)]
      rcases ih with ⟨missing, nowhere⟩ | ⟨i, found, occurs, least⟩
      · left
        rw [missing]
        refine ⟨rfl, fun i => ?_⟩
        cases i with
        | zero => exact here
        | succ i => exact nowhere i
      · right
        rw [found]
        refine ⟨i + 1, rfl, occurs, fun j later => ?_⟩
        cases j with
        | zero => exact absurd later here
        | succ j => exact Nat.succ_le_succ (least later)

theorem strstrFrom_text {text pattern : List UInt8} (plain : 0 ∉ text) (pattern_plain : 0 ∉ pattern)
    (stale rest : List UInt8) {start : Nat} (inside : start ≤ text.length) :
    strstrFrom (text ++ 0 :: stale) start (pattern ++ 0 :: rest) =
      some ((WString.strstr pattern (text.drop start)).map (start + ·)) := by
  have suffix : 0 ∉ text.drop start := fun mem => plain (List.mem_of_mem_drop mem)
  rw [strstrFrom, List.drop_append_of_le_length inside, cString_append suffix,
    cString_append pattern_plain]
  rfl

/-- A search from an index on finds the first occurrence from there on. -/
theorem strstrFrom_cases {text pattern : List UInt8} (plain : 0 ∉ text)
    (pattern_plain : 0 ∉ pattern) (nonempty : pattern ≠ []) (stale rest : List UInt8) {start : Nat}
    (inside : start ≤ text.length) :
    (strstrFrom (text ++ 0 :: stale) start (pattern ++ 0 :: rest) = some none ∧
        ∀ i, start ≤ i → ¬OccursAt pattern text i) ∨
      ∃ i, strstrFrom (text ++ 0 :: stale) start (pattern ++ 0 :: rest) = some (some i) ∧
        IsLeast {i | start ≤ i ∧ OccursAt pattern text i} i := by
  have shift : ∀ i, OccursAt pattern (text.drop start) i ↔ OccursAt pattern text (start + i) := by
    intro i
    rw [OccursAt, OccursAt, List.drop_drop]
  rw [strstrFrom_text plain pattern_plain stale rest inside]
  rcases strstr_cases pattern (text.drop start) nonempty with
    ⟨missing, nowhere⟩ | ⟨i, found, occurs, least⟩
  · left
    rw [missing]
    refine ⟨rfl, fun i later occurs => nowhere (i - start) ?_⟩
    rwa [shift, Nat.add_sub_cancel' later]
  · right
    rw [found]
    refine ⟨start + i, rfl, ⟨Nat.le_add_right _ _, (shift i).1 occurs⟩, fun j later => ?_⟩
    have smaller : i ≤ j - start := by
      apply least
      show OccursAt pattern (text.drop start) (j - start)
      rw [shift, Nat.add_sub_cancel' later.1]
      exact later.2
    have := later.1
    omega

/-- An occurrence lies inside the text. -/
theorem OccursAt.le {pattern text : List UInt8} {i : Nat} (occurs : OccursAt pattern text i)
    (nonempty : pattern ≠ []) : i + pattern.length ≤ text.length := by
  have short := occurs.length_le
  rw [List.length_drop] at short
  have := List.length_pos_iff.2 nonempty
  omega

namespace StringMemory

section
variable {s s2 : StringMemory} {text pattern : List UInt8}

/-- The buffer of a string that is not empty. -/
theorem Holds.buffer (holds : s.Holds text) (nonempty : text ≠ []) :
    ∃ stale, s.buffer = some (text ++ 0 :: stale) := by
  have terminated := holds.terminated
  cases known : s.buffer with
  | none =>
    rw [known] at terminated
    exact absurd terminated nonempty
  | some buffer =>
    rw [known] at terminated
    obtain ⟨stale, rfl⟩ := terminated
    exact ⟨stale, rfl⟩

theorem indexOf_text (holds : s.Holds text) (holds2 : s2.Holds pattern) (nonempty : pattern ≠ [])
    (offset : UInt32) :
    ∃ answer, s.indexOf s2 offset = some answer ∧ FirstFrom pattern text offset.toNat answer := by
  unfold indexOf
  rw [holds.len]
  by_cases beyond : text.length ≤ offset.toNat
  · rw [if_pos beyond]
    refine ⟨-1, rfl, Or.inl ⟨rfl, fun i later occurs => ?_⟩⟩
    have := occurs.le nonempty
    have := List.length_pos_iff.2 nonempty
    omega
  · have long : text ≠ [] := by
      rintro rfl
      exact beyond (Nat.zero_le _)
    obtain ⟨stale, buffer⟩ := holds.buffer long
    obtain ⟨rest, buffer2⟩ := holds2.buffer nonempty
    rw [if_neg beyond, buffer, buffer2]
    rcases strstrFrom_cases holds.plain holds2.plain nonempty stale rest
      (Nat.le_of_not_le beyond) with ⟨missing, nowhere⟩ | ⟨i, found, least⟩
    · refine ⟨-1, ?_, Or.inl ⟨rfl, nowhere⟩⟩
      simp only [Option.bind_eq_bind, Option.bind_some, missing, Option.elim_none]
    · refine ⟨i, ?_, Or.inr ⟨i, rfl, least⟩⟩
      simp only [Option.bind_eq_bind, Option.bind_some, found, Option.elim_some]
      rfl

/-- The last occurrence up to a bound, among those before the next round. -/
def LastBefore (pattern text : List UInt8) (bound p : Nat) (answer : Int) : Prop :=
  (answer = -1 ∧ ∀ i, i < p → i ≤ bound → ¬OccursAt pattern text i) ∨
    ∃ i : Nat, answer = i ∧ IsGreatest {i | i < p ∧ i ≤ bound ∧ OccursAt pattern text i} i

theorem LastBefore.all {bound p : Nat} {answer : Int}
    (last : LastBefore pattern text bound p answer)
    (done : ∀ i, p ≤ i → i ≤ bound → ¬OccursAt pattern text i) :
    LastUpTo pattern text bound answer := by
  rcases last with ⟨missing, nowhere⟩ | ⟨i, rfl, ⟨_, inside, occurs⟩, greatest⟩
  · left
    refine ⟨missing, fun i inside occurs => ?_⟩
    by_cases before : i < p
    · exact nowhere i before inside occurs
    · exact done i (Nat.not_lt.1 before) inside occurs
  · right
    refine ⟨i, rfl, ⟨inside, occurs⟩, fun j other => ?_⟩
    by_cases before : j < p
    · exact greatest ⟨before, other⟩
    · exact absurd other.2 (done j (Nat.not_lt.1 before) other.1)

/-- A round moves behind the next occurrence. -/
theorem LastBefore.next {bound p i : Nat} {answer : Int}
    (last : LastBefore pattern text bound p answer)
    (first : IsLeast {i | p ≤ i ∧ OccursAt pattern text i} i) :
    LastBefore pattern text bound (i + 1) (if i ≤ bound then i else answer) := by
  obtain ⟨⟨later, occurs⟩, least⟩ := first
  by_cases inside : i ≤ bound
  · rw [if_pos inside]
    exact Or.inr ⟨i, rfl, ⟨Nat.lt_succ_self i, inside, occurs⟩, fun j other =>
      Nat.le_of_lt_succ other.1⟩
  · rw [if_neg inside]
    have between : ∀ j, j < i + 1 → j ≤ bound → OccursAt pattern text j → j < p := by
      intro j _ small here
      by_contra notBefore
      have := least ⟨Nat.not_lt.1 notBefore, here⟩
      omega
    rcases last with ⟨missing, nowhere⟩ | ⟨k, rfl, ⟨before, small, here⟩, greatest⟩
    · exact Or.inl ⟨missing, fun j before small here =>
        nowhere j (between j before small here) small here⟩
    · exact Or.inr ⟨k, rfl, ⟨by omega, small, here⟩, fun j other =>
        greatest ⟨between j other.1 other.2.1 other.2.2, other.2⟩⟩

theorem lastIndexOfLoop_text (plain : 0 ∉ text) (pattern_plain : 0 ∉ pattern)
    (nonempty : pattern ≠ []) (stale rest : List UInt8) {bound : Nat} (inside : bound < text.length)
    {left p : Nat} {answer : Int} (rounds : bound + 1 ≤ left + p)
    (last : LastBefore pattern text bound p answer) :
    ∃ final, lastIndexOfLoop (text ++ 0 :: stale) (pattern ++ 0 :: rest) bound left p answer =
      some final ∧ LastUpTo pattern text bound final := by
  induction left generalizing p answer with
  | zero => exact ⟨answer, rfl, last.all fun i later small => by omega⟩
  | succ left ih =>
    rw [lastIndexOfLoop]
    by_cases finished : bound < p
    · rw [if_pos finished]
      exact ⟨answer, rfl, last.all fun i later small => by omega⟩
    · rw [if_neg finished]
      rcases strstrFrom_cases plain pattern_plain nonempty stale rest
        (show p ≤ text.length by omega) with ⟨missing, nowhere⟩ | ⟨i, found, least⟩
      · rw [missing]
        exact ⟨answer, rfl, last.all fun i later _ => nowhere i later⟩
      · rw [found]
        have later := least.1.1
        exact ih (by omega) (last.next least)

theorem lastIndexOf_text (holds : s.Holds text) (holds2 : s2.Holds pattern)
    (nonempty : pattern ≠ []) (offset : UInt32) :
    ∃ answer, s.lastIndexOf s2 offset = some answer ∧
      LastUpTo pattern text offset.toNat answer := by
  unfold lastIndexOf
  rw [holds.len, holds2.len]
  have positive := List.length_pos_iff.2 nonempty
  by_cases short : text.length < pattern.length
  · rw [if_pos (Or.inr (Or.inr short))]
    refine ⟨-1, rfl, Or.inl ⟨rfl, fun i _ occurs => ?_⟩⟩
    have := occurs.le nonempty
    omega
  · rw [if_neg (by omega)]
    have long : text ≠ [] := by
      rintro rfl
      exact short positive
    obtain ⟨stale, buffer⟩ := holds.buffer long
    obtain ⟨rest, buffer2⟩ := holds2.buffer nonempty
    rw [buffer, buffer2]
    have start : ∀ bound, LastBefore pattern text bound 0 (-1) := fun bound =>
      Or.inl ⟨rfl, fun i before => absurd before (Nat.not_lt_zero i)⟩
    by_cases beyond : text.length ≤ offset.toNat
    · obtain ⟨final, run, last⟩ := lastIndexOfLoop_text (p := 0) holds.plain holds2.plain nonempty
        stale rest (show text.length - 1 < text.length by omega) (Nat.le_refl _) (start _)
      refine ⟨final, ?_, ?_⟩
      · simp only [Option.bind_eq_bind, Option.bind_some, if_pos beyond, run]
      · rcases last with ⟨missing, nowhere⟩ | ⟨i, rfl, ⟨small, occurs⟩, greatest⟩
        · refine Or.inl ⟨missing, fun i _ occurs => nowhere i ?_ occurs⟩
          have := occurs.le nonempty
          omega
        · refine Or.inr ⟨i, rfl, ⟨by omega, occurs⟩, fun j other => greatest ⟨?_, other.2⟩⟩
          have := other.2.le nonempty
          omega
    · obtain ⟨final, run, last⟩ := lastIndexOfLoop_text (p := 0) holds.plain holds2.plain nonempty
        stale rest (Nat.not_le.1 beyond) (Nat.le_refl _) (start _)
      refine ⟨final, ?_, last⟩
      simp only [Option.bind_eq_bind, Option.bind_some, if_neg beyond, run]

theorem endsWith_text (holds : s.Holds text) (holds2 : s2.Holds pattern) (nonempty : pattern ≠ []) :
    s.endsWith s2 = some (decide (pattern.length ≤ text.length ∧
      OccursAt pattern text (text.length - pattern.length))) := by
  unfold endsWith
  rw [holds.len, holds2.len]
  by_cases short : text.length < pattern.length
  · rw [if_pos short, decide_eq_false]
    exact fun both => absurd both.1 (Nat.not_le.2 short)
  · have long : text ≠ [] := by
      rintro rfl
      exact short (List.length_pos_iff.2 nonempty)
    obtain ⟨stale, buffer⟩ := holds.buffer long
    obtain ⟨rest, buffer2⟩ := holds2.buffer nonempty
    have suffix : 0 ∉ text.drop (text.length - pattern.length) := fun mem =>
      holds.plain (List.mem_of_mem_drop mem)
    rw [if_neg short, buffer, buffer2]
    dsimp only
    rw [List.drop_append_of_le_length (Nat.sub_le _ _), strcmp_text suffix holds2.plain]
    congr 1
    rw [decide_eq_decide, OccursAt]
    constructor
    · intro same
      rw [same]
      exact ⟨Nat.not_lt.1 short, List.prefix_rfl⟩
    · rintro ⟨_, begins⟩
      refine (begins.eq_of_length ?_).symm
      rw [List.length_drop]
      omega

/-- The comparison that is meant to refuse offsets behind the last place for a prefix. -/
theorem place_lt_iff {n m : Nat} (short : n < 2 ^ 16) (short2 : m < 2 ^ 16) (offset : UInt32) :
    UInt32.ofNat n - UInt32.ofNat m < offset ↔
      if m ≤ n then n < m + offset.toNat else 2 ^ 32 + n < m + offset.toNat := by
  rw [UInt32.lt_iff_toNat_lt, UInt32.toNat_sub, UInt32.toNat_ofNat', UInt32.toNat_ofNat',
    Nat.mod_eq_of_lt (show n < 2 ^ 32 by omega), Nat.mod_eq_of_lt (show m < 2 ^ 32 by omega)]
  split <;> omega

/-- The prefix is longer than the string, and the place behind its terminator is not refused. -/
def ReadsStale (s s2 : StringMemory) (offset : UInt32) : Prop :=
  s.buffer.isSome ∧ s.len < s2.len ∧ s.len < offset.toNat ∧
    offset.toNat + s2.len ≤ 2 ^ 32 + s.len

theorem startsWith_text (holds : s.Holds text) (holds2 : s2.Holds pattern) (nonempty : pattern ≠ [])
    {offset : UInt32} (fresh : ¬s.ReadsStale s2 offset) :
    s.startsWith s2 offset = some (decide (OccursAt pattern text offset.toNat)) := by
  have positive := List.length_pos_iff.2 nonempty
  unfold startsWith
  by_cases refused : UInt32.ofNat s.len - UInt32.ofNat s2.len < offset
  · rw [if_pos refused]
    rw [holds.len, holds2.len, place_lt_iff holds.short holds2.short] at refused
    rw [decide_eq_false]
    intro occurs
    have := occurs.le nonempty
    split at refused <;> omega
  · rw [if_neg refused]
    rw [holds.len, holds2.len, place_lt_iff holds.short holds2.short] at refused
    obtain ⟨rest, buffer2⟩ := holds2.buffer nonempty
    have terminated := holds.terminated
    cases known : s.buffer with
    | none =>
      rw [known] at terminated
      obtain rfl : text = [] := terminated
      rw [decide_eq_false]
      intro occurs
      have := occurs.le nonempty
      rw [List.length_nil] at this
      omega
    | some buffer =>
      rw [known] at terminated
      obtain ⟨stale, rfl⟩ := terminated
      have inside : offset.toNat ≤ text.length := by
        by_contra beyond
        refine fresh ⟨by rw [known]; rfl, ?_⟩
        rw [holds.len, holds2.len]
        split at refused <;> omega
      have suffix : 0 ∉ text.drop offset.toNat := fun mem =>
        holds.plain (List.mem_of_mem_drop mem)
      rw [buffer2]
      dsimp only
      rw [List.drop_append_of_le_length inside, holds2.len]
      exact strncmp_text suffix holds2.plain stale _

theorem searches_text (holds : s.Holds text) (holds2 : s2.Holds pattern) (nonempty : pattern ≠ [])
    {offset : UInt32} (fresh : ¬s.ReadsStale s2 offset) : Searches s s2 text pattern offset :=
  ⟨indexOf_text holds holds2 nonempty offset, lastIndexOf_text holds holds2 nonempty offset,
    startsWith_text holds holds2 nonempty fresh, endsWith_text holds holds2 nonempty⟩

/-- Without the bytes behind the terminator, the comparison leaves the buffer. -/
theorem startsWith_cut_of_readsStale (holds : s.Holds text) (holds2 : s2.Holds pattern)
    (nonempty : pattern ≠ []) {offset : UInt32} (reads : s.ReadsStale s2 offset) :
    s.cut.startsWith s2 offset = none := by
  obtain ⟨given, longer, behind, kept⟩ := reads
  obtain ⟨rest, buffer2⟩ := holds2.buffer nonempty
  obtain ⟨buffer, known⟩ := Option.isSome_iff_exists.1 given
  have kept : ¬UInt32.ofNat s.cut.len - UInt32.ofNat s2.len < offset := by
    change ¬UInt32.ofNat s.len - UInt32.ofNat s2.len < offset
    rw [holds.len, holds2.len] at *
    rw [place_lt_iff holds.short holds2.short, if_neg (by omega)]
    omega
  have nothing : (buffer.take (s.len + 1)).drop offset.toNat = [] := by
    rw [List.drop_eq_nil_iff, List.length_take]
    omega
  unfold startsWith
  rw [if_neg kept, buffer2, cut, known]
  dsimp only [Option.map_some]
  rw [nothing, holds2.len]
  cases pattern with
  | nil => exact absurd rfl nonempty
  | cons b bs => rfl

/-- The searches give the answers on the text, also when the bytes behind the terminator are cut
off, if and only if `startsWith` is not asked for a prefix that is longer than the string at a place
behind the terminator that its unsigned difference does not exclude. -/
theorem searches_iff (holds : s.Holds text) (holds2 : s2.Holds pattern) (nonempty : pattern ≠ [])
    (offset : UInt32) :
    Searches s s2 text pattern offset ∧ Searches s.cut s2 text pattern offset ↔
      ¬s.ReadsStale s2 offset := by
  constructor
  · rintro ⟨_, searches⟩ reads
    have answer := searches.startsWith
    rw [startsWith_cut_of_readsStale holds holds2 nonempty reads] at answer
    cases answer
  · intro fresh
    have cutFresh : ¬s.cut.ReadsStale s2 offset := by
      rintro ⟨given, longer⟩
      refine fresh ⟨?_, longer⟩
      rwa [cut, Option.isSome_map] at given
    exact ⟨searches_text holds holds2 nonempty fresh,
      searches_text holds.cut holds2 nonempty cutFresh⟩

end

/-- The strings "bc" and "c", and the string "abc" after it was removed. -/
def bc : StringMemory := ⟨true, some [0x62, 0x63, 0, 0, 0, 0, 0, 0, 0, 0, 0], 2⟩

def letterC : StringMemory := ⟨true, some [0x63, 0, 0, 0, 0, 0, 0, 0, 0, 0, 0], 1⟩

def removed : StringMemory := ⟨true, some [0, 0x62, 0x63, 0, 0, 0, 0, 0, 0, 0, 0], 0⟩

theorem bc_holds : bc.Holds [0x62, 0x63] := ⟨by decide, rfl, by decide, _, rfl⟩

theorem letterC_holds : letterC.Holds [0x63] := ⟨by decide, rfl, by decide, _, rfl⟩

theorem removed_holds : removed.Holds [] := ⟨by decide, rfl, by decide, _, rfl⟩

theorem searches_iff_bc :
    Searches bc letterC [0x62, 0x63] [0x63] 1 ∧
      Searches bc.cut letterC [0x62, 0x63] [0x63] 1 :=
  (searches_iff bc_holds letterC_holds (by decide) 1).2 fun reads => absurd reads.2.1 (by decide)

/-- The empty string starts with "bc" at offset 1. -/
theorem searches_fail_removed : removed.Holds [] ∧ bc.Holds [0x62, 0x63] ∧
    ¬(Searches removed bc [] [0x62, 0x63] 1 ∧ Searches removed.cut bc [] [0x62, 0x63] 1) := by
  refine ⟨removed_holds, bc_holds, ?_⟩
  rintro ⟨searches, _⟩
  have answer := searches.startsWith
  rw [show removed.startsWith bc 1 = some true by decide] at answer
  exact absurd answer (by decide)

end StringMemory

end Esp8266.Source
