import Esp8266.Guarantees.StringSearches
import Esp8266.Lib.Replace

/-!
# Replacing in a string

The loops for a text of the same length and for a shorter one go from left to right through the
buffer. The one for a longer text goes back from the end of the string, over the text that it has
put in: it gives what was counted if no other position looks like an occurrence by then.
-/
set_option autoImplicit false

namespace Esp8266.Source
open Esp8266.Lib.Replace

namespace StringMemory

/-- The buffer is the one inside the object, or its length is one that a capacity of 16 bits can
tell. -/
def Allocated (s : StringMemory) : Prop :=
  ∀ buffer ∈ s.buffer, if s.isSSO then buffer.length = ssoSize else buffer.length ≤ 2 ^ 16

/-! ## Memory -/

section
variable {s s2 : StringMemory}

theorem setLen_natCast {n : Nat} (small : n < if s.isSSO then 2 ^ 7 else 2 ^ 16) :
    s.setLen n = { s with len := n } := by
  have kept : (n : Int) % (if s.isSSO then 2 ^ 7 else 2 ^ 16) = n := by
    cases h : s.isSSO <;> rw [h] at small <;> simp at small ⊢ <;> omega
  rw [setLen, kept]
  rfl

theorem write_append {front back : List UInt8} (bytes : List UInt8)
    (buffer : s.buffer = some (front ++ back)) (fits : bytes.length ≤ back.length) :
    s.write front.length bytes =
      some { s with buffer := some (front ++ (bytes ++ back.drop bytes.length)) } := by
  have inside : front.length + bytes.length ≤ (front ++ back).length := by
    rw [List.length_append]
    omega
  rw [write, buffer]
  simp only [Option.bind_eq_bind, Option.bind_some]
  rw [if_pos inside, List.take_left, List.drop_append, List.append_assoc]
  simp

theorem write_length {dest : Nat} {bytes : List UInt8} {s' : StringMemory}
    (written : s.write dest bytes = some s') {buffer : List UInt8}
    (known : s.buffer = some buffer) :
    ∃ buffer', s' = { s with buffer := some buffer' } ∧ buffer'.length = buffer.length ∧
      dest + bytes.length ≤ buffer.length := by
  rw [write, known] at written
  simp only [Option.bind_eq_bind, Option.bind_some] at written
  split at written
  · next fits =>
    refine ⟨_, (Option.some.inj written).symm, ?_, fits⟩
    simp only [List.length_append, List.length_take, List.length_drop]
    omega
  · cases written

theorem memmove_append {front back : List UInt8} (src n : Nat) (moved : List UInt8)
    (buffer : s.buffer = some (front ++ back)) (inside : src + n ≤ (front ++ back).length)
    (read : ((front ++ back).drop src).take n = moved) (fits : n ≤ back.length) :
    s.memmove front.length src n =
      some { s with buffer := some (front ++ (moved ++ back.drop n)) } := by
  have length : moved.length = n := by
    rw [← read, List.length_take, List.length_drop]
    omega
  rw [memmove, buffer]
  simp only [Option.bind_eq_bind, Option.bind_some]
  rw [if_pos inside, read, write_append moved buffer (by rw [length]; exact fits), length]

theorem memmove_length {dest src n : Nat} {s' : StringMemory}
    (moved : s.memmove dest src n = some s') {buffer : List UInt8}
    (known : s.buffer = some buffer) :
    ∃ buffer', s' = { s with buffer := some buffer' } ∧ buffer'.length = buffer.length := by
  rw [memmove, known] at moved
  simp only [Option.bind_eq_bind, Option.bind_some] at moved
  split at moved
  · obtain ⟨buffer', same, length, _⟩ := write_length moved known
    exact ⟨buffer', same, length⟩
  · cases moved

/-- The text of another string is read. -/
theorem Holds.copied {text : List UInt8} (holds2 : s2.Holds text) :
    s2.len ≤ (s2.buffer.getD []).length ∧ (s2.buffer.getD []).take s2.len = text := by
  have terminated := holds2.terminated
  rw [holds2.len]
  cases known : s2.buffer with
  | none =>
    rw [known] at terminated
    obtain rfl : text = [] := terminated
    exact ⟨Nat.le_refl 0, rfl⟩
  | some buffer =>
    rw [known] at terminated
    obtain ⟨stale, rfl⟩ := terminated
    rw [Option.getD_some, List.take_left, List.length_append]
    exact ⟨Nat.le_add_right _ _, rfl⟩

theorem copyFrom_eq {text : List UInt8} (holds2 : s2.Holds text) (dest : Nat) :
    s.copyFrom dest s2 = s.write dest text := by
  obtain ⟨inside, read⟩ := holds2.copied
  rw [copyFrom, if_pos inside, read]

end

/-! ## Occurrences in the buffer -/

section
variable {s find repl : StringMemory} {p r : List UInt8}

/-- From an index on there is no occurrence, or a first one. -/
theorem strstr_split (holds : find.Holds p) (nonempty : p ≠ []) {front rest stale : List UInt8}
    (plain : 0 ∉ rest) (buffer : s.buffer = some (front ++ (rest ++ 0 :: stale))) :
    (s.strstr front.length find = some none ∧ replaceAll p r rest = rest) ∨
      ∃ a b, rest = a ++ (p ++ b) ∧
        s.strstr front.length find = some (some (front.length + a.length)) ∧
        replaceAll p r rest = a ++ (r ++ replaceAll p r b) := by
  obtain ⟨stale2, buffer2⟩ := holds.buffer nonempty
  have search : s.strstr front.length find =
      some ((WString.strstr p rest).map (front.length + ·)) := by
    rw [strstr, buffer, buffer2]
    simp only [Option.bind_eq_bind, Option.bind_some]
    rw [strstrFrom, List.drop_left, cString_append plain, cString_append holds.plain]
    rfl
  rw [search]
  rcases strstr_cases p rest nonempty with ⟨missing, nowhere⟩ | ⟨i, found, occurs, least⟩
  · left
    rw [missing]
    refine ⟨rfl, ?_⟩
    have kept := replaceAll_skip (p := p) (r := r) rest []
      (by rw [List.append_nil]; exact fun k _ => nowhere k)
    rw [List.append_nil] at kept
    rw [kept]
    exact List.append_nil rest
  · right
    have inside : i + p.length ≤ rest.length := OccursAt.le occurs nonempty
    obtain ⟨b, split⟩ : p <+: rest.drop i := occurs
    have whole : rest = rest.take i ++ (p ++ b) := by rw [split, List.take_append_drop]
    have front_length : (rest.take i).length = i := by
      rw [List.length_take]
      omega
    refine ⟨rest.take i, b, whole, ?_, ?_⟩
    · rw [found, front_length]
      rfl
    · rw [← replaceAll_append nonempty, ← replaceAll_skip, ← whole]
      intro k before here
      rw [← whole] at here
      rw [front_length] at before
      exact absurd (least here) (Nat.not_le.2 before)

/-- The loop for a text of the same length. -/
theorem replaceSame_text (holds : find.Holds p) (holds2 : repl.Holds r) (nonempty : p ≠ [])
    (same : r.length = p.length) {rounds : Nat} (front : List UInt8) {rest stale : List UInt8}
    (enough : rest.length < rounds) (plain : 0 ∉ rest)
    (buffer : s.buffer = some (front ++ (rest ++ 0 :: stale))) :
    replaceSame find repl rounds front.length s =
      some { s with buffer := some (front ++ (replaceAll p r rest ++ 0 :: stale)) } := by
  induction rounds generalizing s front rest with
  | zero => exact absurd enough (Nat.not_lt_zero _)
  | succ rounds ih =>
    rw [replaceSame]
    rcases strstr_split (r := r) holds nonempty plain buffer with
      ⟨missing, kept⟩ | ⟨a, b, split, found, replaced⟩
    · rw [missing, kept, ← buffer]
      rfl
    · have place : s.buffer = some ((front ++ a) ++ (p ++ (b ++ 0 :: stale))) := by
        rw [buffer, split]
        simp only [List.append_assoc]
      have written := write_append r place
        (show r.length ≤ (p ++ (b ++ 0 :: stale)).length by rw [List.length_append]; omega)
      rw [same, List.drop_left, List.length_append] at written
      rw [found]
      simp only [Option.bind_eq_bind, Option.bind_some]
      rw [copyFrom_eq holds2, written]
      have next := ih (s := { s with buffer := some (front ++ a ++ (r ++ (b ++ 0 :: stale))) })
        (front ++ a ++ r) (?_ : b.length < rounds) ?_ ?_
      · rw [Option.bind_some, holds2.len, show front.length + a.length + r.length =
          (front ++ a ++ r).length by simp only [List.length_append], next, replaced]
        simp only [List.append_assoc]
      · have positive := List.length_pos_iff.2 nonempty
        rw [split] at enough
        simp only [List.length_append] at enough
        omega
      · intro mem
        rw [split] at plain
        exact plain (List.mem_append_right _ (List.mem_append_right _ mem))
      · simp only [List.append_assoc]

/-- A round of the loop for a shorter text moves what lies before the occurrence, and the new text
behind that. -/
theorem shrinkRound (holds2 : repl.Holds r) (shrink : r.length ≤ p.length)
    {done gap a back : List UInt8}
    (buffer : s.buffer = some (done ++ (gap ++ (a ++ (p ++ back))))) :
    ∃ gap' : List UInt8, gap'.length + r.length = gap.length + p.length ∧
      (s.memmove done.length (done ++ gap).length a.length).bind
          (fun s => s.copyFrom (done.length + a.length) repl) =
        some { s with buffer := some (done ++ a ++ r ++ (gap' ++ back)) } := by
  refine ⟨(gap ++ (a ++ p)).drop (a.length + r.length), ?_, ?_⟩
  · simp only [List.length_drop, List.length_append]
    omega
  · have moved := memmove_append (done ++ gap).length a.length a buffer
      (by simp only [List.length_append]; omega)
      (by rw [← List.append_assoc, List.drop_left, List.take_left])
      (by simp only [List.length_append]; omega)
    have left : (gap ++ (a ++ (p ++ back))).drop (a.length + r.length) =
        (gap ++ (a ++ p)).drop (a.length + r.length) ++ back := by
      rw [← List.append_assoc a, ← List.append_assoc gap, List.drop_append_of_le_length]
      simp only [List.length_append]
      omega
    rw [moved, Option.bind_some, copyFrom_eq holds2, ← List.length_append,
      write_append r (congrArg some (List.append_assoc done a _).symm)
        (by simp only [List.length_drop, List.length_append]; omega),
      List.drop_drop, left, List.append_assoc (done ++ a)]

/-- The loop for a shorter text: what is finished, a gap, and what was not read. -/
theorem replaceShrinking_text (holds : find.Holds p) (holds2 : repl.Holds r) (nonempty : p ≠ [])
    (shrink : r.length < p.length) {rounds : Nat} (done gap : List UInt8) {rest stale : List UInt8}
    (enough : rest.length < rounds) (plain : 0 ∉ rest)
    (buffer : s.buffer = some (done ++ (gap ++ (rest ++ 0 :: stale))))
    (len : s.len = done.length + rest.length)
    (short : done.length + rest.length < if s.isSSO then 2 ^ 7 else 2 ^ 16) :
    ∃ stale', replaceShrinking find repl rounds done.length (done ++ gap).length s =
      some { s with
        buffer := some (done ++ (replaceAll p r rest ++ 0 :: stale'))
        len := done.length + (replaceAll p r rest).length } := by
  induction rounds generalizing s done gap rest with
  | zero => exact absurd enough (Nat.not_lt_zero _)
  | succ rounds ih =>
    have ahead : s.buffer = some ((done ++ gap) ++ (rest ++ 0 :: stale)) := by
      rw [buffer, List.append_assoc]
    rw [replaceShrinking]
    rcases strstr_split (r := r) holds nonempty plain ahead with
      ⟨missing, kept⟩ | ⟨a, b, split, found, replaced⟩
    · have text : cString ((done ++ (gap ++ (rest ++ 0 :: stale))).drop (done ++ gap).length) =
          some rest := by
        rw [← List.append_assoc, List.drop_left, cString_append plain]
      have moved := memmove_append (done ++ gap).length (rest.length + 1) (rest ++ [0]) buffer
        (by simp only [List.length_append, List.length_cons]; omega)
        (by rw [← List.append_assoc, List.drop_left, List.take_length_add_append]; rfl)
        (by simp only [List.length_append, List.length_cons]; omega)
      refine ⟨(gap ++ (rest ++ 0 :: stale)).drop (rest.length + 1), ?_⟩
      rw [missing, kept]
      simp only [Option.bind_eq_bind, Option.bind_some, buffer, text]
      rw [moved, List.append_assoc rest, ← len]
      rfl
    · have positive := List.length_pos_iff.2 nonempty
      have parts : rest.length = a.length + (p.length + b.length) := by
        rw [split, List.length_append, List.length_append]
      have whole : s.buffer = some (done ++ (gap ++ (a ++ (p ++ (b ++ 0 :: stale))))) := by
        rw [buffer, split]
        simp only [List.append_assoc]
      obtain ⟨gap', width, round⟩ := shrinkRound holds2 (Nat.le_of_lt shrink) whole
      have place : (done ++ gap).length + a.length + find.len =
          (done ++ a ++ r ++ gap').length := by
        rw [holds.len]
        simp only [List.length_append]
        omega
      have target : done.length + a.length + repl.len = (done ++ a ++ r).length := by
        rw [holds2.len]
        simp only [List.length_append]
      have count : (s.len + (repl.len - find.len : Int)) =
          ((done ++ a ++ r).length + b.length : Nat) := by
        rw [len, holds.len, holds2.len]
        simp only [List.length_append]
        omega
      have small : (done ++ a ++ r).length + b.length < if s.isSSO then 2 ^ 7 else 2 ^ 16 := by
        simp only [List.length_append]
        omega
      have shorter := fun buffer => setLen_natCast (s := { s with buffer := buffer }) small
      obtain ⟨stale', run⟩ := ih (s := { s with
          buffer := some (done ++ a ++ r ++ (gap' ++ (b ++ 0 :: stale)))
          len := (done ++ a ++ r).length + b.length })
        (done ++ a ++ r) gap' (by omega) (fun mem => plain (by rw [split]; simp [mem])) rfl rfl
        small
      refine ⟨stale', ?_⟩
      rw [found]
      simp only [Option.bind_eq_bind, Option.bind_some]
      rw [Nat.add_sub_cancel_left, ← Option.bind_assoc, round, Option.bind_some, place, target]
      dsimp only
      rw [count, shorter, run, replaced]
      simp only [List.length_append, List.append_assoc, Nat.add_assoc]

/-- The size for a longer text. -/
theorem replaceSize_text (holds : find.Holds p) (holds2 : repl.Holds r) (nonempty : p ≠ [])
    (grow : p.length < r.length) {rounds : Nat} (front : List UInt8) {rest stale : List UInt8}
    (size : Nat)
    (enough : rest.length < rounds) (plain : 0 ∉ rest)
    (buffer : s.buffer = some (front ++ (rest ++ 0 :: stale)))
    (short : size + (replaceAll p r rest).length < 2 ^ 32 + rest.length) :
    replaceSize find repl rounds front.length size s =
      some (size + (replaceAll p r rest).length - rest.length) := by
  induction rounds generalizing front rest size with
  | zero => exact absurd enough (Nat.not_lt_zero _)
  | succ rounds ih =>
    rw [replaceSize]
    rcases strstr_split (r := r) holds nonempty plain buffer with
      ⟨missing, kept⟩ | ⟨a, b, split, found, replaced⟩
    · rw [missing, kept, Nat.add_sub_cancel]
      rfl
    · have place : s.buffer = some ((front ++ a ++ p) ++ (b ++ 0 :: stale)) := by
        rw [buffer, split]
        simp only [List.append_assoc]
      have positive := List.length_pos_iff.2 nonempty
      have longer := length_le_replaceAll nonempty grow b
      have length : front.length + a.length + find.len = (front ++ a ++ p).length := by
        rw [holds.len]
        simp only [List.length_append]
      have total : (replaceAll p r rest).length =
          a.length + (r.length + (replaceAll p r b).length) := by
        rw [replaced, List.length_append, List.length_append]
      have parts : rest.length = a.length + (p.length + b.length) := by
        rw [split, List.length_append, List.length_append]
      have counted : (size + (repl.len - find.len)) % 2 ^ 32 = size + (r.length - p.length) := by
        rw [holds.len, holds2.len, Nat.mod_eq_of_lt]
        omega
      rw [found]
      simp only [Option.bind_eq_bind, Option.bind_some]
      rw [length, counted, ih (front ++ a ++ p) _ (by omega) ?_ place (by omega),
        Option.some.injEq]
      · omega
      · intro mem
        rw [split] at plain
        exact plain (List.mem_append_right _ (List.mem_append_right _ mem))

/-- A round of the loop for a longer text, in a buffer with room for the result. -/
theorem replaceAt_fits (holds : find.Holds p) (holds2 : repl.Holds r) (grow : p.length < r.length)
    {a u stale : List UInt8} (buffer : s.buffer = some (a ++ (p ++ (u ++ 0 :: stale))))
    (len : s.len = (a ++ (p ++ u)).length)
    (room : (a ++ (p ++ (u ++ 0 :: stale))).length ≤ if s.isSSO then 2 ^ 7 else 2 ^ 16)
    (fits : (a ++ (r ++ u)).length < (a ++ (p ++ (u ++ 0 :: stale))).length) :
    ∃ stale', (a ++ (r ++ u) ++ 0 :: stale').length = (a ++ (p ++ (u ++ 0 :: stale))).length ∧
      s.replaceAt find repl a.length =
        some { s with
          buffer := some (a ++ (r ++ u) ++ 0 :: stale')
          len := (a ++ (r ++ u)).length } := by
  simp only [List.length_append, List.length_cons] at fits len room
  obtain ⟨mid, tail, cut, width⟩ : ∃ mid tail, p ++ (u ++ 0 :: stale) = mid ++ tail ∧
      mid.length = r.length :=
    ⟨_, _, (List.take_append_drop r.length _).symm, by
      rw [List.length_take]
      simp only [List.length_append, List.length_cons]
      omega⟩
  have total := congrArg List.length cut
  simp only [List.length_append, List.length_cons] at total
  have whole : s.buffer = some ((a ++ mid) ++ tail) := by
    rw [buffer, cut, List.append_assoc]
  have read : (((a ++ mid) ++ tail).drop (a ++ p).length).take u.length = u := by
    rw [List.append_assoc, ← cut, ← List.append_assoc, List.drop_left, List.take_left]
  have moved := memmove_append (a ++ p).length u.length u whole (by
    rw [List.append_assoc, ← cut]
    simp only [List.length_append, List.length_cons]
    omega) read (by omega)
  have written := write_append (s := { s with
      buffer := some (a ++ (mid ++ (u ++ tail.drop u.length))) }) r rfl
    (by simp only [List.length_append]; omega)
  rw [← width, List.drop_left, show a ++ (r ++ (u ++ tail.drop u.length)) =
    a ++ (r ++ u) ++ tail.drop u.length by simp only [List.append_assoc]] at written
  have terminated := write_append (s := { s with
      buffer := some ((a ++ (r ++ u)) ++ tail.drop u.length)
      len := (a ++ (r ++ u)).length }) [0] rfl
    (by rw [List.length_drop, List.length_singleton]; omega)
  refine ⟨(tail.drop u.length).drop 1, ?_, ?_⟩
  · simp only [List.length_append, List.length_cons, List.length_drop]
    omega
  · have dest : a.length + find.len + (repl.len - find.len) = (a ++ mid).length := by
      rw [holds.len, holds2.len, List.length_append]
      omega
    have src : a.length + find.len = (a ++ p).length := by
      rw [holds.len, List.length_append]
    have count : s.len - (a ++ p).length = u.length := by
      rw [len, List.length_append]
      omega
    have newLen : s.len + (repl.len - find.len) = (a ++ (r ++ u)).length := by
      rw [len, holds.len, holds2.len]
      simp only [List.length_append]
      omega
    have longer := fun buffer => setLen_natCast (s := { s with buffer := buffer })
      (n := (a ++ (r ++ u)).length) (by simp only [List.length_append]; omega)
    rw [replaceAt, dest, src, count, moved]
    simp only [Option.bind_eq_bind, Option.bind_some]
    rw [copyFrom_eq holds2, List.append_assoc, written, Option.bind_some, newLen, longer,
      terminated]
    rfl

/-- Without room for the result and its terminator the round leaves the buffer. -/
theorem replaceAt_overflows (holds : find.Holds p) (holds2 : repl.Holds r) {buffer : List UInt8}
    (known : s.buffer = some buffer) {index : Nat}
    (overflows : buffer.length ≤ s.len + (r.length - p.length)) :
    s.replaceAt find repl index = none := by
  rw [Option.eq_none_iff_forall_ne_some]
  intro final written
  rw [replaceAt, holds.len, holds2.len] at written
  simp only [Option.bind_eq_bind] at written
  obtain ⟨s1, moved, written⟩ := Option.bind_eq_some_iff.1 written
  obtain ⟨s2, copied, written⟩ := Option.bind_eq_some_iff.1 written
  obtain ⟨buffer1, rfl, length1⟩ := memmove_length moved known
  rw [copyFrom_eq holds2] at copied
  obtain ⟨buffer2, rfl, length2, _⟩ := write_length copied rfl
  obtain ⟨_, _, _, room⟩ := write_length written rfl
  rw [List.length_singleton] at room
  dsimp only at room
  omega

theorem occursAt_append {a t : List UInt8} {k : Nat} (inside : k ≤ a.length) :
    OccursAt p (a ++ t) k ↔ p <+: a.drop k ++ t := by
  rw [OccursAt, List.drop_append_of_le_length inside]

/-- The search from the end of a part finds its last position that looks like an occurrence. -/
theorem lastIndexOf_part (holds : find.Holds p) (nonempty : p ≠ []) {a t : List UInt8}
    (text : s.Holds (a ++ t)) (part : a ≠ []) :
    (s.lastIndexOf find (UInt32.ofNat ((a.length : Int) - 1).toNat) = some (-1) ∧ Quiet p a t) ∨
      ∃ k < a.length,
        s.lastIndexOf find (UInt32.ofNat ((a.length : Int) - 1).toNat) = some (k : Int) ∧
        Quiet p (a.drop (k + 1)) t ∧ p <+: a.drop k ++ t := by
  have positive := List.length_pos_iff.2 part
  have short := text.short
  have inside : (UInt32.ofNat ((a.length : Int) - 1).toNat).toNat = a.length - 1 := by
    rw [List.length_append] at short
    rw [UInt32.toNat_ofNat', Nat.mod_eq_of_lt (by omega)]
    omega
  obtain ⟨answer, searched, last⟩ := lastIndexOf_text text holds nonempty
    (UInt32.ofNat ((a.length : Int) - 1).toNat)
  rw [inside] at last
  rcases last with ⟨rfl, nowhere⟩ | ⟨k, rfl, ⟨small, occurs⟩, greatest⟩
  · refine Or.inl ⟨searched, fun k before here => ?_⟩
    exact nowhere k (by omega) ((occursAt_append (Nat.le_of_lt before)).2 here)
  · have before : k < a.length := by omega
    refine Or.inr ⟨k, before, searched, fun j small' later => ?_,
      (occursAt_append (Nat.le_of_lt before)).1 occurs⟩
    rw [List.length_drop] at small'
    rw [List.drop_drop, ← occursAt_append (by omega)] at later
    have := greatest ⟨by omega, later⟩
    omega

/-- The loop for a longer text gives what is replaced from right to left, or leaves the buffer. -/
theorem replaceGrowing_text (holds : find.Holds p) (holds2 : repl.Holds r) (nonempty : p ≠ [])
    (grow : p.length < r.length) {rounds : Nat} (a t : List UInt8) {stale : List UInt8}
    (enough : a.length < rounds) (plain : 0 ∉ a ++ t)
    (buffer : s.buffer = some (a ++ t ++ 0 :: stale)) (len : s.len = (a ++ t).length)
    (room : (a ++ t ++ 0 :: stale).length ≤ if s.isSSO then 2 ^ 7 else 2 ^ 16) :
    (∃ stale', (replaceBack p r a t ++ 0 :: stale').length = (a ++ t ++ 0 :: stale).length ∧
      replaceGrowing find repl rounds (a.length - 1) s =
        some { s with
          buffer := some (replaceBack p r a t ++ 0 :: stale')
          len := (replaceBack p r a t).length }) ∨
    ((a ++ t ++ 0 :: stale).length ≤ (replaceBack p r a t).length ∧
      replaceGrowing find repl rounds (a.length - 1) s = none) := by
  induction rounds generalizing s a t stale with
  | zero => exact absurd enough (Nat.not_lt_zero _)
  | succ rounds ih =>
    have unchanged : Quiet p a t → some s = some { s with
        buffer := some (replaceBack p r a t ++ 0 :: stale)
        len := (replaceBack p r a t).length } := by
      intro quiet
      rw [replaceBack_quiet quiet, ← buffer, ← len]
    have same : Quiet p a t →
        (replaceBack p r a t ++ 0 :: stale).length = (a ++ t ++ 0 :: stale).length := by
      intro quiet
      rw [replaceBack_quiet quiet]
    rw [replaceGrowing]
    by_cases empty : a = []
    · have quiet : Quiet p a t := by
        rw [empty]
        exact fun k inside => absurd inside (Nat.not_lt_zero k)
      rw [if_pos (by rw [empty]; decide)]
      exact Or.inl ⟨stale, same quiet, unchanged quiet⟩
    · have positive := List.length_pos_iff.2 empty
      have short : (a ++ t).length < 2 ^ 16 := by
        rw [List.length_append, List.length_cons] at room
        split at room <;> omega
      rw [if_neg (by omega)]
      rcases lastIndexOf_part holds nonempty
          ⟨plain, len, short, by rw [buffer]; exact ⟨stale, rfl⟩⟩ empty with
        ⟨missing, quiet⟩ | ⟨k, before, found, behind, here⟩
      · rw [missing]
        exact Or.inl ⟨stale, same quiet, unchanged quiet⟩
      · rw [found]
        simp only [Option.bind_eq_bind, Option.bind_some]
        have replaced := replaceBack_last (r := r) before behind here
        obtain ⟨u, split⟩ := here
        rw [← split, List.drop_left] at replaced
        have whole : a ++ t = a.take k ++ (p ++ u) := by
          rw [split, ← List.append_assoc, List.take_append_drop]
        have width : (a.take k).length = k := by
          rw [List.length_take]
          omega
        have layout : a ++ t ++ 0 :: stale = a.take k ++ (p ++ (u ++ 0 :: stale)) := by
          rw [whole]
          simp only [List.append_assoc]
        rw [layout] at buffer room
        rw [whole] at len plain
        rw [if_neg (Int.not_lt.2 (Int.natCast_nonneg k)), Int.toNat_natCast, layout, replaced]
        by_cases fits : (a.take k ++ (r ++ u)).length <
            (a.take k ++ (p ++ (u ++ 0 :: stale))).length
        · obtain ⟨stale', length, run⟩ := replaceAt_fits holds holds2 grow buffer len room fits
          rw [width] at run
          rw [run, Option.bind_some]
          have next := ih (s := { s with
              buffer := some (a.take k ++ (r ++ u) ++ 0 :: stale')
              len := (a.take k ++ (r ++ u)).length })
            (a.take k) (r ++ u) (by omega) (by
              intro mem
              simp only [List.mem_append, not_or] at mem plain
              rcases mem with mem | mem | mem
              · exact plain.1 mem
              · exact holds2.plain mem
              · exact plain.2.2 mem) rfl rfl (by rw [length]; exact room)
          rw [width, length] at next
          exact next
        · have overflows : (a.take k ++ (p ++ (u ++ 0 :: stale))).length ≤
              s.len + (r.length - p.length) := by
            rw [len]
            simp only [List.length_append, List.length_cons] at fits ⊢
            omega
          right
          rw [replaceAt_overflows holds holds2 buffer overflows]
          refine ⟨?_, rfl⟩
          have longer := length_le_replaceBack grow (a.take k) (r ++ u)
          rw [List.length_append] at fits
          omega

end

/-! ## The result -/

/-- What the buffer holds is the text of the string. -/
theorem Holds.text_eq {s : StringMemory} {text text' stale : List UInt8} (holds : s.Holds text)
    (buffer : s.buffer = some (text' ++ 0 :: stale)) (len : s.len = text'.length) :
    text' = text := by
  have terminated := holds.terminated
  rw [buffer] at terminated
  obtain ⟨_, same⟩ := terminated
  exact (List.append_inj same (len.symm.trans holds.len)).1

theorem holds_of_buffer {s : StringMemory} {text stale : List UInt8} (plain : 0 ∉ text)
    (short : text.length < 2 ^ 16) (buffer : s.buffer = some (text ++ 0 :: stale))
    (len : s.len = text.length) : s.Holds text := by
  refine ⟨plain, len, short, ?_⟩
  rw [buffer]
  exact ⟨stale, rfl⟩

section
variable {s find repl : StringMemory} {text p r : List UInt8}

/-- The limit of `setLen` for the bytes of a buffer. -/
theorem Allocated.length_le (allocated : s.Allocated) {buffer : List UInt8}
    (known : s.buffer = some buffer) :
    buffer.length ≤ if s.isSSO then 2 ^ 7 else 2 ^ 16 := by
  have bound := allocated buffer known
  cases sso : s.isSSO with
  | false =>
    rw [sso] at bound
    exact bound
  | true =>
    rw [sso, if_pos rfl] at bound
    rw [bound]
    decide

theorem Allocated.capacity (allocated : s.Allocated) {buffer : List UInt8}
    (known : s.buffer = some buffer) (nonempty : buffer ≠ []) :
    s.capacity + 1 = buffer.length := by
  have bound := allocated buffer known
  have positive := List.length_pos_iff.2 nonempty
  unfold StringMemory.capacity
  cases sso : s.isSSO with
  | false =>
    rw [if_neg Bool.false_ne_true, known, Option.getD_some]
    omega
  | true =>
    rw [sso, if_pos rfl] at bound
    rw [if_pos rfl, bound]
    rfl

/-- A new buffer has the old contents and room for the size. -/
theorem changeBuffer_grows {stale : List UInt8} {size : Nat}
    (buffer : s.buffer = some (text ++ 0 :: stale)) (full : (text ++ 0 :: stale).length ≤ size)
    (small : (size + 16) / 16 * 16 ≤ capacityMax) :
    ∃ stale', size < (text ++ 0 :: stale').length ∧ (text ++ 0 :: stale').length ≤ 2 ^ 16 ∧
      s.changeBuffer true size =
        (true, { s with isSSO := false, buffer := some (text ++ 0 :: stale') }) := by
  let zeros := List.replicate ((size + 16) / 16 * 16 - (text ++ 0 :: stale).length) (0 : UInt8)
  have whole : text ++ 0 :: stale ++ zeros = text ++ 0 :: (stale ++ zeros) :=
    List.append_assoc _ _ _
  have length : (text ++ 0 :: stale ++ zeros).length = (size + 16) / 16 * 16 := by
    rw [List.length_append, List.length_replicate]
    omega
  refine ⟨stale ++ zeros, ?_, ?_, ?_⟩
  · rw [← whole, length]
    omega
  · rw [← whole, length]
    exact Nat.le_trans small (by decide)
  · rw [changeBuffer, if_neg (Nat.not_lt.2 small), if_neg (by decide), buffer]
    dsimp only [Option.getD_some]
    rw [List.take_of_length_le (Nat.le_of_eq length), whole]

/-- With room for the result of the count, the loop for a longer text gives it if and only if no
other position looks like an occurrence. -/
theorem replaceGrowing_iff (holdsFind : find.Holds p) (holdsReplace : repl.Holds r)
    (nonempty : p ≠ []) (grow : p.length < r.length) {stale : List UInt8} (plain : 0 ∉ text)
    (buffer : s.buffer = some (text ++ 0 :: stale)) (len : s.len = text.length)
    (limit : (text ++ 0 :: stale).length ≤ if s.isSSO then 2 ^ 7 else 2 ^ 16)
    (room : (replaceAll p r text).length < (text ++ 0 :: stale).length) :
    (∃ s', replaceGrowing find repl (s.len + 1) (s.len - 1) s = some s' ∧
      s'.Holds (replaceAll p r text)) ↔ Settled p r text := by
  have run := replaceGrowing_text holdsFind holdsReplace nonempty grow text []
    (show text.length < s.len + 1 by omega)
    (by rw [List.append_nil]; exact plain) (by rw [List.append_nil]; exact buffer)
    (by rw [List.append_nil]; exact len) (by rw [List.append_nil]; exact limit)
  rw [List.append_nil, ← len] at run
  rw [← replaceBack_eq_iff grow nonempty]
  constructor
  · rintro ⟨s', done, holds⟩
    rcases run with ⟨stale', _, run⟩ | ⟨_, run⟩
    · rw [run] at done
      obtain rfl := Option.some.inj done
      exact holds.text_eq rfl rfl
    · rw [run] at done
      cases done
  · intro same
    rcases run with ⟨stale', length, run⟩ | ⟨overflows, _⟩
    · rw [same] at run length
      refine ⟨_, run, holds_of_buffer ?_ ?_ rfl rfl⟩
      · intro mem
        exact (mem_replaceAll nonempty mem).elim plain holdsReplace.plain
      · rw [← length, List.length_append, List.length_cons] at limit
        split at limit <;> omega
    · rw [same] at overflows
      omega

theorem no_occurrence (nonempty : p ≠ []) (grow : p.length < r.length)
    (same : (replaceAll p r text).length = text.length) :
    replaceAll p r text = text ∧ Settled p r text := by
  have absent := absent_of_length_replaceAll nonempty grow text same
  have kept : replaceAll p r text = text := by
    have skip := replaceAll_skip (p := p) (r := r) text []
      (by rw [List.append_nil]; exact absent)
    rw [List.append_nil] at skip
    exact skip.trans (List.append_nil text)
  refine ⟨kept, (replaceBack_eq_iff grow nonempty text).1 ?_⟩
  rw [kept, replaceBack_quiet, List.append_nil]
  intro k inside
  rw [List.append_nil]
  exact absent k inside

/-- `replace` gives the text with the occurrences replaced from left to right, inside its buffer, if
and only if the new text is not longer, or no other position looks like an occurrence in front of
what has been replaced. -/
theorem replace_iff (holds : s.Holds text) (buffers : s.Allocated) (holdsFind : find.Holds p)
    (holdsReplace : repl.Holds r) (nonempty : p ≠ []) (allocated : Bool)
    (reserved : (replaceAll p r text).length ≤ s.capacity ∨
      allocated = true ∧ ((replaceAll p r text).length + 16) / 16 * 16 ≤ capacityMax) :
    (∃ s', s.replace allocated find repl = some s' ∧ s'.Holds (replaceAll p r text)) ↔
      r.length ≤ p.length ∨ Settled p r text := by
  have positive := List.length_pos_iff.2 nonempty
  by_cases empty : text = []
  · subst empty
    have unchanged : s.replace allocated find repl = some s := by
      have nothing : s.len = 0 := holds.len
      rw [replace, if_pos (Or.inl nothing)]
    exact ⟨fun _ => Or.inr .nil, fun _ => ⟨s, unchanged, holds⟩⟩
  obtain ⟨stale, buffer⟩ := holds.buffer empty
  have long := List.length_pos_iff.2 empty
  have limit := buffers.length_le buffer
  have capacity := buffers.capacity buffer (by simp)
  have fits : text.length < if s.isSSO then 2 ^ 7 else 2 ^ 16 :=
    Nat.lt_of_lt_of_le (by simp) limit
  have started : ¬(s.len = 0 ∨ find.len = 0) := by
    rw [holds.len, holdsFind.len]
    omega
  have kept : 0 ∉ replaceAll p r text := fun mem =>
    (mem_replaceAll nonempty mem).elim holds.plain holdsReplace.plain
  rw [replace, if_neg started, holds.len, holdsFind.len, holdsReplace.len]
  dsimp only
  rcases Nat.lt_trichotomy r.length p.length with shrink | same | grow
  · rw [if_neg (by omega), if_pos (by omega)]
    have shorter := length_replaceAll_le_length nonempty (Nat.le_of_lt shrink) text
    obtain ⟨stale', run⟩ := replaceShrinking_text holdsFind holdsReplace nonempty shrink [] []
      (Nat.lt_succ_self text.length)
      holds.plain buffer (by rw [holds.len, List.length_nil, Nat.zero_add])
      (by rw [List.length_nil, Nat.zero_add]; exact fits)
    refine ⟨fun _ => Or.inl (Nat.le_of_lt shrink), fun _ => ⟨_, run, ?_⟩⟩
    exact holds_of_buffer kept (Nat.lt_of_le_of_lt shorter holds.short) rfl (Nat.zero_add _)
  · rw [if_pos (by omega)]
    have length := length_replaceAll_eq nonempty same text
    have run := replaceSame_text holdsFind holdsReplace nonempty same []
      (Nat.lt_succ_self text.length) holds.plain buffer
    refine ⟨fun _ => Or.inl (Nat.le_of_eq same), fun _ => ⟨_, run, ?_⟩⟩
    exact holds_of_buffer kept (length ▸ holds.short) rfl (holds.len.trans length.symm)
  · rw [if_neg (by omega), if_neg (by omega)]
    have bound : (replaceAll p r text).length < 2 ^ 32 := by
      have product := length_replaceAll_le_mul nonempty (Nat.zero_lt_of_lt grow) text
      have factors : text.length * r.length ≤ (2 ^ 16 - 1) * (2 ^ 16 - 1) :=
        Nat.mul_le_mul (Nat.le_pred_of_lt holds.short) (Nat.le_pred_of_lt holdsReplace.short)
      omega
    have size := replaceSize_text holdsFind holdsReplace nonempty grow [] text.length
      (Nat.lt_succ_self text.length) holds.plain buffer (by omega)
    rw [List.length_nil, Nat.add_sub_cancel_left] at size
    rw [size]
    simp only [Option.bind_eq_bind, Option.bind_some]
    by_cases same : (replaceAll p r text).length = text.length
    · obtain ⟨unchanged, settled⟩ := no_occurrence nonempty grow same
      rw [if_pos same]
      exact ⟨fun _ => Or.inr settled, fun _ => ⟨s, rfl, by rw [unchanged]; exact holds⟩⟩
    · rw [if_neg same]
      have settled : r.length ≤ p.length ∨ Settled p r text ↔ Settled p r text :=
        or_iff_right (Nat.not_le.2 grow)
      rw [settled]
      by_cases full : s.capacity < (replaceAll p r text).length
      · rw [if_pos full]
        obtain ⟨rfl, small⟩ := reserved.resolve_left (Nat.not_le.2 full)
        obtain ⟨stale', room, length, grown⟩ := changeBuffer_grows buffer (by omega) small
        rw [grown]
        dsimp only
        rw [if_neg (by decide)]
        have result := replaceGrowing_iff (s := { s with
            isSSO := false
            buffer := some (text ++ 0 :: stale') })
          holdsFind holdsReplace nonempty grow holds.plain rfl holds.len length room
        exact result
      · rw [if_neg full]
        dsimp only
        rw [if_neg (by decide)]
        have result := replaceGrowing_iff holdsFind holdsReplace nonempty grow holds.plain buffer
          holds.len limit (by omega)
        exact result

end

/-- The strings "abab", "aab", "ab" and "bbb". -/
def abab : StringMemory := ⟨true, some [0x61, 0x62, 0x61, 0x62, 0, 0, 0, 0, 0, 0, 0], 4⟩

def aab : StringMemory := ⟨true, some [0x61, 0x61, 0x62, 0, 0, 0, 0, 0, 0, 0, 0], 3⟩

def ab : StringMemory := ⟨true, some [0x61, 0x62, 0, 0, 0, 0, 0, 0, 0, 0, 0], 2⟩

def bbb : StringMemory := ⟨true, some [0x62, 0x62, 0x62, 0, 0, 0, 0, 0, 0, 0, 0], 3⟩

theorem ab_holds : ab.Holds [0x61, 0x62] := ⟨by decide, rfl, by decide, _, rfl⟩

theorem bbb_holds : bbb.Holds [0x62, 0x62, 0x62] := ⟨by decide, rfl, by decide, _, rfl⟩

theorem abab_settled :
    Settled [0x61, 0x62] [0x62, 0x62, 0x62] [0x61, 0x62, 0x61, (0x62 : UInt8)] := by
  have quiet : ∀ (rest : List UInt8) (k : Nat), 0 < k → k < 2 →
      ¬[0x61, 0x62] <+: [0x61, (0x62 : UInt8)].drop k ++ rest := by
    intro rest k positive inside
    obtain rfl : k = 1 := by omega
    simp
  exact .found (s := [0x61, 0x62]) (quiet _) (.found (s := []) (quiet _) .nil)

theorem replace_iff_abab : ∃ s', abab.replace true ab bbb = some s' ∧
    s'.Holds (replaceAll [0x61, 0x62] [0x62, 0x62, 0x62] [0x61, 0x62, 0x61, 0x62]) :=
  (replace_iff (s := abab) ⟨by decide, rfl, by decide, _, rfl⟩
    (fun _ known => Option.some.inj known ▸ rfl) ab_holds bbb_holds (by decide) true
    (Or.inl (by decide))).2 (Or.inr abab_settled)

/-- "aab" with "bbb" for "ab": the text that was put in makes a second occurrence. -/
theorem replace_fails_aab : aab.Holds [0x61, 0x61, 0x62] ∧ ab.Holds [0x61, 0x62] ∧
    bbb.Holds [0x62, 0x62, 0x62] ∧
    aab.replace true ab bbb =
      some ⟨true, some [0x62, 0x62, 0x62, 0x62, 0x62, 0, 0, 0, 0, 0, 0], 5⟩ ∧
    ¬∃ s', aab.replace true ab bbb = some s' ∧
      s'.Holds (replaceAll [0x61, 0x62] [0x62, 0x62, 0x62] [0x61, 0x61, 0x62]) := by
  have result : aab.replace true ab bbb =
      some ⟨true, some [0x62, 0x62, 0x62, 0x62, 0x62, 0, 0, 0, 0, 0, 0], 5⟩ := by decide
  refine ⟨⟨by decide, rfl, by decide, _, rfl⟩, ab_holds, bbb_holds, result, ?_⟩
  rintro ⟨s', run, holds⟩
  rw [result] at run
  obtain rfl := Option.some.inj run
  exact absurd holds.len (by decide)

end StringMemory

end Esp8266.Source
