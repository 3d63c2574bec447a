import Esp8266.Lib.Word16
import Esp8266.Source.NetBios
import Mathlib.Data.List.Forall2

/-!
# NetBIOS names

A question is decoded inside of its buffer and of the decoded name as long as the length byte it
announces, or a zero in its name, allows no more than 16 characters. The own name is encoded with
15 characters; `begin` accepts 17.
-/
set_option autoImplicit false

namespace Esp8266.Source.NetBios
open Esp8266.Lib.Word16 Esp8266.Source.WString

/-! ## Decoding -/

/-- The characters of letters in pairs. -/
def decoded : List UInt8 → List UInt8
  | [] => []
  | [x] => [(x - 0x41) <<< 4]
  | x :: y :: rest => ((x - 0x41) <<< 4 ||| (y - 0x41)) :: decoded rest

/-- How many letters are read for a length byte. -/
def limit (maxlen : UInt8) : Nat := 2 * ((maxlen.toNat + 1) / 2)

theorem store_ok {name : List UInt8} (room : name.length < nameSize) (b : UInt8) :
    store name b = .ok (name ++ [b]) := if_pos room

theorem store_full {name : List UInt8} (full : nameSize ≤ name.length) (b : UInt8) :
    store name b = .error .outside := if_neg (Nat.not_lt_of_le full)

/-- A name of 17 characters has no place for the zero behind it. -/
theorem getnbnameLoop_full (maxlen c : UInt8) {name : List UInt8}
    (full : nameSize ≤ name.length) (nbname : List UInt8) :
    getnbnameLoop maxlen nbname c name = .error .outside := by
  rcases nbname with _ | ⟨x, _ | ⟨y, rest⟩⟩
  · rfl
  · rw [getnbnameLoop]
    split
    · rfl
    · rw [store_full full]
      rfl
  · rw [getnbnameLoop]
    split
    · simp only
      split <;> rw [store_full full] <;> rfl
    · rw [store_full full]
      rfl

theorem getnbnameLoop_stop {maxlen x c : UInt8} {nbname name : List UInt8}
    (room : name.length < nameSize) (stop : x = 0 ∨ maxlen.toNat ≤ c.toNat) :
    getnbnameLoop maxlen (x :: nbname) c name = .ok name := by
  have ends : ¬ (x ≠ 0 ∧ c < maxlen) := by
    rintro ⟨some, less⟩
    have := UInt8.lt_iff_toNat_lt.mp less
    exact stop.elim some (Nat.not_le_of_lt this)
  rw [getnbnameLoop, if_neg ends, store_ok room]
  rfl

theorem decoded_stop {maxlen x : UInt8} {nbname : List UInt8} {k : Nat}
    (stop : x = 0 ∨ maxlen.toNat ≤ 2 * k) :
    decoded ((cstr (x :: nbname)).take (limit maxlen - 2 * k)) = [] := by
  rcases stop with rfl | small
  · have nil : cstr (0 :: nbname) = [] := rfl
    rw [nil, List.take_nil]
    rfl
  · have none : limit maxlen - 2 * k = 0 := by
      rw [limit]
      omega
    rw [none]
    rfl

theorem cstr_cons {x : UInt8} (some : x ≠ 0) (nbname : List UInt8) :
    cstr (x :: nbname) = x :: cstr nbname :=
  List.takeWhile_cons_of_pos (decide_eq_true some)

/-- With some characters decoded, the rest is decoded if it has place, and leaves the array
otherwise. -/
theorem getnbnameLoop_eq (maxlen : UInt8) (left : Nat) :
    ∀ {nbname name : List UInt8} {c : UInt8}, name.length + left = 16 →
      c.toNat = 2 * name.length → 2 * left + 1 ≤ nbname.length →
      getnbnameLoop maxlen nbname c name =
        if maxlen.toNat ≤ 32 ∨ 0 ∈ nbname.take (2 * left + 1) then
          .ok (name ++ decoded ((cstr nbname).take (limit maxlen - 2 * name.length)))
        else .error .outside := by
  induction left with
  | zero =>
    intro nbname name c sixteen read long
    rcases nbname with _ | ⟨x, nbname⟩
    · exact absurd long (by decide)
    have room : name.length < nameSize := by
      change _ < 17
      omega
    by_cases stop : x = 0 ∨ maxlen.toNat ≤ 2 * name.length
    · have fits : maxlen.toNat ≤ 32 ∨ 0 ∈ (x :: nbname).take (2 * 0 + 1) := by
        rcases stop with rfl | small
        · exact .inr List.mem_cons_self
        · exact .inl (by omega)
      rw [if_pos fits, decoded_stop stop, List.append_nil]
      exact getnbnameLoop_stop room (read ▸ stop)
    · have beyond : ¬ (maxlen.toNat ≤ 32 ∨ 0 ∈ (x :: nbname).take (2 * 0 + 1)) := by
        rintro (small | zero)
        · exact stop (.inr (by omega))
        · exact stop (.inl (List.mem_singleton.mp zero).symm)
      rw [not_or, Nat.not_le] at stop
      have goes : x ≠ 0 ∧ c < maxlen :=
        ⟨stop.1, UInt8.lt_iff_toNat_lt.mpr (read ▸ stop.2)⟩
      have full : ∀ b : UInt8, nameSize ≤ (name ++ [b]).length := by
        intro b
        rw [List.length_append, List.length_singleton]
        change 17 ≤ _
        omega
      rw [if_neg beyond, getnbnameLoop, if_pos goes]
      rcases nbname with _ | ⟨y, rest⟩
      · rfl
      · simp only
        split <;> rw [store_ok room] <;> exact getnbnameLoop_full maxlen _ (full _) _
  | succ left ih =>
    intro nbname name c sum read long
    rcases nbname with _ | ⟨x, _ | ⟨y, rest⟩⟩
    · exact absurd long (by simp)
    · exact absurd long (by simp)
    have room : name.length < nameSize := by
      change _ < 17
      omega
    by_cases stop : x = 0 ∨ maxlen.toNat ≤ 2 * name.length
    · have fits : maxlen.toNat ≤ 32 ∨ 0 ∈ (x :: y :: rest).take (2 * (left + 1) + 1) := by
        rcases stop with rfl | small
        · exact .inr List.mem_cons_self
        · exact .inl (by omega)
      rw [if_pos fits, decoded_stop stop, List.append_nil]
      exact getnbnameLoop_stop room (read ▸ stop)
    · rw [not_or, Nat.not_le] at stop
      have goes : x ≠ 0 ∧ c < maxlen :=
        ⟨stop.1, UInt8.lt_iff_toNat_lt.mpr (read ▸ stop.2)⟩
      obtain ⟨further, pairs⟩ :
          ∃ n, limit maxlen - 2 * name.length = n + 2 ∧
            limit maxlen - 2 * (name.length + 1) = n := by
        refine ⟨limit maxlen - 2 * (name.length + 1), ?_, rfl⟩
        rw [limit]
        omega
      rw [getnbnameLoop, if_pos goes, cstr_cons stop.1, pairs.1]
      simp only
      have longer : ∀ b : UInt8, (name ++ [b]).length = name.length + 1 := fun b => by
        rw [List.length_append, List.length_singleton]
      by_cases last : y = 0
      · have fits : maxlen.toNat ≤ 32 ∨ 0 ∈ (x :: y :: rest).take (2 * (left + 1) + 1) :=
          .inr (List.mem_cons_of_mem _ (last ▸ List.mem_cons_self))
        have nil : cstr (y :: rest) = [] := by
          rw [last]
          rfl
        rw [if_pos fits, if_neg (not_not_intro last), store_ok room, nil]
        refine getnbnameLoop_stop ?_ (.inl last)
        rw [longer]
        change _ < 17
        omega
      · have byte : (c + 1 + 1).toNat = 2 * (name.length + 1) := by
          rw [UInt8.toNat_add, UInt8.toNat_add, read]
          change ((2 * name.length + 1) % 256 + 1) % 256 = _
          omega
        have same : (maxlen.toNat ≤ 32 ∨ 0 ∈ (x :: y :: rest).take (2 * (left + 1) + 1)) ↔
            maxlen.toNat ≤ 32 ∨ 0 ∈ rest.take (2 * left + 1) := by
          refine or_congr_right ⟨fun zero => ?_, fun zero => ?_⟩
          · rcases List.mem_cons.mp zero with none | zero
            · exact absurd none.symm stop.1
            · exact (List.mem_cons.mp zero).resolve_left fun none => last none.symm
          · exact List.mem_cons_of_mem _ (List.mem_cons_of_mem _ zero)
        rw [if_pos last, store_ok room, if_congr same rfl rfl, cstr_cons last]
        have rest' := @ih rest (name ++ [(x - 0x41) <<< 4 ||| (y - 0x41)]) (c + 1 + 1)
          (by rw [longer]; omega) (by rw [longer]; exact byte) (by
            simp only [List.length_cons] at long
            omega)
        rw [longer, pairs.2, List.append_assoc] at rest'
        exact rest'

/-! ## Encoding -/

def letters (b : UInt8) : List UInt8 := [(b >>> 4) + 0x41, (b &&& 0xf) + 0x41]

def encoded (name : List UInt8) : List UInt8 := name.flatMap letters

/-- A name with the spaces that fill it. -/
def padded (n : Nat) (name : List UInt8) : List UInt8 :=
  name.take n ++ List.replicate (n - name.length) 0x20

theorem encoded_cons (b : UInt8) (name : List UInt8) :
    encoded (b :: name) = ((b >>> 4) + 0x41) :: ((b &&& 0xf) + 0x41) :: encoded name :=
  List.flatMap_cons

theorem makenbnameLoop_eq (n : Nat) : ∀ {name : List UInt8} (behind : List UInt8), 0 ∉ name →
    makenbnameLoop n (name ++ 0 :: behind) = .ok (encoded (padded n name)) := by
  induction n with
  | zero =>
    intro name behind _
    rw [padded, List.take_zero, Nat.zero_sub]
    cases name <;> rfl
  | succ n ih =>
    intro name behind plain
    cases name with
    | nil =>
      have rest := ih behind List.not_mem_nil
      have space : padded (n + 1) [] = 0x20 :: padded n [] := by
        rw [padded, padded, List.take_nil, List.take_nil]
        rfl
      rw [List.nil_append] at rest ⊢
      rw [makenbnameLoop, if_neg (not_not_intro rfl), space, encoded_cons]
      simp only
      rw [rest]
      rfl
    | cons b name =>
      have some : b ≠ 0 := fun zero => plain (zero ▸ List.mem_cons_self)
      have first : padded (n + 1) (b :: name) = b :: padded n name := by
        rw [padded, List.take_succ_cons, List.length_cons, Nat.add_sub_add_right]
        rfl
      rw [List.cons_append, makenbnameLoop, if_pos some, first, encoded_cons]
      simp only
      rw [ih behind fun mem => plain (List.mem_cons_of_mem _ mem)]
      rfl

theorem letters_facts (b : UInt8) :
    (b >>> 4) + 0x41 ≠ 0 ∧ (b &&& 0xf) + 0x41 ≠ 0 ∧
      ((b >>> 4) + 0x41 - 0x41) <<< 4 ||| ((b &&& 0xf) + 0x41 - 0x41) = b := by
  revert b
  exact forall_byte (by decide)

theorem decoded_encoded (name behind : List UInt8) :
    decoded (encoded name ++ behind) = name ++ decoded behind := by
  induction name with
  | nil => rfl
  | cons b name ih =>
    rw [encoded_cons, List.cons_append, List.cons_append, decoded, ih, (letters_facts b).2.2]
    rfl

theorem not_mem_encoded (name : List UInt8) : 0 ∉ encoded name := by
  intro mem
  obtain ⟨b, -, zero⟩ := List.mem_flatMap.mp mem
  rcases List.mem_cons.mp zero with first | second
  · exact (letters_facts b).1 first.symm
  · exact (letters_facts b).2.1 (List.mem_singleton.mp second).symm

theorem length_encoded (name : List UInt8) : (encoded name).length = 2 * name.length := by
  induction name with
  | nil => rfl
  | cons b name ih =>
    rw [encoded_cons, List.length_cons, List.length_cons, ih, List.length_cons]
    omega

theorem length_padded (n : Nat) (name : List UInt8) : (padded n name).length = n := by
  rw [padded, List.length_append, List.length_take, List.length_replicate]
  omega

/-- A name without spaces is what stands in front of those that fill it. -/
theorem cutAtSpace_padded (n : Nat) {name : List UInt8} (plain : 0 ∉ name) (solid : 0x20 ∉ name) :
    cutAtSpace (padded n name ++ [0]) = name.take n := by
  have plain' : 0 ∉ padded n name := by
    intro mem
    rcases List.mem_append.mp mem with mem | mem
    · exact plain (List.mem_of_mem_take mem)
    · exact absurd (List.eq_of_mem_replicate mem) (by decide)
  have solid' : ∀ b ∈ name.take n, decide (b ≠ 0x20) = true := fun b mem =>
    decide_eq_true fun space => solid (space ▸ List.mem_of_mem_take mem)
  have nil : cstr [0] = [] := rfl
  rw [cutAtSpace, cstr_append_of_not_mem plain', nil, List.append_nil, padded,
    List.takeWhile_append_of_pos solid']
  cases n - name.length with
  | zero => exact List.append_nil _
  | succ more => exact List.append_nil _

/-- What an encoded name is decoded to. -/
theorem getnbname_encoded {name : List UInt8} (plain : 0 ∉ name) (solid : 0x20 ∉ name) :
    ∃ text, getnbname (encoded (padded 15 name) ++ [0x41, 0x41, 0]) 32 = .ok text ∧
      cutAtSpace text = name.take 15 := by
  have length : (encoded (padded 15 name)).length = 30 := by
    rw [length_encoded, length_padded]
  refine ⟨padded 15 name ++ [0], ?_, cutAtSpace_padded 15 plain solid⟩
  have visible : (cstr (encoded (padded 15 name) ++ [0x41, 0x41, 0])).take (limit 32 - 2 * 0) =
      encoded (padded 15 name) ++ [0x41, 0x41] := by
    rw [cstr_append_of_not_mem (not_mem_encoded _)]
    exact List.take_of_length_le (by rw [List.length_append, length]; decide)
  rw [getnbname, getnbnameLoop_eq 32 16 rfl rfl (by
    rw [List.length_append, length]
    decide), if_pos (.inl (by decide)), List.length_nil, visible, decoded_encoded]
  rfl

/-! ## Strings in arrays -/

theorem strcmp_eq {s : List UInt8} : ∀ {t : List UInt8} {size : Nat}, 0 ∉ s → 0 ∉ t →
    s.length < size → strcmp (s ++ [0]) ((t ++ [0]).take size) = .ok (decide (s = t)) := by
  induction s with
  | nil =>
    intro t size _ plain inside
    obtain ⟨size, rfl⟩ := Nat.exists_eq_succ_of_ne_zero (Nat.ne_of_gt inside)
    cases t with
    | nil => rfl
    | cons d t =>
      have differs : 0 ≠ d := fun zero => plain (zero ▸ List.mem_cons_self)
      rw [List.nil_append, List.cons_append, List.take_succ_cons, strcmp, if_pos differs]
      rfl
  | cons c s ih =>
    intro t size plain plain' inside
    obtain ⟨size, rfl⟩ := Nat.exists_eq_succ_of_ne_zero (Nat.ne_of_gt (Nat.zero_lt_of_lt inside))
    have some : c ≠ 0 := fun zero => plain (zero ▸ List.mem_cons_self)
    cases t with
    | nil =>
      rw [List.nil_append, List.cons_append, List.take_succ_cons, strcmp, if_pos some]
      rfl
    | cons d t =>
      rw [List.cons_append, List.cons_append, List.take_succ_cons, strcmp]
      by_cases same : c = d
      · rw [if_neg (not_not_intro same), if_neg some,
          ih (fun mem => plain (List.mem_cons_of_mem _ mem))
            (fun mem => plain' (List.mem_cons_of_mem _ mem)) (Nat.lt_of_succ_lt_succ inside)]
        rw [Except.ok.injEq, decide_eq_decide, same, List.cons.injEq, and_iff_right rfl]
      · rw [if_pos same, Except.ok.injEq, eq_comm, decide_eq_false_iff_not]
        exact fun lists => same (List.cons.inj lists).1

theorem strlen_eq {s : List UInt8} (plain : 0 ∉ s) : strlen (s ++ [0]) = .ok s.length := by
  induction s with
  | nil => rfl
  | cons c s ih =>
    have some : c ≠ 0 := fun zero => plain (zero ▸ List.mem_cons_self)
    rw [List.cons_append, strlen, if_neg some, ih fun mem => plain (List.mem_cons_of_mem _ mem)]
    rfl

theorem strlen_outside {s : List UInt8} (plain : 0 ∉ s) : strlen s = .error .outside := by
  induction s with
  | nil => rfl
  | cons c s ih =>
    have some : c ≠ 0 := fun zero => plain (zero ▸ List.mem_cons_self)
    rw [strlen, if_neg some, ih fun mem => plain (List.mem_cons_of_mem _ mem)]
    rfl

/-! ## Answers -/

/-- A buffer that is decoded. -/
def Question (data : List UInt8) : Prop :=
  questionSize ≤ data.length ∧ flags1 data &&& 0x80 = 0

/-- The name that a question is for. -/
def asked (data : List UInt8) : WString :=
  cutAtSpace (decoded ((cstr (data.drop nbnsqName)).take (limit (namesize data))))

/-- The name of a question has no more than 16 characters. -/
def Decodable (data : List UInt8) : Prop :=
  (namesize data).toNat ≤ 32 ∨ 0 ∈ (data.drop nbnsqName).take 33

/-- The name for everyone. -/
def star : WString := ofString "*"

/-- What is said of a buffer and what is sent for it: it is answered if it asks for the own name or
for everyone, and the name of a direct answer is decoded to the own name. -/
def Served (own : ESP8266NetBIOS) (data : List UInt8) (sent : Option Sent) : Prop :=
  (sent.isSome ↔ Question data ∧ (asked data = own.name ∨ asked data = star)) ∧
    ∀ answer, sent = some (.nbnsa answer) →
      ∃ text, getnbname answer.nbname 32 = .ok text ∧ cutAtSpace text = own.name

section

variable (own : ESP8266NetBIOS) (localIP : List UInt8)

instance (data : List UInt8) : Decidable (Decodable data) := inferInstanceAs (Decidable (_ ∨ _))

theorem getnbname_question {data : List UInt8} (question : Question data) :
    getnbname (data.drop nbnsqName) (namesize data) =
      if Decodable data then
        .ok (decoded ((cstr (data.drop nbnsqName)).take (limit (namesize data))))
      else .error .outside := by
  have long : 2 * 16 + 1 ≤ (data.drop nbnsqName).length := by
    rw [List.length_drop]
    exact Nat.le_sub_of_add_le (Nat.le_trans (by decide) question.1)
  exact getnbnameLoop_eq (namesize data) 16 rfl rfl long

theorem length_decoded : ∀ nbname : List UInt8,
    (decoded nbname).length = (nbname.length + 1) / 2
  | [] => rfl
  | [x] => by rw [decoded, List.length_singleton, List.length_singleton]
  | x :: y :: rest => by
    rw [decoded, List.length_cons, length_decoded rest, List.length_cons, List.length_cons]
    omega

theorem length_cstr_le {nbname : List UInt8} {n : Nat} (zero : 0 ∈ nbname.take (n + 1)) :
    (cstr nbname).length ≤ n := by
  rcases cstr_append nbname with ⟨-, plain⟩ | ⟨behind, ends⟩
  · exact absurd (List.mem_of_mem_take zero) plain
  · by_contra beyond
    rw [ends, List.take_append_of_le_length (by omega)] at zero
    exact not_mem_cstr nbname (List.mem_of_mem_take zero)

theorem length_asked {data : List UInt8} (decodable : Decodable data) :
    (asked data).length ≤ 16 := by
  have cut := (List.takeWhile_sublist (fun b : UInt8 => decide (b ≠ 0x20))
    (l := cstr (decoded ((cstr (data.drop nbnsqName)).take (limit (namesize data)))))).length_le
  have visible := (List.takeWhile_sublist (fun b : UInt8 => decide (b ≠ 0))
    (l := decoded ((cstr (data.drop nbnsqName)).take (limit (namesize data))))).length_le
  have pairs : ((cstr (data.drop nbnsqName)).take (limit (namesize data))).length ≤ 32 := by
    rw [List.length_take]
    rcases decodable with small | zero
    · rw [limit]
      omega
    · have := length_cstr_le zero
      omega
  rw [length_decoded] at visible
  change (asked data).length ≤ (cstr _).length at cut
  change (cstr _).length ≤ _ at visible
  omega

theorem not_mem_asked (data : List UInt8) : 0 ∉ asked data ∧ 0x20 ∉ asked data := by
  constructor
  · exact fun mem => not_mem_cstr _ ((List.takeWhile_sublist _).subset mem)
  · intro mem
    have all := List.all_takeWhile (p := fun b : UInt8 => decide (b ≠ 0x20)) (l := cstr
      (decoded ((cstr (data.drop nbnsqName)).take (limit (namesize data)))))
    exact absurd rfl (of_decide_eq_true (List.all_eq_true.mp all 0x20 mem))

theorem cells_eq (fits : own.name.length ≤ 16) : own.cells = own.name ++ [0] :=
  List.take_of_length_le (by
    rw [List.length_append, List.length_singleton]
    exact Nat.succ_le_succ fits)

theorem makenbname_cells (fits : own.name.length ≤ 16) :
    makenbname own.cells 32 = .ok (encoded (padded 15 own.name) ++ [0x41, 0x41, 0]) := by
  have length : (encoded (padded 15 own.name) ++ [0x41, 0x41, 0]).length ≤ 32 + 1 := by
    rw [List.length_append, length_encoded, length_padded]
    decide
  rw [makenbname, cells_eq own fits, makenbnameLoop_eq 15 [] own.plain]
  exact if_pos length

theorem strlen_cells : strlen own.cells =
    if own.name.length ≤ 16 then .ok own.name.length else .error .outside := by
  by_cases fits : own.name.length ≤ 16
  · rw [if_pos fits, cells_eq own fits, strlen_eq own.plain]
  · have full : own.cells = own.name := by
      have whole : own.name.length = nameSize :=
        Nat.le_antisymm own.accepted (Nat.lt_of_not_le fits)
      rw [ESP8266NetBIOS.cells, ← whole, List.take_left]
    rw [if_neg fits, full, strlen_outside own.plain]

/-- The name in an answer for everyone. -/
theorem nname_eq :
    (own.name.take own.name.length ++ (List.replicate 15 0x20).drop own.name.length).take 15 =
      padded 15 own.name := by
  rw [List.take_length, List.drop_replicate, padded, List.take_append]
  congr 1
  refine List.take_of_length_le ?_
  rw [List.length_replicate]

/-- A buffer that is decoded to no more than 16 characters. -/
theorem answer_eq {data : List UInt8} (question : Question data) (decodable : Decodable data) :
    own.answer localIP data =
      if asked data = own.name then
        .ok (some (.nbnsa {
          id := data.take 2
          nbname := encoded (padded 15 own.name) ++ [0x41, 0x41, 0]
          nodeAddress := localIP }))
      else if asked data = star then
        if own.name.length ≤ 16 then
          .ok (some (.nbnsan {
            id := data.take 2
            nameSize := namesize data
            nbname := (data.drop nbnsqName).take 33
            nname := padded 15 own.name }))
        else .error .outside
      else .ok none := by
  have sixteen := length_asked decodable
  have name : cutAtSpace (decoded ((cstr (data.drop nbnsqName)).take (limit (namesize data)))) =
      asked data := rfl
  have compare : strcmp (asked data ++ [0]) own.cells = .ok (decide (asked data = own.name)) :=
    strcmp_eq (not_mem_asked data).1 own.plain (Nat.lt_succ_of_le sixteen)
  rw [ESP8266NetBIOS.answer, if_pos question.1, if_pos question.2, getnbname_question question,
    if_pos decodable]
  change (strcmp (cutAtSpace (decoded _) ++ [0]) own.cells >>= _) = _
  rw [name, compare]
  by_cases same : asked data = own.name
  · rw [if_pos same, decide_eq_true same]
    change (makenbname own.cells 32 >>= _) = _
    rw [makenbname_cells own (same ▸ sixteen)]
    rfl
  · rw [if_neg same, decide_eq_false same]
    change (if cutAtSpace (decoded _) = [0x2a] then strlen own.cells >>= _ else _) = _
    rw [name]
    by_cases everyone : asked data = star
    · have byte : asked data = [0x2a] := everyone
      rw [if_pos everyone, if_pos byte, strlen_cells]
      by_cases fits : own.name.length ≤ 16
      · rw [if_pos fits, if_pos fits, ← nname_eq own]
        rfl
      · rw [if_neg fits, if_neg fits]
        rfl
    · have byte : asked data ≠ [0x2a] := everyone
      rw [if_neg everyone, if_neg byte]
      rfl

/-- A buffer that is not decoded. -/
theorem answer_none {data : List UInt8} (other : ¬ Question data) :
    own.answer localIP data = .ok none := by
  rw [ESP8266NetBIOS.answer]
  by_cases long : data.length ≥ questionSize
  · rw [if_pos long, if_neg fun flag => other ⟨long, flag⟩]
  · rw [if_neg long]

theorem answer_outside {data : List UInt8} (question : Question data)
    (beyond : ¬ Decodable data) : own.answer localIP data = .error .outside := by
  rw [ESP8266NetBIOS.answer, if_pos question.1, if_pos question.2, getnbname_question question,
    if_neg beyond]
  rfl

/-- A buffer that is no question, or one with a name of no more than 16 characters that does not ask
directly for a name of more than 15, nor for everyone where the own name has 17. -/
def Harmless (data : List UInt8) : Prop :=
  Question data → Decodable data ∧ (asked data = own.name → own.name.length ≤ 15) ∧
    (asked data = star → own.name.length ≤ 16)

theorem answer_served_iff (data : List UInt8) :
    (∃ sent, own.answer localIP data = .ok sent ∧ Served own data sent) ↔ Harmless own data := by
  by_cases question : Question data
  swap
  · rw [answer_none own localIP question]
    refine iff_of_true ⟨none, rfl, ?_, fun answer no => absurd no.symm (Option.some_ne_none _)⟩
      fun yes => absurd yes question
    exact iff_of_false Bool.false_ne_true fun right => question right.1
  by_cases decodable : Decodable data
  swap
  · rw [answer_outside own localIP question decodable]
    refine iff_of_false ?_ fun harmless => decodable (harmless question).1
    rintro ⟨sent, fault, -⟩
    cases fault
  have solid := (not_mem_asked data).2
  rw [answer_eq own localIP question decodable]
  by_cases same : asked data = own.name
  · rw [if_pos same]
    obtain ⟨text, read, cut⟩ := getnbname_encoded own.plain (same ▸ solid)
    constructor
    · rintro ⟨sent, answered, -, direct⟩ -
      obtain ⟨text', read', cut'⟩ := direct _ (Except.ok.inj answered).symm
      rw [read, Except.ok.injEq] at read'
      rw [← read', cut] at cut'
      have short : own.name.length ≤ 15 := by
        have lengths := congrArg List.length cut'
        rw [List.length_take] at lengths
        omega
      exact ⟨decodable, fun _ => short, fun _ => Nat.le_succ_of_le short⟩
    · intro harmless
      refine ⟨_, rfl, iff_of_true rfl ⟨question, .inl same⟩, fun answer direct => ?_⟩
      obtain rfl := Sent.nbnsa.inj (Option.some.inj direct)
      refine ⟨text, read, cut.trans (List.take_of_length_le ?_)⟩
      exact (harmless question).2.1 same
  · rw [if_neg same]
    by_cases everyone : asked data = star
    · rw [if_pos everyone]
      by_cases fits : own.name.length ≤ 16
      · rw [if_pos fits]
        refine iff_of_true ⟨_, rfl, iff_of_true rfl ⟨question, .inr everyone⟩, fun answer no => ?_⟩
          fun _ => ⟨decodable, fun yes => absurd yes same, fun _ => fits⟩
        cases no
      · rw [if_neg fits]
        refine iff_of_false ?_ fun harmless => fits ((harmless question).2.2 everyone)
        rintro ⟨sent, fault, -⟩
        cases fault
    · rw [if_neg everyone]
      refine iff_of_true ⟨none, rfl, ?_, fun answer no => absurd no.symm (Option.some_ne_none _)⟩
        fun _ => ⟨decodable, fun yes => absurd yes same, fun yes => absurd yes everyone⟩
      exact iff_of_false Bool.false_ne_true fun right => right.2.elim same everyone

/-- **The name service.** A chain is served inside of the buffers and arrays, with an answer for
exactly the questions for the own name and for everyone and an encoded name that is decoded to the
own name, if all its buffers are harmless, and only then. -/
theorem names_served (chain : List (List UInt8)) :
    (∃ sent, own.recv localIP chain = .ok sent ∧ List.Forall₂ (Served own) chain sent) ↔
      ∀ data ∈ chain, Harmless own data := by
  induction chain with
  | nil => exact iff_of_true ⟨[], rfl, .nil⟩ fun _ no => absurd no List.not_mem_nil
  | cons data pb ih =>
    rw [List.forall_mem_cons, ← answer_served_iff own localIP data, ← ih]
    constructor
    · rintro ⟨sent, received, all⟩
      obtain ⟨s, rest, first, others, rfl⟩ := List.forall₂_cons_left_iff.mp all
      rw [ESP8266NetBIOS.recv] at received
      cases answered : own.answer localIP data with
      | error fault =>
        rw [answered] at received
        cases received
      | ok s' =>
        rw [answered] at received
        cases further : own.recv localIP pb with
        | error fault =>
          change (own.recv localIP pb >>= _) = _ at received
          rw [further] at received
          cases received
        | ok rest' =>
          change (own.recv localIP pb >>= _) = _ at received
          rw [further] at received
          obtain ⟨rfl, rfl⟩ := List.cons.inj (Except.ok.inj received)
          exact ⟨⟨_, rfl, first⟩, ⟨_, rfl, others⟩⟩
    · rintro ⟨⟨s, answered, first⟩, ⟨rest, further, others⟩⟩
      refine ⟨s :: rest, ?_, .cons first others⟩
      rw [ESP8266NetBIOS.recv, answered]
      change (own.recv localIP pb >>= _) = _
      rw [further]
      rfl

end

/-- A question that announces 34 letters, with 34 letters in its name. -/
theorem names_served_long :
    ¬ ∀ (own : ESP8266NetBIOS) (localIP : List UInt8) (chain : List (List UInt8)),
      ∃ sent, own.recv localIP chain = .ok sent ∧ List.Forall₂ (Served own) chain sent := by
  intro all
  let data : List UInt8 := List.replicate 12 0 ++ [34] ++ List.replicate 37 0x42
  have harmless := (names_served ⟨[0x45], by decide, by decide⟩ [] [data]).mp (all _ _ _) data
    List.mem_cons_self ⟨by decide, by decide⟩
  exact absurd harmless.1 (by decide)

end Esp8266.Source.NetBios
