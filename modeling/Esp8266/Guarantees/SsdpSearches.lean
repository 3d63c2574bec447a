import Esp8266.Guarantees.SsdpReader

/-!
# SSDP searches

A request is a request line for `*`, header lines and an empty line; it is a search for the device
if an ST header names `ssdp:all`, the type of the device or its identifier. A reply is pending
exactly for the searches as long as a search has no other header that is taken for an ST header,
and as long as nothing else is read as a search.
-/
set_option autoImplicit false

namespace Esp8266.Source.Ssdp
open Esp8266.Source.WString

/-- `\r\n` -/
def crlf : WString := [0x0d, 0x0a]

/-- A header line `Name: value`. -/
structure HeaderLine where
  name : WString
  value : WString
  named : name ≠ []
  token : ∀ c ∈ name, c ≠ 0x3a ∧ c ≠ 0x20 ∧ ¬ IsEnd c
  onLine : ∀ c ∈ value, ¬ IsEnd c

def HeaderLine.text (h : HeaderLine) : WString := h.name ++ ofString ": " ++ h.value ++ crlf

/-- A request `M-SEARCH * <protocol>` with its header lines. -/
structure Request where
  protocol : WString
  headers : List HeaderLine
  onLine : ∀ c ∈ protocol, ¬ IsEnd c

def Request.datagram (r : Request) : WString :=
  ofString "M-SEARCH * " ++ r.protocol ++ crlf ++ r.headers.flatMap HeaderLine.text ++ crlf

/-- `ssdp:all`, or the type or the identifier of the device in upper or lower case. -/
def SearchesFor (own : SSDPClass) (value : WString) : Prop :=
  value = ofString "ssdp:all" ∨ value.map toLower = own.deviceType.map toLower ∨
    value.map toLower = own.uuid.map toLower

/-- An ST header asks for the device. -/
def Request.AsksFor (own : SSDPClass) (r : Request) : Prop :=
  ∃ h ∈ r.headers, h.name = ofString "ST" ∧ SearchesFor own h.value

def IsSearch (own : SSDPClass) (datagram : WString) : Prop :=
  ∃ r : Request, r.datagram = datagram ∧ r.AsksFor own

/-- The part of a value that is stored asks for the device. -/
def Fits (own : SSDPClass) (value : WString) : Prop :=
  Known own (cstr (value.take (bufferSize - 1))) ∨
    cstr (value.take (bufferSize - 1)) = ofString "ssdp:all"

instance (own : SSDPClass) (value : WString) : Decidable (Fits own value) :=
  inferInstanceAs (Decidable (_ ∨ _))

/-- The line is taken for an ST header, by its name or by the beginning of its value. -/
def HeaderLine.TakenForSt (h : HeaderLine) : Prop :=
  role (h.name.take (bufferSize - 1)) h.value = .st

instance (h : HeaderLine) : Decidable h.TakenForSt := inferInstanceAs (Decidable (_ = _))

/-! ## How anything is read -/

/-- A line as it is read: everything up to a blank, and then everything up to two ends of lines.
The name is what the buffer holds at the blank. -/
structure ReadLine where
  key : WString
  name : WString
  value : WString

/-- The lines that are read, and the beginning of one that is left. -/
def readLines (stale body : WString) : List ReadLine × WString :=
  let key := body.takeWhile (· ≠ 0x20)
  let name := shown stale (keyText key)
  match read : line false (body.drop (key.length + 1)) with
  | none => ([], body)
  | some (value, rest) =>
    let more := readLines (shown name (value.take (bufferSize - 1))) rest
    (⟨key, name, value⟩ :: more.1, more.2)
termination_by body.length
decreasing_by
  have shorter := line_length read
  rw [List.length_drop] at shorter
  omega

def ReadLine.TakenForSt (l : ReadLine) : Prop := role l.name l.value = .st

/-- A line that is taken for an ST header fits, unless nothing is behind it; and a reply was pending
before, or there is an empty line in front of a blank, or an ST header with the type or the
identifier of the device. -/
def LinesAsk (own : SSDPClass) (pending : Bool) (read : List ReadLine × WString) : Prop :=
  (∀ l ∈ read.1.dropLast, l.TakenForSt → Fits own l.value) ∧
    (read.2 ≠ [] → ∀ l ∈ read.1, l.TakenForSt → Fits own l.value) ∧
    (pending = true ∨
      (∃ l ∈ read.1, emptyLine 2 l.key ∨
        l.TakenForSt ∧ Known own (cstr (l.value.take (bufferSize - 1)))) ∨
      emptyLine 2 (read.2.takeWhile (· ≠ 0x20)))

/-- The datagram is read as a search: the method is cut after nine characters and the URI after
one, and the first line ends wherever two ends of lines follow each other. -/
def ReadAsSearch (own : SSDPClass) (datagram : WString) : Prop :=
  let method := datagram.takeWhile (· ≠ 0x20)
  let behind := datagram.drop (method.length + 1)
  let uri := behind.takeWhile (· ≠ 0x20)
  cstr (method.take (methodSize - 1)) = ofString "M-SEARCH" ∧
    uri.take (uriSize - 1) = ofString "*" ∧
    ∃ protocol body, line false (behind.drop (uri.length + 1)) = some (protocol, body) ∧
      LinesAsk own false (readLines (ofString "*") body)

theorem readLines_none {stale body : WString}
    (read : line false (body.drop ((body.takeWhile (· ≠ 0x20)).length + 1)) = none) :
    readLines stale body = ([], body) := by
  rw [readLines]
  split
  · rfl
  · rename_i found
    rw [read] at found
    cases found

theorem readLines_some {stale body value rest : WString}
    (read : line false (body.drop ((body.takeWhile (· ≠ 0x20)).length + 1)) = some (value, rest)) :
    readLines stale body =
      let name := shown stale (keyText (body.takeWhile (· ≠ 0x20)))
      let more := readLines (shown name (value.take (bufferSize - 1))) rest
      (⟨body.takeWhile (· ≠ 0x20), name, value⟩ :: more.1, more.2) := by
  rw [readLines]
  split
  · rename_i found
    rw [read] at found
    cases found
  · rename_i found
    rw [read] at found
    cases found
    rfl

/-- Nothing is read of nothing only. -/
theorem readLines_eq_nil (stale body : WString) : readLines stale body = ([], []) ↔ body = [] := by
  constructor
  · intro nothing
    cases read : line false (body.drop ((body.takeWhile (· ≠ 0x20)).length + 1)) with
    | none =>
      rw [readLines_none read] at nothing
      exact congrArg Prod.snd nothing
    | some found =>
      rw [readLines_some read] at nothing
      exact absurd (congrArg Prod.fst nothing) (List.cons_ne_nil _ _)
  · rintro rfl
    exact readLines_none rfl

/-- A line that does not end the reading. -/
theorem linesAsk_cons {own : SSDPClass} {pending before : Bool} {l : ReadLine}
    (fits : l.TakenForSt → Fits own l.value)
    (told : before = true ↔ pending = true ∨ emptyLine 2 l.key ∨
      l.TakenForSt ∧ Known own (cstr (l.value.take (bufferSize - 1))))
    (lines : List ReadLine) (left : WString) :
    LinesAsk own pending (l :: lines, left) ↔ LinesAsk own before (lines, left) := by
  have dropLast : (∀ x ∈ (l :: lines).dropLast, x.TakenForSt → Fits own x.value) ↔
      ∀ x ∈ lines.dropLast, x.TakenForSt → Fits own x.value := by
    cases lines with
    | nil => exact Iff.rfl
    | cons next lines =>
      rw [List.dropLast_cons_cons, List.forall_mem_cons]
      exact ⟨fun both => both.2, fun rest => ⟨fits, rest⟩⟩
  rw [LinesAsk, LinesAsk, dropLast, told, List.forall_mem_cons, List.exists_mem_cons_iff]
  dsimp only
  constructor
  · rintro ⟨drop, all, asks⟩
    refine ⟨drop, fun some => (all some).2, ?_⟩
    rcases asks with before | (here | there) | last
    · exact .inl (.inl before)
    · exact .inl (.inr here)
    · exact .inr (.inl there)
    · exact .inr (.inr last)
  · rintro ⟨drop, all, asks⟩
    refine ⟨drop, fun some => ⟨fits, all some⟩, ?_⟩
    rcases asks with (before | here) | there | last
    · exact .inl before
    · exact .inr (.inl (.inl here))
    · exact .inr (.inl (.inr there))
    · exact .inr (.inr last)

/-- A line that ends the reading. -/
theorem linesAsk_refused {own : SSDPClass} {pending : Bool} {l : ReadLine} (taken : l.TakenForSt)
    (fails : ¬ Fits own l.value) (lines : List ReadLine) (left : WString) :
    LinesAsk own pending (l :: lines, left) ↔
      (lines, left) = ([], []) ∧ (pending = true ∨ emptyLine 2 l.key) := by
  constructor
  · rintro ⟨drop, all, asks⟩
    have nothing : left = [] := by
      by_contra some
      exact fails (all some l List.mem_cons_self taken)
    cases lines with
    | nil =>
      subst nothing
      refine ⟨rfl, ?_⟩
      rcases asks with before | ⟨x, mem, empty | known⟩ | last
      · exact .inl before
      · rw [List.mem_singleton.mp mem] at empty
        exact .inr empty
      · rw [List.mem_singleton.mp mem] at known
        exact absurd (.inl known.2) fails
      · cases last
    | cons next lines =>
      rw [List.dropLast_cons_cons] at drop
      exact absurd (drop l List.mem_cons_self taken) fails
  · rintro ⟨nothing, asks⟩
    cases nothing
    refine ⟨fun x mem => (List.not_mem_nil mem).elim, fun some => absurd rfl some, ?_⟩
    rcases asks with before | empty
    · exact .inl before
    · exact .inr (.inl ⟨l, List.mem_cons_self, .inl empty⟩)

/-- The lines ask for the device where the loop replies to them. -/
theorem repliesToLines_iff (own : SSDPClass) (stale : WString) (pending : Bool) (body : WString) :
    repliesToLines own stale pending body = true ↔
      LinesAsk own pending (readLines stale body) := by
  induction length : body.length using Nat.strong_induction_on
    generalizing stale pending body with
  | _ n ih =>
    cases read : line false (body.drop ((body.takeWhile (· ≠ 0x20)).length + 1)) with
    | none =>
      rw [repliesToLines_none read, readLines_none read, Bool.or_eq_true, LinesAsk]
      simp
    | some found =>
      obtain ⟨value, rest⟩ := found
      have fewer : rest.length < n := by
        have shorter := line_length read
        rw [List.length_drop] at shorter
        omega
      rw [repliesToLines_some read, readLines_some read]
      dsimp only
      generalize shown stale (keyText (body.takeWhile (· ≠ 0x20))) = name
      generalize body.takeWhile (· ≠ 0x20) = key
      by_cases taken : role name value = .st
      · have stored := shown_st name taken
        rw [if_pos taken, stored]
        by_cases known : Known own (cstr (value.take (bufferSize - 1)))
        · rw [if_pos known, ih rest.length fewer _ true rest rfl]
          refine (linesAsk_cons (fun _ => .inl known) ?_ _ _).symm
          exact iff_of_true rfl (.inr (.inr ⟨taken, known⟩))
        · rw [if_neg known]
          by_cases all : cstr (value.take (bufferSize - 1)) = ofString "ssdp:all"
          · rw [if_pos all, ih rest.length fewer _ _ rest rfl]
            refine (linesAsk_cons (fun _ => .inr all) ?_ _ _).symm
            rw [Bool.or_eq_true]
            exact or_congr_right ⟨.inl, fun same => same.elim id fun both => absurd both.2 known⟩
          · rw [if_neg all, linesAsk_refused (l := ⟨key, name, value⟩) taken
              (not_or.mpr ⟨known, all⟩), Bool.and_eq_true, Bool.or_eq_true, List.isEmpty_iff]
            exact and_congr_left' (readLines_eq_nil _ rest).symm
      · rw [if_neg taken, ih rest.length fewer _ _ rest rfl]
        refine (linesAsk_cons (l := ⟨key, name, value⟩) (fun same => absurd same taken)
          ?_ _ _).symm
        rw [Bool.or_eq_true]
        exact or_congr_right ⟨.inl, fun same => same.elim id fun both => absurd both.1 taken⟩

theorem repliesTo_iff (own : SSDPClass) (datagram : WString) :
    repliesTo own datagram = true ↔ ReadAsSearch own datagram := by
  rw [repliesTo, repliesToRequest, ReadAsSearch, Bool.and_eq_true, Bool.and_eq_true,
    decide_eq_true_eq, decide_eq_true_eq, Option.any_eq_true]
  refine and_congr_right fun _ => and_congr_right fun _ => ?_
  constructor
  · rintro ⟨⟨protocol, body⟩, read, replies⟩
    exact ⟨protocol, body, read, (repliesToLines_iff _ _ _ _).mp replies⟩
  · rintro ⟨protocol, body, read, asks⟩
    exact ⟨⟨protocol, body⟩, read, (repliesToLines_iff _ _ _ _).mpr asks⟩

/-! ## How a request is read -/

theorem line_text {text : WString} (onLine : ∀ c ∈ text, ¬ IsEnd c) (rest : WString) :
    line false (text ++ crlf ++ rest) = some (text, rest) := by
  induction text with
  | nil => rfl
  | cons c text ih =>
    rw [List.cons_append, List.cons_append, line, if_neg (onLine c List.mem_cons_self),
      ih fun c mem => onLine c (List.mem_cons_of_mem _ mem)]
    rfl

theorem emptyLine_plain {text : WString} (plain : ∀ c ∈ text, ¬ IsEnd c) (ends : Nat) :
    emptyLine ends text = false := by
  induction text generalizing ends with
  | nil => rfl
  | cons c text ih =>
    rw [emptyLine, if_neg (plain c List.mem_cons_self)]
    exact ih (fun c mem => plain c (List.mem_cons_of_mem _ mem)) 0

theorem word_append {word : WString} (plain : 0x20 ∉ word) (rest : WString) :
    (word ++ 0x20 :: rest).takeWhile (· ≠ 0x20) = word := by
  rw [List.takeWhile_append_of_pos fun c mem => by
    rw [decide_eq_true_eq]
    rintro rfl
    exact plain mem]
  exact List.append_nil word

theorem behind_append (word rest : WString) :
    (word ++ 0x20 :: rest).drop (word.length + 1) = rest := by
  rw [List.drop_length_add_append]
  rfl

/-- One header line. -/
theorem repliesToLines_header (own : SSDPClass) (stale : WString) (pending : Bool) (h : HeaderLine)
    (rest : WString) (more : rest ≠ []) :
    repliesToLines own stale pending (h.text ++ rest) =
      if h.TakenForSt then
        if Known own (cstr (h.value.take (bufferSize - 1))) then
          repliesToLines own (h.value.take (bufferSize - 1)) true rest
        else if cstr (h.value.take (bufferSize - 1)) = ofString "ssdp:all" then
          repliesToLines own (h.value.take (bufferSize - 1)) pending rest
        else false
      else
        repliesToLines own
          (shown (h.name.take (bufferSize - 1)) (h.value.take (bufferSize - 1))) pending rest := by
  have split : h.text ++ rest =
      (h.name ++ [0x3a]) ++ 0x20 :: (h.value ++ crlf ++ rest) := by
    rw [HeaderLine.text, show ofString ": " = [0x3a, 0x20] from rfl]
    simp only [List.append_assoc, List.cons_append, List.nil_append]
  have blank : 0x20 ∉ h.name ++ [0x3a] := by
    rw [List.mem_append, not_or]
    exact ⟨fun mem => (h.token _ mem).2.1 rfl, by decide⟩
  have word := word_append blank (h.value ++ crlf ++ rest)
  have behind : (h.text ++ rest).drop
      (((h.text ++ rest).takeWhile (· ≠ 0x20)).length + 1) = h.value ++ crlf ++ rest := by
    rw [split, word, behind_append]
  have key : shown stale (keyText (h.name ++ [0x3a])) = h.name.take (bufferSize - 1) := by
    have kept : keyText (h.name ++ [0x3a]) = h.name.take (bufferSize - 1) := by
      rw [keyText, List.filter_append, List.filter_eq_self.mpr fun c mem => ?_]
      · exact congrArg (List.take _) (List.append_nil h.name)
      · obtain ⟨colon, -, plain⟩ := h.token c mem
        exact decide_eq_true ⟨fun cr => plain (.inl cr), fun lf => plain (.inr lf), colon⟩
    have something : h.name.take (bufferSize - 1) ≠ [] := by
      rw [Ne, List.take_eq_nil_iff, not_or]
      exact ⟨by decide, h.named⟩
    rw [kept, shown, if_neg something]
  have full : emptyLine 2 (h.name ++ [0x3a]) = false := by
    refine emptyLine_plain (fun c mem => ?_) 2
    rcases List.mem_append.mp mem with mem | mem
    · exact (h.token c mem).2.2
    · rw [List.mem_singleton.mp mem]
      decide
  have nonempty : rest.isEmpty = false := by
    cases rest with
    | nil => exact absurd rfl more
    | cons c rest => rfl
  rw [repliesToLines_some (by rw [behind]; exact line_text h.onLine rest), split, word, key, full,
    nonempty, Bool.or_false, Bool.false_and]
  rfl

/-- All header lines, and the empty line behind them. -/
theorem repliesToLines_headers (own : SSDPClass) (stale : WString) (pending : Bool)
    (headers : List HeaderLine) :
    repliesToLines own stale pending (headers.flatMap HeaderLine.text ++ crlf) =
      decide (∀ h ∈ headers, h.TakenForSt → Fits own h.value) := by
  induction headers generalizing stale pending with
  | nil =>
    rw [repliesToLines_none rfl]
    exact Bool.or_true pending
  | cons h headers ih =>
    have more : headers.flatMap HeaderLine.text ++ crlf ≠ [] := by
      intro nothing
      exact absurd (List.append_eq_nil_iff.mp nothing).2 (by decide)
    rw [List.flatMap_cons, List.append_assoc, repliesToLines_header own stale pending h _ more,
      ih, ih, ih]
    by_cases taken : h.TakenForSt
    · rw [if_pos taken]
      by_cases known : Known own (cstr (h.value.take (bufferSize - 1)))
      · have fits : Fits own h.value := .inl known
        rw [if_pos known]
        simp only [List.forall_mem_cons, taken, fits, true_implies, true_and]
      · by_cases all : cstr (h.value.take (bufferSize - 1)) = ofString "ssdp:all"
        · have fits : Fits own h.value := .inr all
          rw [if_neg known, if_pos all]
          simp only [List.forall_mem_cons, taken, fits, true_implies, true_and]
        · have fails : ¬ Fits own h.value := not_or.mpr ⟨known, all⟩
          rw [if_neg known, if_neg all]
          exact (decide_eq_false fun every => fails (every h List.mem_cons_self taken)).symm
    · rw [if_neg taken]
      simp only [List.forall_mem_cons, taken, false_implies, true_and]

/-- A request is answered if everything in it that is taken for an ST header fits. -/
theorem repliesTo_request (own : SSDPClass) (r : Request) :
    repliesTo own r.datagram = decide (∀ h ∈ r.headers, h.TakenForSt → Fits own h.value) := by
  have split : r.datagram = ofString "M-SEARCH" ++ 0x20 :: (ofString "*" ++ 0x20 ::
      (r.protocol ++ crlf ++ (r.headers.flatMap HeaderLine.text ++ crlf))) := by
    rw [Request.datagram]
    simp only [List.append_assoc]
    rfl
  have line := line_text r.onLine (r.headers.flatMap HeaderLine.text ++ crlf)
  rw [repliesTo, split, word_append (by decide), behind_append, repliesToRequest,
    word_append (by decide), behind_append, line, Option.any_some, repliesToLines_headers,
    decide_eq_true (by decide), decide_eq_true (by decide), Bool.true_and, Bool.true_and]

/-- The cursor stays inside of the buffer. A reply is pending exactly for the searches if and only
if what a search has that is taken for an ST header fits, and nothing else is read as a search. -/
theorem searches_answered (own : SSDPClass) (millis : UInt32) (random : Int → Int → Int)
    (stIsUuid : Bool) (delay : UInt16) (processTime : UInt32) (datagram : WString) :
    (∃ p, update own millis random (Parser.begin stIsUuid delay processTime) datagram = .ok p ∧
        p.cursor < bufferSize ∧ (p.pending = true ↔ IsSearch own datagram)) ↔
      (∀ r : Request, r.datagram = datagram → r.AsksFor own →
          ∀ h ∈ r.headers, h.TakenForSt → Fits own h.value) ∧
        (ReadAsSearch own datagram → IsSearch own datagram) := by
  obtain ⟨p, run, inside, pending⟩ :=
    update_pending own millis random stIsUuid delay processTime datagram
  have read : ∀ r : Request, r.datagram = datagram →
      (repliesTo own datagram = true ↔ ∀ h ∈ r.headers, h.TakenForSt → Fits own h.value) := by
    rintro r rfl
    rw [repliesTo_request, decide_eq_true_eq]
  constructor
  · rintro ⟨q, same, -, pends⟩
    rw [run] at same
    cases same
    rw [pending] at pends
    refine ⟨fun r written asks => ?_, fun readSo => ?_⟩
    · exact (read r written).mp (pends.mpr ⟨r, written, asks⟩)
    · exact pends.mp ((repliesTo_iff own datagram).mpr readSo)
  · rintro ⟨fits, searches⟩
    refine ⟨p, run, inside, ?_⟩
    rw [pending]
    constructor
    · intro replies
      exact searches ((repliesTo_iff own datagram).mp replies)
    · rintro ⟨r, written, asks⟩
      exact (read r written).mpr (fits r written asks)

/-- A device with the type that is preset. -/
def basicDevice : SSDPClass where
  deviceType := ofString "urn:schemas-upnp-org:device:Basic:1"
  uuid := ofString "uuid:38323636-4558-4dda-9188-cda0e6a1b2c3"
  typeFits := by decide
  uuidFits := by decide
  typePlain := by decide
  uuidPlain := by decide

/-- A request for the device is not short. -/
theorem length_of_search {datagram : WString} (search : IsSearch basicDevice datagram) :
    29 ≤ datagram.length := by
  obtain ⟨r, rfl, h, mem, st, asks⟩ := search
  have value : 8 ≤ h.value.length := by
    rcases asks with all | type | uuid
    · rw [all]
      decide
    · have same := congrArg List.length type
      rw [List.length_map, List.length_map] at same
      rw [same]
      decide
    · have same := congrArg List.length uuid
      rw [List.length_map, List.length_map] at same
      rw [same]
      decide
  obtain ⟨before, behind, headers⟩ := List.append_of_mem mem
  have method : (ofString "M-SEARCH * ").length = 11 := rfl
  have name : (ofString "ST").length = 2 := rfl
  have colon : (ofString ": ").length = 2 := rfl
  have ends : crlf.length = 2 := rfl
  rw [Request.datagram, headers, List.flatMap_append, List.flatMap_cons, HeaderLine.text, st]
  simp only [List.length_append, method, name, colon, ends]
  omega

/-- A request without any header line is answered. -/
theorem searches_answered_empty :
    ¬ ∃ p, update basicDevice 0 (fun low _ => low) (Parser.begin false 0 0)
        (ofString "M-SEARCH * HTTP/1.1\r\n\r\n") = .ok p ∧
      p.cursor < bufferSize ∧
      (p.pending = true ↔ IsSearch basicDevice (ofString "M-SEARCH * HTTP/1.1\r\n\r\n")) := by
  rintro ⟨q, same, -, pends⟩
  let empty : Request := ⟨ofString "HTTP/1.1", [], by decide +kernel⟩
  have written : empty.datagram = ofString "M-SEARCH * HTTP/1.1\r\n\r\n" := rfl
  obtain ⟨p, run, -, pending⟩ :=
    update_pending basicDevice 0 (fun low _ => low) false 0 0 empty.datagram
  rw [written, same] at run
  cases run
  rw [repliesTo_request, decide_eq_true fun h mem => (List.not_mem_nil mem).elim] at pending
  exact absurd (length_of_search (pends.mp pending)) (by decide)

end Esp8266.Source.Ssdp
