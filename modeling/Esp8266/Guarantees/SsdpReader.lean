import Esp8266.Source.Ssdp

/-!
# SSDP datagrams, as the loop reads them

The loop of `SSDPClass::_update` never stores outside of its buffer. Whether a reply is pending
after it depends on the datagram alone: the loop takes its first line and its header lines apart
in the way that `repliesTo` states.
-/
set_option autoImplicit false

namespace Esp8266.Source.Ssdp
open Esp8266.Source.WString

/-- What the buffer holds in front of its first zero. -/
def shown (stale fresh : WString) : WString := if fresh = [] then stale else fresh

theorem shown_nil (fresh : WString) : shown [] fresh = fresh := by
  rw [shown]
  split
  · rename_i nothing
    exact nothing.symm
  · rfl

/-- What a reply depends on: `fresh` was stored since the cursor was last at the front of the
buffer, `stale` was in the buffer then. -/
structure View where
  search : Bool
  state : State
  header : Header
  cr : UInt8
  pending : Bool
  stale : WString
  fresh : WString

/-- The text is the type or the identifier of the device. -/
def Known (own : SSDPClass) (text : WString) : Prop :=
  Parser.strcasecmp text own.deviceType ∨ Parser.strcasecmp text own.uuid

instance (own : SSDPClass) (text : WString) : Decidable (Known own text) :=
  inferInstanceAs (Decidable (_ ∨ _))

namespace View

/-- What `begin` leaves. -/
def initial : View where
  search := false
  state := .method
  header := .start
  cr := 0
  pending := false
  stale := []
  fresh := []

def text (v : View) : WString := cstr (shown v.stale v.fresh)

def put (limit : Nat) (c : UInt8) (v : View) : View :=
  if v.fresh.length < limit then { v with fresh := v.fresh ++ [c] } else v

/-- The cursor goes back to the front of the buffer. -/
def front (v : View) : View := { v with stale := shown v.stale v.fresh, fresh := [] }

def endValue (own : SSDPClass) (v : View) : View :=
  if v.header = .st then
    if Known own v.text then { v.front with pending := true, state := .key, header := .start }
    else if v.text = ofString "ssdp:all" then { v.front with state := .key, header := .start }
    else { v with state := .abort }
  else { v.front with state := .key, header := .start }

/-- The state is entered for a character, whose end-of-line count is there already. -/
def act (own : SSDPClass) (c : UInt8) (v : View) : View :=
  match v.state with
  | .method =>
    if c = 0x20 then
      let search := v.search || decide (v.text = ofString "M-SEARCH")
      { v.front with search, state := if search then .uri else .abort }
    else v.put (methodSize - 1) c
  | .uri =>
    if c = 0x20 then { v.front with state := if v.text = ofString "*" then .proto else .abort }
    else v.put (uriSize - 1) c
  | .proto => if v.cr = 2 then { v.front with state := .key } else v
  | .key =>
    if v.cr = 4 then { v with pending := true }
    else if c = 0x20 then { v.front with state := .value }
    else if c ≠ 0x0d ∧ c ≠ 0x0a ∧ c ≠ 0x3a then v.put (bufferSize - 1) c
    else v
  | .value =>
    if v.cr = 2 then v.endValue own
    else if c ≠ 0x0d ∧ c ≠ 0x0a then
      let header := if v.header = .start then Parser.headerOf v.text else v.header
      { v with header }.put (bufferSize - 1) c
    else v
  | .abort => { v with pending := false }

def next (own : SSDPClass) (v : View) (c : UInt8) : View :=
  let v := { v with cr := if IsEnd c then v.cr + 1 else 0 }
  v.act own c

end View

/-! ## The view follows the loop -/

/-- A character and the zero behind it, stored behind `fresh`. -/
theorem stored (fresh behind : WString) (c : UInt8) (room : 1 < behind.length) :
    ∃ t, ((fresh ++ behind).set fresh.length c).set (fresh.length + 1) 0 =
      fresh ++ [c] ++ 0 :: t := by
  cases behind with
  | nil => exact absurd room (by decide)
  | cons first behind =>
    cases behind with
    | nil => exact absurd room (by simp)
    | cons second behind => exact ⟨behind, by simp⟩

structure Sees (p : Parser) (v : View) : Prop where
  search : p.search = v.search
  state : p.state = v.state
  header : p.header = v.header
  cr : p.cr = v.cr
  pending : p.pending = v.pending
  cursor : p.cursor = v.fresh.length
  short : v.fresh.length < bufferSize
  buffer : ∃ t, p.buffer.1 = shown v.stale v.fresh ++ 0 :: t

namespace Sees
variable {p : Parser} {v : View}

theorem text (sees : Sees p v) : p.text = v.text := by
  obtain ⟨t, buffer⟩ := sees.buffer
  rw [Parser.text, buffer, cstr_append_zero]
  rfl

/-- A character is stored in front of the last place of the buffer. -/
theorem put (sees : Sees p v) {limit : Nat} (limited : limit < bufferSize) (c : UInt8) :
    ∃ p', (if p.cursor < limit then p.put c else .ok p) = .ok p' ∧ Sees p' (v.put limit c) := by
  rw [View.put, sees.cursor]
  by_cases room : v.fresh.length < limit
  · obtain ⟨behind, split⟩ : ∃ behind, p.buffer.1 = v.fresh ++ behind := by
      obtain ⟨t, buffer⟩ := sees.buffer
      rw [buffer, shown]
      split
      · rename_i nothing
        rw [nothing]
        exact ⟨_, rfl⟩
      · exact ⟨_, rfl⟩
    have size : v.fresh.length + behind.length = bufferSize := by
      rw [← List.length_append, ← split]
      exact p.buffer.2
    have inside : p.cursor + 1 < bufferSize := by
      rw [sees.cursor]
      omega
    obtain ⟨t, buffer⟩ := stored v.fresh behind c (by rw [sees.cursor] at inside; omega)
    rw [if_pos room, if_pos room, Parser.put, if_pos inside]
    refine ⟨_, rfl, sees.search, sees.state, sees.header, sees.cr, sees.pending, ?_, ?_, t, ?_⟩
    · rw [List.length_append, ← sees.cursor]
      rfl
    · rw [List.length_append, ← sees.cursor]
      exact inside
    · rw [shown, if_neg (by simp), ← buffer, ← split, ← sees.cursor]
  · rw [if_neg room, if_neg room]
    exact ⟨p, rfl, sees⟩

theorem refused (sees : Sees p v) :
    Sees (if p.text ≠ ofString "ssdp:all" then { p with state := .abort }
        else { p with stIsUuid := false })
      { v with state := if p.text = ofString "ssdp:all" then v.state else .abort } := by
  obtain ⟨search, state, header, cr, pending, cursor, short, buffer⟩ := sees
  by_cases all : p.text = ofString "ssdp:all"
  · rw [if_neg (not_not_intro all), if_pos all]
    exact ⟨search, state, header, cr, pending, cursor, short, buffer⟩
  · rw [if_pos all, if_neg all]
    exact ⟨search, rfl, header, cr, pending, cursor, short, buffer⟩

theorem taken (sees : Sees p v) (same stIsUuid : Bool) (processTime : UInt32) :
    Sees (if same then { p with pending := true, stIsUuid, processTime, state := .key } else p)
      (if same then { v with pending := true, state := .key } else v) := by
  obtain ⟨search, state, header, cr, pending, cursor, short, buffer⟩ := sees
  cases same with
  | false => exact ⟨search, state, header, cr, pending, cursor, short, buffer⟩
  | true => exact ⟨search, rfl, header, cr, rfl, cursor, short, buffer⟩

/-- A value that is the type or the identifier of the device is taken, whatever the first
comparison said. -/
theorem compareSt (sees : Sees p v) (own : SSDPClass) (millis : UInt32) :
    Sees (p.compareSt own millis)
      (if Known own p.text then { v with pending := true, state := .key }
        else { v with state := if p.text = ofString "ssdp:all" then v.state else .abort }) := by
  have first := sees.refused
  have text₁ : (if p.text ≠ ofString "ssdp:all" then { p with state := .abort }
      else { p with stIsUuid := false } : Parser).text = p.text := by
    split <;> rfl
  rw [Parser.compareSt]
  generalize (if p.text ≠ ofString "ssdp:all" then { p with state := .abort }
        else { p with stIsUuid := false } : Parser) = q at first text₁ ⊢
  have second := first.taken (Parser.strcasecmp p.text own.deviceType) false millis
  rw [text₁]
  have text₂ : (if Parser.strcasecmp p.text own.deviceType then
      { q with pending := true, stIsUuid := false, processTime := millis, state := .key }
      else q).text = p.text := by
    split
    · exact text₁
    · exact text₁
  generalize (if Parser.strcasecmp p.text own.deviceType then
      { q with pending := true, stIsUuid := false, processTime := millis, state := .key }
    else q) = r at second text₂ ⊢
  rw [text₂]
  by_cases type : Parser.strcasecmp p.text own.deviceType
  · rw [if_pos type] at second
    have third := second.taken (Parser.strcasecmp p.text own.uuid) true millis
    rw [ite_self] at third
    rw [if_pos (show Known own p.text from .inl type)]
    exact third
  · rw [if_neg type] at second
    have third := second.taken (Parser.strcasecmp p.text own.uuid) true millis
    by_cases uuid : Parser.strcasecmp p.text own.uuid
    · rw [if_pos uuid, if_pos uuid] at third
      rw [if_pos uuid, if_pos (show Known own p.text from .inr uuid)]
      exact third
    · rw [if_neg uuid, if_neg uuid] at third
      rw [if_neg uuid, if_neg (show ¬ Known own p.text from not_or.mpr ⟨type, uuid⟩)]
      exact third

theorem keyed (sees : Sees p v) :
    Sees { p with state := .key, header := .start, cursor := 0 }
      { v.front with state := .key, header := .start } := by
  obtain ⟨search, -, -, cr, pending, -, -, buffer⟩ := sees
  exact ⟨search, rfl, rfl, cr, pending, rfl, Nat.zero_lt_succ 63, buffer⟩

/-- The end of a header line. -/
theorem endValue (sees : Sees p v) (own : SSDPClass) (millis : UInt32) (random : Int → Int → Int)
    (value : p.state = .value) : Sees (p.endValue own millis random) (v.endValue own) := by
  have going : p.state ≠ .abort := by
    rw [value]
    decide
  by_cases st : p.header = .st
  · have compared := sees.compareSt own millis
    rw [View.endValue, if_pos (sees.header.symm.trans st), ← sees.text, Parser.endValue, st]
    dsimp only
    generalize p.compareSt own millis = q at compared ⊢
    by_cases known : Known own p.text
    · rw [if_pos known] at compared ⊢
      rw [if_pos (by rw [compared.state]; intro no; cases no)]
      exact compared.keyed
    · rw [if_neg known] at compared ⊢
      by_cases all : p.text = ofString "ssdp:all"
      · rw [if_pos all] at compared ⊢
        rw [if_pos (by rw [compared.state, ← sees.state, value]; decide)]
        exact compared.keyed
      · rw [if_neg all] at compared ⊢
        rw [if_neg (not_not_intro compared.state)]
        exact compared
  · rw [View.endValue, ← sees.header, if_neg st]
    obtain ⟨search, -, -, cr, pending, -, -, buffer⟩ := sees
    have closed : ∀ q : Parser, q.state = p.state → q.search = p.search → q.cr = p.cr →
        q.pending = p.pending → q.buffer = p.buffer →
        Sees (if q.state ≠ .abort then { q with state := .key, header := .start, cursor := 0 }
          else q) { v.front with state := .key, header := .start } := by
      intro q sameState sameSearch sameCr samePending sameBuffer
      rw [sameState, if_pos going]
      exact ⟨sameSearch.trans search, rfl, rfl, sameCr.trans cr, samePending.trans pending, rfl,
        Nat.zero_lt_succ 63, by rw [sameBuffer]; exact buffer⟩
    rw [Parser.endValue]
    apply closed <;> split <;> first | rfl | contradiction

theorem step (sees : Sees p v) (own : SSDPClass) (millis : UInt32) (random : Int → Int → Int)
    (c : UInt8) : ∃ p', p.step own millis random c = .ok p' ∧ Sees p' (v.next own c) := by
  have counted : Sees { p with cr := if IsEnd c then p.cr + 1 else 0 }
      { v with cr := if IsEnd c then v.cr + 1 else 0 } :=
    ⟨sees.search, sees.state, sees.header, by rw [sees.cr], sees.pending, sees.cursor, sees.short,
      sees.buffer⟩
  rw [Parser.step, View.next]
  generalize ({ p with cr := if IsEnd c then p.cr + 1 else 0 } : Parser) = p at counted ⊢
  generalize ({ v with cr := if IsEnd c then v.cr + 1 else 0 } : View) = v at counted ⊢
  clear sees
  rw [View.act, ← counted.state, ← counted.text, ← counted.cr]
  cases state : p.state with
  | method =>
    dsimp only
    rw [Parser.stepMethod, ← counted.search]
    split
    · obtain ⟨-, -, header, cr, pending, -, -, buffer⟩ := counted
      exact ⟨_, rfl, rfl, rfl, header, cr, pending, rfl, Nat.zero_lt_succ 63, buffer⟩
    · exact counted.put (by decide) c
  | uri =>
    dsimp only
    rw [Parser.stepUri]
    split
    · obtain ⟨search, -, header, cr, pending, -, -, buffer⟩ := counted
      exact ⟨_, rfl, search, rfl, header, cr, pending, rfl, Nat.zero_lt_succ 63, buffer⟩
    · exact counted.put (by decide) c
  | proto =>
    dsimp only
    rw [Parser.stepProto]
    refine ⟨_, rfl, ?_⟩
    split
    · obtain ⟨search, -, header, cr, pending, -, -, buffer⟩ := counted
      exact ⟨search, rfl, header, cr, pending, rfl, Nat.zero_lt_succ 63, buffer⟩
    · exact counted
  | key =>
    dsimp only
    rw [Parser.stepKey]
    split
    · obtain ⟨search, -, header, cr, -, cursor, short, buffer⟩ := counted
      exact ⟨_, rfl, search, state, header, rfl, rfl, cursor, short, buffer⟩
    · split
      · obtain ⟨search, -, header, cr, pending, -, -, buffer⟩ := counted
        exact ⟨_, rfl, search, rfl, header, cr, pending, rfl, Nat.zero_lt_succ 63, buffer⟩
      · have stored := counted.put (by decide : bufferSize - 1 < bufferSize) c
        by_cases plain : c ≠ 0x0d ∧ c ≠ 0x0a ∧ c ≠ 0x3a
        · rw [if_pos plain]
          simpa only [plain, ne_eq, not_false_eq_true, true_and] using stored
        · rw [if_neg plain, if_neg fun all => plain ⟨all.1, all.2.1, all.2.2.1⟩]
          exact ⟨p, rfl, counted⟩
  | value =>
    dsimp only
    rw [Parser.stepValue]
    split
    · exact ⟨_, rfl, counted.endValue own millis random state⟩
    · split
      · have tagged : Sees
            (if p.header = .start then { p with header := Parser.headerOf p.text } else p)
            { v with
              state := .value
              header := if v.header = .start then Parser.headerOf p.text else v.header
              cr := p.cr } := by
          obtain ⟨search, -, header, -, pending, cursor, short, buffer⟩ := counted
          rw [← header]
          split
          · exact ⟨search, state, rfl, rfl, pending, cursor, short, buffer⟩
          · exact ⟨search, state, rfl, rfl, pending, cursor, short, buffer⟩
        exact tagged.put (Nat.lt_succ_self 63) c
      · exact ⟨p, rfl, counted⟩
  | abort =>
    dsimp only
    obtain ⟨search, -, header, cr, -, cursor, short, buffer⟩ := counted
    exact ⟨_, rfl, search, rfl, header, rfl, rfl, cursor, short, buffer⟩

end Sees

theorem sees_begin (stIsUuid : Bool) (delay : UInt16) (processTime : UInt32) :
    Sees (Parser.begin stIsUuid delay processTime) View.initial :=
  ⟨rfl, rfl, rfl, rfl, rfl, rfl, Nat.zero_lt_succ 63, _, rfl⟩

/-- The cursor stays inside of the buffer, and the view tells what a reply depends on. -/
theorem update_sees {p : Parser} {v : View} (sees : Sees p v) (own : SSDPClass) (millis : UInt32)
    (random : Int → Int → Int) (datagram : WString) :
    ∃ p', update own millis random p datagram = .ok p' ∧
      Sees p' (datagram.foldl (View.next own) v) := by
  induction datagram generalizing p v with
  | nil => exact ⟨p, rfl, sees⟩
  | cons c rest ih =>
    obtain ⟨p₁, step, sees₁⟩ := sees.step own millis random c
    obtain ⟨p₂, run, sees₂⟩ := ih sees₁
    refine ⟨p₂, ?_, sees₂⟩
    rw [update, List.foldlM_cons, step]
    exact run

/-! ## How the loop takes a datagram apart -/

/-- What is stored of a key. -/
def keyText (key : WString) : WString :=
  (key.filter fun c => decide (c ≠ 0x0d ∧ c ≠ 0x0a ∧ c ≠ 0x3a)).take (bufferSize - 1)

/-- Four ends of lines follow each other, the first `ends` of which were there before. -/
def emptyLine (ends : Nat) : WString → Bool
  | [] => false
  | c :: rest =>
    if IsEnd c then decide (ends + 1 = 4) || emptyLine (ends + 1) rest else emptyLine 0 rest

/-- A line up to two ends of lines that follow each other, without these, and what is behind. -/
def line (ended : Bool) : WString → Option (WString × WString)
  | [] => none
  | c :: rest =>
    if IsEnd c then if ended then some ([], rest) else line true rest
    else (line false rest).map fun (text, behind) => (c :: text, behind)

/-- The header that a line is taken for: its name decides, and, where the name is not known, the
first two characters of its value. -/
def role (name text : WString) : Header :=
  if text = [] then .start
  else if Parser.headerOf (cstr name) ≠ .start then Parser.headerOf (cstr name)
  else if 3 ≤ text.length then Parser.headerOf (cstr (text.take 2))
  else .start

/-- Of a value that is taken for an ST header something is stored. -/
theorem shown_st (stale : WString) {name text : WString} (st : role name text = .st) :
    shown stale (text.take (bufferSize - 1)) = text.take (bufferSize - 1) := by
  refine if_neg ?_
  rw [List.take_eq_nil_iff, not_or]
  refine ⟨by decide, ?_⟩
  rintro rfl
  cases st

theorem line_length {ended : Bool} {s text rest : WString}
    (read : line ended s = some (text, rest)) :
    rest.length < s.length := by
  induction s generalizing ended text with
  | nil => cases read
  | cons c s ih =>
    rw [line] at read
    rw [List.length_cons]
    split at read
    · split at read
      · cases read
        exact Nat.lt_succ_self _
      · exact Nat.lt_succ_of_lt (ih read)
    · obtain ⟨⟨t, r⟩, inner, same⟩ := Option.map_eq_some_iff.mp read
      cases same
      exact Nat.lt_succ_of_lt (ih inner)

/-- Whether a reply is pending after the header lines. An ST header that does not ask for the
device ends the reading; what is pending then is withdrawn by the next character. -/
def repliesToLines (own : SSDPClass) (stale : WString) (pending : Bool) (body : WString) : Bool :=
  let key := body.takeWhile (· ≠ 0x20)
  let pending := pending || emptyLine 2 key
  match read : line false (body.drop (key.length + 1)) with
  | none => pending
  | some (text, rest) =>
    let name := shown stale (keyText key)
    let value := shown name (text.take (bufferSize - 1))
    if role name text = .st then
      if Known own (cstr value) then repliesToLines own value true rest
      else if cstr value = ofString "ssdp:all" then repliesToLines own value pending rest
      else rest.isEmpty && pending
    else repliesToLines own value pending rest
termination_by body.length
decreasing_by
  all_goals
    have shorter := line_length read
    rw [List.length_drop] at shorter
    omega

theorem repliesToLines_none {own : SSDPClass} {stale body : WString} {pending : Bool}
    (read : line false (body.drop ((body.takeWhile (· ≠ 0x20)).length + 1)) = none) :
    repliesToLines own stale pending body =
      (pending || emptyLine 2 (body.takeWhile (· ≠ 0x20))) := by
  rw [repliesToLines]
  split
  · rfl
  · rename_i found
    rw [read] at found
    cases found

theorem repliesToLines_some {own : SSDPClass} {stale body text rest : WString} {pending : Bool}
    (read : line false (body.drop ((body.takeWhile (· ≠ 0x20)).length + 1)) = some (text, rest)) :
    repliesToLines own stale pending body =
      if role (shown stale (keyText (body.takeWhile (· ≠ 0x20)))) text = .st then
        if Known own (cstr (text.take (bufferSize - 1))) then
          repliesToLines own (text.take (bufferSize - 1)) true rest
        else if cstr (text.take (bufferSize - 1)) = ofString "ssdp:all" then
          repliesToLines own (text.take (bufferSize - 1))
            (pending || emptyLine 2 (body.takeWhile (· ≠ 0x20))) rest
        else rest.isEmpty && (pending || emptyLine 2 (body.takeWhile (· ≠ 0x20)))
      else
        repliesToLines own
          (shown (shown stale (keyText (body.takeWhile (· ≠ 0x20)))) (text.take (bufferSize - 1)))
          (pending || emptyLine 2 (body.takeWhile (· ≠ 0x20))) rest := by
  rw [repliesToLines]
  split
  · rename_i found
    rw [read] at found
    cases found
  · rename_i found
    rw [read] at found
    cases found
    by_cases st : role (shown stale (keyText (body.takeWhile (· ≠ 0x20)))) text = .st
    · rw [if_pos st, if_pos st, shown_st _ st]
    · rw [if_neg st, if_neg st]

/-- Whether a reply is pending behind the method. -/
def repliesToRequest (own : SSDPClass) (behind : WString) : Bool :=
  let uri := behind.takeWhile (· ≠ 0x20)
  decide (uri.take (uriSize - 1) = ofString "*") &&
    (line false (behind.drop (uri.length + 1))).any fun found =>
      repliesToLines own (ofString "*") false found.2

/-- Whether a reply is pending after the datagram. -/
def repliesTo (own : SSDPClass) (datagram : WString) : Bool :=
  let method := datagram.takeWhile (· ≠ 0x20)
  decide (cstr (method.take (methodSize - 1)) = ofString "M-SEARCH") &&
    repliesToRequest own (datagram.drop (method.length + 1))

/-! ## The view takes it apart so -/

namespace View
variable {own : SSDPClass}

theorem put_take (v : View) (limit : Nat) (s : WString) (c : UInt8) :
    { v with fresh := s.take limit }.put limit c = { v with fresh := (s ++ [c]).take limit } := by
  rw [View.put]
  split
  · rename_i room
    rw [List.length_take] at room
    have short : s.length < limit := by omega
    rw [List.take_of_length_le (by omega), List.take_of_length_le (by simp; omega)]
  · rename_i full
    rw [List.length_take] at full
    rw [List.take_append_of_le_length (by omega)]

/-- Characters that are all stored, as far as there is room. -/
theorem run_put {v : View} {limit : Nat} {s : WString}
    (stored : ∀ c ∈ s, ∀ cr fresh,
      { v with cr, fresh }.act own c = { v with cr, fresh }.put limit c) (front : WString) :
    ∃ cr, s.foldl (View.next own) { v with fresh := front.take limit } =
      { v with cr, fresh := (front ++ s).take limit } := by
  induction s generalizing v front with
  | nil => exact ⟨v.cr, by rw [List.append_nil]; rfl⟩
  | cons c rest ih =>
    have next : View.next own { v with fresh := front.take limit } c =
        { v with
          cr := if IsEnd c then v.cr + 1 else 0
          fresh := (front ++ [c]).take limit } := by
      rw [View.next]
      dsimp only
      rw [stored c List.mem_cons_self]
      exact put_take { v with cr := if IsEnd c then v.cr + 1 else 0 } limit front c
    obtain ⟨cr, run⟩ := ih
      (v := { v with cr := if IsEnd c then v.cr + 1 else 0 })
      (fun c mem => stored c (List.mem_cons_of_mem _ mem)) (front ++ [c])
    refine ⟨cr, ?_⟩
    rw [List.foldl_cons, next, run, List.append_assoc]
    rfl

/-- Nothing becomes pending any more. -/
theorem run_abort {v : View} (abort : v.state = .abort) (s : WString) :
    (s.foldl (View.next own) v).pending = (s.isEmpty && v.pending) := by
  induction s generalizing v with
  | nil => rfl
  | cons c rest ih =>
    have next : View.next own v c =
        { v with cr := if IsEnd c then v.cr + 1 else 0, pending := false } := by
      simp only [View.next, View.act, abort]
    rw [List.foldl_cons, next]
    exact (ih (v := { v with cr := if IsEnd c then v.cr + 1 else 0, pending := false }) abort).trans
      (Bool.and_false _)

/-- A character of the line of the request, behind its URI. -/
theorem next_proto {v : View} (proto : v.state = .proto) (ended : Bool)
    (counted : v.cr = if ended then 1 else 0) (c : UInt8) :
    View.next own v c =
      if IsEnd c then if ended then { v.front with state := .key, cr := 2 } else { v with cr := 1 }
      else { v with cr := 0 } := by
  simp only [View.next, View.act, proto, counted]
  by_cases ends : IsEnd c
  · rw [if_pos ends, if_pos ends]
    cases ended <;> rfl
  · rw [if_neg ends, if_neg ends]
    rfl

theorem run_proto_none {v : View} (proto : v.state = .proto) (ended : Bool)
    (counted : v.cr = if ended then 1 else 0) {s : WString} (read : line ended s = none) :
    (s.foldl (View.next own) v).pending = v.pending := by
  induction s generalizing v ended with
  | nil => rfl
  | cons c s ih =>
    rw [line] at read
    rw [List.foldl_cons, next_proto proto ended counted]
    split at read
    · rename_i ends
      rw [if_pos ends]
      cases ended with
      | true => cases read
      | false => exact ih (v := { v with cr := 1 }) proto true rfl read
    · rename_i plain
      rw [if_neg plain]
      exact ih (v := { v with cr := 0 }) proto false rfl
        (Option.map_eq_none_iff.mp read)

theorem run_proto {v : View} (proto : v.state = .proto) (ended : Bool)
    (counted : v.cr = if ended then 1 else 0) {s text rest : WString}
    (read : line ended s = some (text, rest)) :
    s.foldl (View.next own) v =
      rest.foldl (View.next own) { v.front with state := .key, cr := 2 } := by
  induction s generalizing v ended text with
  | nil => cases read
  | cons c s ih =>
    rw [line] at read
    rw [List.foldl_cons, next_proto proto ended counted]
    split at read
    · rename_i ends
      rw [if_pos ends]
      cases ended with
      | true =>
        cases read
        rfl
      | false => exact ih (v := { v with cr := 1 }) proto true rfl read
    · rename_i plain
      obtain ⟨⟨t, r⟩, inner, same⟩ := Option.map_eq_some_iff.mp read
      cases same
      rw [if_neg plain]
      exact ih (v := { v with cr := 0 }) proto false rfl inner

/-- The end of a line in a key: only the fourth in a row means anything. -/
theorem next_key_end {v : View} (key : v.state = .key) (ends : Nat)
    (counted : v.cr = UInt8.ofNat ends) (told : 4 ≤ ends → v.pending) {c : UInt8}
    (isEnd : IsEnd c) :
    View.next own v c =
      { v with cr := UInt8.ofNat (ends + 1), pending := v.pending || decide (ends + 1 = 4) } := by
  have count : v.cr + 1 = UInt8.ofNat (ends + 1) := by
    rw [counted, UInt8.ofNat_add]
    rfl
  have other : c ≠ 0x20 := by
    rintro rfl
    exact absurd isEnd (by decide)
  simp only [View.next, View.act, key, if_pos isEnd, count]
  by_cases four : UInt8.ofNat (ends + 1) = 4
  · rw [if_pos four]
    have pending : (v.pending || decide (ends + 1 = 4)) = true := by
      by_cases fourth : ends + 1 = 4
      · rw [decide_eq_true fourth, Bool.or_true]
      · have wrapped := congrArg UInt8.toNat four
        rw [UInt8.toNat_ofNat'] at wrapped
        rw [told (by change _ = 4 at wrapped; omega), Bool.true_or]
    rw [pending]
  · rw [if_neg four, if_neg other, if_neg fun all => isEnd.elim all.1 all.2.1,
      decide_eq_false (by rintro fourth; exact four (by rw [fourth]; rfl)), Bool.or_false]

theorem next_key {v : View} (key : v.state = .key) (front : WString)
    (fresh : v.fresh = keyText front) {c : UInt8} (plain : ¬ IsEnd c) (other : c ≠ 0x20) :
    View.next own v c = { v with cr := 0, fresh := keyText (front ++ [c]) } := by
  have four : ¬ (0 : UInt8) = 4 := by decide
  simp only [View.next, View.act, key, if_neg plain, if_neg four, if_neg other]
  split
  · rename_i kept
    have stored := put_take { v with cr := 0, state := .key } (bufferSize - 1)
      (front.filter fun c => decide (c ≠ 0x0d ∧ c ≠ 0x0a ∧ c ≠ 0x3a)) c
    rw [fresh, keyText, keyText, List.filter_append, List.filter_singleton, decide_eq_true kept]
    exact stored
  · rename_i left
    rw [keyText, List.filter_append, List.filter_singleton, decide_eq_false left, cond_false,
      List.append_nil, ← keyText, ← fresh]

/-- A key, and the empty line that it may hold. -/
theorem run_key {v : View} (key : v.state = .key) (ends : Nat) (counted : v.cr = UInt8.ofNat ends)
    (told : 4 ≤ ends → v.pending) {s : WString} (plain : 0x20 ∉ s) (front : WString)
    (fresh : v.fresh = keyText front) :
    ∃ cr, s.foldl (View.next own) v =
      { v with cr, pending := v.pending || emptyLine ends s, fresh := keyText (front ++ s) } := by
  induction s generalizing v ends front with
  | nil =>
    refine ⟨v.cr, ?_⟩
    rw [emptyLine, Bool.or_false, List.append_nil, ← fresh]
    rfl
  | cons c rest ih =>
    rw [List.mem_cons, not_or] at plain
    rw [List.foldl_cons, emptyLine]
    by_cases isEnd : IsEnd c
    · have same : keyText front = keyText (front ++ [c]) := by
        rw [keyText, keyText, List.filter_append, List.filter_singleton,
          decide_eq_false fun all => isEnd.elim all.1 all.2.1, cond_false, List.append_nil]
      have still : 4 ≤ ends + 1 → (v.pending || decide (ends + 1 = 4)) = true := by
        intro many
        by_cases fourth : ends + 1 = 4
        · rw [decide_eq_true fourth, Bool.or_true]
        · rw [told (by omega), Bool.true_or]
      rw [next_key_end key ends counted told isEnd, if_pos isEnd]
      obtain ⟨cr, run⟩ := ih
        (v := { v with
          cr := UInt8.ofNat (ends + 1)
          pending := v.pending || decide (ends + 1 = 4) })
        key (ends + 1) rfl still plain.2 (front ++ [c]) (fresh.trans same)
      refine ⟨cr, ?_⟩
      rw [run, Bool.or_assoc, List.append_assoc]
      rfl
    · rw [next_key key front fresh isEnd (Ne.symm plain.1), if_neg isEnd]
      obtain ⟨cr, run⟩ := ih (v := { v with cr := 0, fresh := keyText (front ++ [c]) }) key
        0 rfl (fun many => absurd many (by decide)) plain.2 (front ++ [c]) rfl
      refine ⟨cr, ?_⟩
      rw [run, List.append_assoc]
      rfl

/-- Two characters tell every header that is known. -/
theorem headerOf_take {text : WString} (unknown : Parser.headerOf (text.take 2) = .start) :
    Parser.headerOf text = .start := by
  rw [Parser.headerOf] at unknown ⊢
  rw [List.take_take, Nat.min_self] at unknown
  split at unknown
  · cases unknown
  · rename_i man
    rw [if_neg man]
    split at unknown
    · cases unknown
    · rename_i st
      split at unknown
      · cases unknown
      · rename_i mx
        rw [if_neg (by rintro rfl; exact st rfl), if_neg (by rintro rfl; exact mx rfl)]

theorem headerOf_short {text : WString} (short : text.length < 2) :
    Parser.headerOf text = .start := by
  have two : ∀ known : WString, known.length = 2 → text ≠ known := by
    rintro known length rfl
    omega
  rw [Parser.headerOf, List.take_of_length_le (Nat.le_of_lt short), if_neg (two _ rfl),
    if_neg (two _ rfl), if_neg (two _ rfl)]

/-- The header that is found with one more character. -/
theorem role_append (name front : WString) (c : UInt8) :
    (if role name front = .start then
        Parser.headerOf (cstr (shown name (front.take (bufferSize - 1))))
      else role name front) = role name (front ++ [c]) := by
  have something : front ++ [c] ≠ [] := by simp
  have length : (front ++ [c]).length = front.length + 1 := List.length_append
  rw [role, role, if_neg something, shown]
  by_cases nothing : front = []
  · subst nothing
    rw [if_pos rfl, if_pos rfl, List.take_nil, if_pos rfl]
    by_cases unknown : Parser.headerOf (cstr name) = .start
    · rw [if_neg (not_not_intro unknown)]
      exact unknown
    · rw [if_pos unknown]
  · have text : front.take (bufferSize - 1) ≠ [] := by
      rw [Ne, List.take_eq_nil_iff, not_or]
      exact ⟨by decide, nothing⟩
    rw [if_neg nothing, if_neg text]
    by_cases unknown : Parser.headerOf (cstr name) = .start
    · rw [if_neg (not_not_intro unknown), if_neg (not_not_intro unknown), length]
      by_cases long : 3 ≤ front.length
      · have longer : 3 ≤ front.length + 1 := Nat.le_succ_of_le long
        rw [if_pos long, if_pos longer, List.take_append_of_le_length (Nat.le_of_succ_le long)]
        by_cases start : Parser.headerOf (cstr (front.take 2)) = .start
        · rw [if_pos start, start]
          refine headerOf_take ?_
          rw [← cstr_take, List.take_take]
          exact start
        · rw [if_neg start]
      · have fits : front.length ≤ bufferSize - 1 := by
          change front.length ≤ 63
          omega
        rw [if_neg long, if_pos rfl, List.take_of_length_le fits]
        by_cases two : 2 ≤ front.length
        · rw [if_pos (Nat.succ_le_succ two), List.take_append_of_le_length two,
            List.take_of_length_le (by omega)]
        · rw [if_neg fun more => two (Nat.le_of_succ_le_succ more)]
          refine headerOf_short (Nat.lt_of_le_of_lt ?_ (Nat.lt_of_not_le two))
          exact (List.takeWhile_sublist _).length_le
    · rw [if_pos unknown, if_pos unknown, if_neg unknown]

theorem next_value {v : View} (value : v.state = .value) (front : WString)
    (fresh : v.fresh = front.take (bufferSize - 1)) (header : v.header = role v.stale front)
    {c : UInt8} (plain : ¬ IsEnd c) :
    View.next own v c =
      { v with
        header := role v.stale (front ++ [c])
        cr := 0
        fresh := (front ++ [c]).take (bufferSize - 1) } := by
  have two : ¬ (0 : UInt8) = 2 := by decide
  have stored := put_take { v with state := .value, cr := 0, header := role v.stale (front ++ [c]) }
    (bufferSize - 1) front c
  have found := role_append v.stale front c
  rw [← header, ← fresh] at found
  simp only [View.next, View.act, value, if_neg plain, if_neg two,
    if_pos (not_or.mp plain : c ≠ 0x0d ∧ c ≠ 0x0a), View.text, found]
  rw [fresh]
  exact stored

theorem next_value_end {v : View} (value : v.state = .value) (ended : Bool)
    (counted : v.cr = if ended then 1 else 0) {c : UInt8} (isEnd : IsEnd c) :
    View.next own v c = if ended then { v with cr := 2 }.endValue own else { v with cr := 1 } := by
  have left : ¬ (c ≠ 0x0d ∧ c ≠ 0x0a) := fun all => isEnd.elim all.1 all.2
  simp only [View.next, View.act, value, if_pos isEnd, counted, if_neg left]
  cases ended <;> rfl

theorem run_value_none {v : View} (value : v.state = .value) (ended : Bool)
    (counted : v.cr = if ended then 1 else 0) (front : WString)
    (fresh : v.fresh = front.take (bufferSize - 1)) (header : v.header = role v.stale front)
    {s : WString} (read : line ended s = none) :
    (s.foldl (View.next own) v).pending = v.pending := by
  induction s generalizing v ended front with
  | nil => rfl
  | cons c s ih =>
    rw [line] at read
    rw [List.foldl_cons]
    split at read
    · rename_i isEnd
      rw [next_value_end value ended counted isEnd]
      cases ended with
      | true => cases read
      | false => exact ih (v := { v with cr := 1 }) value true rfl front fresh header read
    · rename_i plain
      rw [next_value value front fresh header plain]
      exact ih
        (v := { v with
          header := role v.stale (front ++ [c])
          cr := 0
          fresh := (front ++ [c]).take (bufferSize - 1) })
        value false rfl (front ++ [c]) rfl rfl (Option.map_eq_none_iff.mp read)

/-- A value, up to the end of its line. -/
theorem run_value {v : View} (value : v.state = .value) (ended : Bool)
    (counted : v.cr = if ended then 1 else 0) (front : WString)
    (fresh : v.fresh = front.take (bufferSize - 1)) (header : v.header = role v.stale front)
    {s text rest : WString} (read : line ended s = some (text, rest)) :
    s.foldl (View.next own) v =
      rest.foldl (View.next own)
        ({ v with
          header := role v.stale (front ++ text)
          cr := 2
          fresh := (front ++ text).take (bufferSize - 1) }.endValue own) := by
  induction s generalizing v ended front text with
  | nil => cases read
  | cons c s ih =>
    rw [line] at read
    rw [List.foldl_cons]
    split at read
    · rename_i isEnd
      rw [next_value_end value ended counted isEnd]
      cases ended with
      | true =>
        cases read
        rw [List.append_nil, ← header, ← fresh]
        rfl
      | false => exact ih (v := { v with cr := 1 }) value true rfl front fresh header read
    · rename_i plain
      obtain ⟨⟨t, r⟩, inner, same⟩ := Option.map_eq_some_iff.mp read
      cases same
      rw [next_value value front fresh header plain]
      have rest := ih
        (v := { v with
          header := role v.stale (front ++ [c])
          cr := 0
          fresh := (front ++ [c]).take (bufferSize - 1) })
        value false rfl (front ++ [c]) rfl rfl inner
      rw [rest, List.append_assoc]
      rfl

theorem next_key_space {v : View} (key : v.state = .key) :
    View.next own v 0x20 = { v.front with state := .value, cr := 0 } := by
  have plain : ¬ IsEnd 0x20 := by decide
  simp only [View.next, View.act, key, if_neg plain]
  rfl

end View

/-- The characters in front of the first blank. -/
theorem word_split (s : WString) :
    0x20 ∉ s.takeWhile (· ≠ 0x20) ∧
      ((s.takeWhile (· ≠ 0x20) = s ∧ s.drop ((s.takeWhile (· ≠ 0x20)).length + 1) = []) ∨
        s = s.takeWhile (· ≠ 0x20) ++ 0x20 :: s.drop ((s.takeWhile (· ≠ 0x20)).length + 1)) := by
  induction s with
  | nil => exact ⟨List.not_mem_nil, .inl ⟨rfl, rfl⟩⟩
  | cons c s ih =>
    by_cases blank : c = 0x20
    · subst blank
      exact ⟨List.not_mem_nil, .inr rfl⟩
    · rw [List.takeWhile_cons_of_pos (by simpa using blank), List.length_cons, List.drop_succ_cons]
      refine ⟨List.not_mem_cons_of_ne_of_not_mem (Ne.symm blank) ih.1, ?_⟩
      rcases ih.2 with ⟨whole, nothing⟩ | split
      · exact .inl ⟨congrArg (c :: ·) whole, nothing⟩
      · exact .inr (congrArg (c :: ·) split)

variable {own : SSDPClass}

/-- The header lines, from a view in front of them. -/
theorem run_lines (v : View) (key : v.state = .key) (header : v.header = .start)
    (counted : v.cr = 2) (fresh : v.fresh = []) (body : WString) :
    (body.foldl (View.next own) v).pending = repliesToLines own v.stale v.pending body := by
  induction length : body.length using Nat.strong_induction_on generalizing v body with
  | _ n ih =>
    obtain ⟨plain, split⟩ := word_split body
    generalize word_eq : body.takeWhile (· ≠ 0x20) = word at plain split
    obtain ⟨cr, typed⟩ : ∃ cr, word.foldl (View.next own) v =
        { v with cr, pending := v.pending || emptyLine 2 word, fresh := keyText ([] ++ word) } :=
      View.run_key key 2 counted (fun many => absurd many (by decide)) plain [] (fresh.trans rfl)
    let opened : View :=
      { v with
        state := .value
        cr := 0
        pending := v.pending || emptyLine 2 word
        stale := shown v.stale (keyText word)
        fresh := [] }
    have opens : View.next own
        { v with cr, pending := v.pending || emptyLine 2 word, fresh := keyText ([] ++ word) }
        0x20 = opened := View.next_key_space key
    cases read : line false (body.drop ((body.takeWhile (· ≠ 0x20)).length + 1)) with
    | none =>
      rw [repliesToLines_none read, word_eq]
      rw [word_eq] at read
      rcases split with ⟨rfl, -⟩ | split
      · rw [typed]
      · rw [split, List.foldl_append, typed, List.foldl_cons, opens]
        exact View.run_value_none (v := opened) rfl false rfl [] rfl header read
    | some found =>
      obtain ⟨text, rest⟩ := found
      rw [repliesToLines_some read, word_eq]
      rw [word_eq] at read
      have shorter := line_length read
      rw [List.length_drop] at shorter
      rcases split with ⟨-, nothing⟩ | split
      · rw [nothing] at read
        cases read
      · have fewer : rest.length < n := by omega
        rw [split, List.foldl_append, typed, List.foldl_cons, opens,
          View.run_value (v := opened) rfl false rfl [] rfl header read]
        by_cases st : role (shown v.stale (keyText word)) text = .st
        · have value := shown_st (shown v.stale (keyText word)) st
          rw [if_pos st, View.endValue, if_pos (by exact st), ← value]
          by_cases known :
              Known own (cstr (shown (shown v.stale (keyText word)) (text.take (bufferSize - 1))))
          · rw [if_pos (by exact known), if_pos (by exact known)]
            exact ih rest.length fewer _ rfl rfl rfl rfl rest rfl
          · by_cases all :
                cstr (shown (shown v.stale (keyText word)) (text.take (bufferSize - 1))) =
                  ofString "ssdp:all"
            · rw [if_neg (by exact known), if_pos (by exact all), if_neg (by exact known),
                if_pos (by exact all)]
              exact ih rest.length fewer _ rfl rfl rfl rfl rest rfl
            · rw [if_neg (by exact known), if_neg (by exact all), if_neg (by exact known),
                if_neg (by exact all)]
              exact View.run_abort rfl rest
        · rw [if_neg st, View.endValue, if_neg (by exact st)]
          exact ih rest.length fewer _ rfl rfl rfl rfl rest rfl

/-- The URI is one star, as far as it is stored. -/
theorem uri_text {method uri : WString} (search : cstr method = ofString "M-SEARCH") :
    cstr (shown method (uri.take (uriSize - 1))) = ofString "*" ↔
      uri.take (uriSize - 1) = ofString "*" := by
  cases uri with
  | nil =>
    rw [List.take_nil, shown, if_pos rfl, search]
    decide
  | cons c rest =>
    have first : (c :: rest).take (uriSize - 1) = [c] := rfl
    rw [first, shown, if_neg (List.cons_ne_nil c [])]
    by_cases zero : c = 0
    · subst zero
      decide
    · rw [cstr_of_not_mem (by simpa using Ne.symm zero)]

/-- The URI, and what is behind it. -/
theorem run_request (v : View) (uri : v.state = .uri) (header : v.header = .start)
    (pending : v.pending = false) (fresh : v.fresh = [])
    (search : cstr v.stale = ofString "M-SEARCH") (behind : WString) :
    (behind.foldl (View.next own) v).pending = repliesToRequest own behind := by
  obtain ⟨plain, split⟩ := word_split behind
  rw [repliesToRequest]
  generalize behind.takeWhile (· ≠ 0x20) = word at plain split ⊢
  obtain ⟨cr, typed⟩ : ∃ cr, word.foldl (View.next own) v =
      { v with cr, fresh := word.take (uriSize - 1) } := by
    have start : v = { v with fresh := ([] : WString).take (uriSize - 1) } := by
      rw [List.take_nil, ← fresh]
    rw [start]
    refine View.run_put (fun c mem cr fresh => ?_) []
    have other : c ≠ 0x20 := by
      rintro rfl
      exact plain mem
    simp only [View.act, uri, if_neg other]
  rcases split with ⟨rfl, nothing⟩ | split
  · rw [typed, nothing, line, Option.any_none, Bool.and_false]
    exact pending
  · have next : View.next own { v with cr, fresh := word.take (uriSize - 1) } 0x20 =
        { v with
          state := if word.take (uriSize - 1) = ofString "*" then .proto else .abort
          cr := 0
          stale := shown v.stale (word.take (uriSize - 1))
          fresh := [] } := by
      have plain : ¬ IsEnd 0x20 := by decide
      have star : cstr (shown v.stale (word.take (uriSize - 1))) = ofString "*" ↔
          word.take (uriSize - 1) = ofString "*" := uri_text search
      simp only [View.next, View.act, uri, if_neg plain, View.text, star]
      rfl
    generalize behind.drop (word.length + 1) = rest at split ⊢
    rw [split, List.foldl_append, typed, List.foldl_cons, next]
    by_cases star : word.take (uriSize - 1) = ofString "*"
    · rw [if_pos star, decide_eq_true star, Bool.true_and]
      have stale : shown v.stale (word.take (uriSize - 1)) = ofString "*" := by
        rw [shown, star]
        rfl
      cases read : line false rest with
      | none => exact (View.run_proto_none rfl false rfl read).trans pending
      | some found =>
        obtain ⟨text, body⟩ := found
        rw [View.run_proto rfl false rfl read, Option.any_some, ← stale, ← pending]
        exact run_lines
          { v with
            state := .key
            cr := 2
            stale := shown v.stale (word.take (uriSize - 1))
            fresh := [] }
          rfl header rfl rfl body
    · rw [if_neg star, decide_eq_false star, Bool.false_and, View.run_abort rfl, pending,
        Bool.and_false]

/-- The whole datagram. -/
theorem run_datagram (datagram : WString) :
    (datagram.foldl (View.next own) View.initial).pending = repliesTo own datagram := by
  obtain ⟨plain, split⟩ := word_split datagram
  rw [repliesTo]
  generalize datagram.takeWhile (· ≠ 0x20) = word at plain split ⊢
  obtain ⟨cr, typed⟩ : ∃ cr, word.foldl (View.next own) View.initial =
      { View.initial with cr, fresh := word.take (methodSize - 1) } := by
    have stored : ∀ c ∈ word, ∀ cr fresh, { View.initial with cr, fresh }.act own c =
        { View.initial with cr, fresh }.put (methodSize - 1) c := by
      intro c mem cr fresh
      have other : c ≠ 0x20 := by
        rintro rfl
        exact plain mem
      simp only [View.act, View.initial, if_neg other]
    exact View.run_put stored []
  rcases split with ⟨rfl, nothing⟩ | split
  · rw [typed, nothing]
    exact (Bool.and_false _).symm
  · have next : View.next own { View.initial with cr, fresh := word.take (methodSize - 1) } 0x20 =
        { View.initial with
          search := decide (cstr (word.take (methodSize - 1)) = ofString "M-SEARCH")
          state := if cstr (word.take (methodSize - 1)) = ofString "M-SEARCH" then .uri else .abort
          stale := word.take (methodSize - 1) } := by
      have plain : ¬ IsEnd 0x20 := by decide
      simp only [View.next, View.act, View.initial, if_neg plain, View.text, shown_nil,
        Bool.false_or, decide_eq_true_eq, View.front]
      rfl
    generalize datagram.drop (word.length + 1) = rest at split ⊢
    rw [split, List.foldl_append, typed, List.foldl_cons, next]
    by_cases search : cstr (word.take (methodSize - 1)) = ofString "M-SEARCH"
    · rw [if_pos search, decide_eq_true search, Bool.true_and]
      exact run_request _ rfl rfl rfl rfl search rest
    · rw [if_neg search, decide_eq_false search, Bool.false_and, View.run_abort rfl]
      exact Bool.and_false _

/-- The loop replies as it is read here, and its cursor has stayed inside of the buffer. -/
theorem update_pending (own : SSDPClass) (millis : UInt32) (random : Int → Int → Int)
    (stIsUuid : Bool) (delay : UInt16) (processTime : UInt32) (datagram : WString) :
    ∃ p, update own millis random (Parser.begin stIsUuid delay processTime) datagram = .ok p ∧
      p.cursor < bufferSize ∧ p.pending = repliesTo own datagram := by
  obtain ⟨p, run, sees⟩ :=
    update_sees (sees_begin stIsUuid delay processTime) own millis random datagram
  refine ⟨p, run, by rw [sees.cursor]; exact sees.short, ?_⟩
  rw [sees.pending, run_datagram]

end Esp8266.Source.Ssdp
