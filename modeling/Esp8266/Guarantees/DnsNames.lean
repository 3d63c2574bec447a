import Esp8266.Lib.Labels
import Esp8266.Source.DnsServer

/-!
# Questions for the configured name

The packet is only read where it is. The name is read up to its NUL, unless the labels of the
question go on with a NUL byte where the name ends: then the comparison takes it for the NUL of
the name and goes on behind it.
-/
set_option autoImplicit false

namespace Esp8266.Source.Dns
open Esp8266.Lib.Labels Esp8266.Source.WString

/-! ## The first pass -/

theorem byteAt_drop {buffer : List UInt8} {start : Nat} {c : UInt8} {behind : List UInt8}
    (there : buffer.drop start = c :: behind) : byteAt buffer start = .ok c := by
  have found : buffer[start]? = some c := by
    rw [← List.head?_drop, there]
    rfl
  rw [byteAt, found]

theorem drop_succ {buffer : List UInt8} {start : Nat} {c : UInt8} {behind : List UInt8}
    (there : buffer.drop start = c :: behind) : buffer.drop (start + 1) = behind := by
  rw [← List.drop_drop, there]
  rfl

/-- Where the labels stop: at the end, at a zero, or at a label that is too long. -/
inductive Stop : List UInt8 → Option Nat → Prop where
  | ended : Stop [] (some 0)
  | zero (behind : List UInt8) : Stop (0 :: behind) (some (behind.length + 1))
  | long {n : UInt8} {behind : List UInt8} : n ≠ 0 → behind.length < n.toNat →
    Stop (n :: behind) none

theorem skipLabels_spec (buffer : List UInt8) (fuel : Nat) :
    ∀ (start : Nat) (bytes : List UInt8), buffer.drop start = bytes → bytes.length < fuel →
      ∃ labels rest stop, bytes = wire labels ++ rest ∧ (∀ label ∈ labels, IsLabel label) ∧
        Stop rest stop ∧ skipLabels buffer fuel start bytes.length =
          .ok (stop.map fun remaining => (start + (wire labels).length, remaining)) := by
  induction fuel with
  | zero =>
    intro start bytes _ enough
    cases enough
  | succ fuel ih =>
    intro start bytes there enough
    cases bytes with
    | nil =>
      refine ⟨[], [], some 0, rfl, by simp, .ended, ?_⟩
      rw [skipLabels, List.length_nil, if_pos rfl]
      rfl
    | cons n behind =>
      rw [skipLabels, if_neg (by simp), byteAt_drop there]
      dsimp only
      by_cases zero : n = 0
      · subst zero
        refine ⟨[], _, _, rfl, by simp, .zero behind, ?_⟩
        rw [if_pos rfl]
        rfl
      · rw [if_neg zero, List.length_cons]
        by_cases long : behind.length < n.toNat
        · refine ⟨[], _, _, rfl, by simp, .long zero long, ?_⟩
          rw [if_pos (by omega)]
          rfl
        · rw [if_neg (by omega)]
          have rest : buffer.drop (start + (n.toNat + 1)) = behind.drop n.toNat := by
            rw [Nat.add_comm n.toNat 1, ← Nat.add_assoc, ← List.drop_drop, drop_succ there]
          obtain ⟨labels, stopped, stop, split, all, stops, skips⟩ :=
            ih _ _ rest (by simp only [List.length_drop, List.length_cons] at enough ⊢; omega)
          have taken : (behind.take n.toNat).length = n.toNat := by
            rw [List.length_take, Nat.min_eq_left (Nat.le_of_not_lt long)]
          have length : UInt8.ofNat (behind.take n.toNat).length = n := by
            rw [taken]
            exact UInt8.ofNat_toNat
          refine ⟨behind.take n.toNat :: labels, stopped, stop, ?_, ?_, stops, ?_⟩
          · rw [wire_cons, length, List.cons_append, List.append_assoc, ← split,
              List.take_append_drop]
          · intro label mem
            rcases List.mem_cons.mp mem with rfl | later
            · rw [IsLabel, taken]
              refine ⟨Nat.pos_of_ne_zero fun none => zero (UInt8.toNat_inj.mp none), ?_⟩
              exact n.toNat_lt
            · exact all label later
          · rw [List.length_drop] at skips
            rw [Nat.add_sub_add_right, skips, wire_cons, List.length_cons, List.length_append,
              taken]
            congr 2
            funext remaining
            congr 1
            omega

/-! ## The second pass -/

/-- The lower-case text of labels, with dots between them. -/
def joined (labels : List (List UInt8)) : WString :=
  [(0x2e : UInt8)].intercalate (labels.map fun label => label.map toLower)

theorem joined_singleton (label : List UInt8) : joined [label] = label.map toLower := by
  simp [joined]

theorem joined_cons (label next : List UInt8) (labels : List (List UInt8)) :
    joined (label :: next :: labels) = label.map toLower ++ 0x2e :: joined (next :: labels) := by
  simp [joined, List.intercalate]

section
variable {domainName : WString} {m : Nat}

theorem nameAt_drop {d : UInt8} {rest : WString}
    (there : (domainName ++ [0]).drop m = d :: rest) : nameAt domainName m = .ok d := by
  have found : (domainName ++ [0])[m]? = some d := by
    rw [← List.head?_drop, there]
    rfl
  have inside : m < (domainName ++ [0]).length := by
    obtain ⟨inside, -⟩ := List.getElem?_eq_some_iff.mp found
    exact inside
  rw [List.length_append, List.length_singleton] at inside
  rw [nameAt, if_pos (Nat.le_of_lt_succ inside)]
  rcases Nat.lt_or_eq_of_le (Nat.le_of_lt_succ inside) with below | last
  · rw [List.getElem?_append_left below] at found
    rw [List.getD_eq_getElem?_getD, found]
    rfl
  · subst last
    rw [List.getElem?_append_right (Nat.le_refl _), Nat.sub_self] at found
    rw [List.getD_eq_getElem?_getD, List.getElem?_eq_none (Nat.le_refl _)]
    exact congrArg Except.ok (Option.some.inj found)

theorem nameAt_past (past : (domainName ++ [0]).drop m = []) :
    nameAt domainName m = .error .pastName := by
  rw [List.drop_eq_nil_iff, List.length_append, List.length_singleton] at past
  rw [nameAt, if_neg (by omega)]

/-- The rest of the name has its NUL at its end. -/
theorem nul_last (plain : 0 ∉ domainName) {before rest : WString}
    (there : (domainName ++ [0]).drop m = before ++ 0 :: rest) : rest = [] := by
  by_contra more
  obtain ⟨last, c, rfl⟩ := List.eq_nil_or_concat rest |>.resolve_left more
  have whole : domainName ++ [0] =
      ((domainName ++ [0]).take m ++ before ++ 0 :: last) ++ [c] := by
    conv_lhs => rw [← List.take_append_drop m (domainName ++ [0]), there]
    simp only [List.append_assoc, List.cons_append, List.concat_eq_append]
  obtain ⟨name, -⟩ := List.append_inj' whole rfl
  exact plain (by rw [name]; simp)

end

theorem matchLabel_spec (buffer : List UInt8) (domainName : WString) (label : List UInt8) :
    ∀ (start m : Nat) (behind : List UInt8), buffer.drop start = label ++ behind →
      matchLabel buffer domainName label.length start m =
        if label.map toLower <+: (domainName ++ [0]).drop m then
          .ok (some (start + label.length, m + label.length))
        else if (domainName ++ [0]).drop m <+: label.map toLower then .error .pastName
        else .ok none := by
  induction label with
  | nil =>
    intro start m behind _
    rw [if_pos (by simp)]
    rfl
  | cons c label ih =>
    intro start m behind there
    rw [List.length_cons, matchLabel, byteAt_drop there]
    dsimp only
    cases rest : (domainName ++ [0]).drop m with
    | nil =>
      rw [nameAt_past rest, if_neg (by simp), if_pos (by simp)]
    | cons d name =>
      rw [nameAt_drop rest]
      dsimp only
      by_cases other : toLower c ≠ d
      · rw [if_pos other, if_neg, if_neg]
        · rw [List.map_cons, List.cons_prefix_cons]
          exact fun both => other both.1.symm
        · rw [List.map_cons, List.cons_prefix_cons]
          exact fun both => other both.1
      · obtain rfl : toLower c = d := not_not.mp other
        have name_drop : (domainName ++ [0]).drop (m + 1) = name := drop_succ rest
        have goesOn := ih (start + 1) (m + 1) behind (drop_succ there)
        rw [name_drop] at goesOn
        rw [if_neg (not_not_intro rfl), goesOn, List.map_cons]
        simp only [List.cons_prefix_cons, true_and, Nat.add_assoc, Nat.add_comm 1]

/-- A label on the wire, its text, and what is behind it. -/
theorem first_label {buffer : List UInt8} {start : Nat} {label : List UInt8}
    {labels : List (List UInt8)} {behind : List UInt8}
    (there : buffer.drop start = wire (label :: labels) ++ 0 :: behind) :
    byteAt buffer start = .ok (UInt8.ofNat label.length) ∧
      buffer.drop (start + 1) = label ++ (wire labels ++ 0 :: behind) ∧
      buffer.drop (start + 1 + label.length) = wire labels ++ 0 :: behind := by
  rw [wire_cons, List.cons_append, List.append_assoc] at there
  have text := drop_succ there
  refine ⟨byteAt_drop there, text, ?_⟩
  rw [← List.drop_drop, text, List.drop_left]

theorem matchLabels_end (buffer : List UInt8) (domainName : WString) (fuel : Nat) {start m : Nat}
    {behind : List UInt8} (ended : buffer.drop start = 0 :: behind) :
    matchLabels buffer domainName fuel start m = .ok false := by
  obtain _ | fuel := fuel
  · rfl
  · rw [matchLabels, byteAt_drop ended]
    exact if_pos rfl

theorem drop_append_left {xs before rest : List UInt8} {m : Nat}
    (there : xs.drop m = before ++ rest) : xs.drop (m + before.length) = rest := by
  rw [← List.drop_drop, there, List.drop_left]

theorem not_prefix_longer (before : List UInt8) (c : UInt8) (rest : List UInt8) :
    ¬ before ++ c :: rest <+: before := by
  intro is_prefix
  have length := is_prefix.length_le
  rw [List.length_append, List.length_cons] at length
  omega

/-- The second pass over labels: it is true of the name, a fault where the name with its NUL is
only the beginning of the labels, and else false. -/
theorem matchLabels_spec (buffer : List UInt8) {domainName : WString} (plain : 0 ∉ domainName)
    (labels : List (List UInt8)) :
    ∀ (label : List UInt8) (fuel start m : Nat) (behind : List UInt8),
      (∀ label' ∈ label :: labels, IsLabel label') →
      buffer.drop start = wire (label :: labels) ++ 0 :: behind → labels.length < fuel →
      matchLabels buffer domainName fuel start m =
        if (domainName ++ [0]).drop m <+: joined (label :: labels) then .error .pastName
        else .ok (decide ((domainName ++ [0]).drop m = joined (label :: labels) ++ [0])) := by
  induction labels with
  | nil =>
    intro label fuel start m behind all there enough
    obtain _ | fuel := fuel
    · cases enough
    obtain ⟨length, first, ended⟩ := first_label there
    rw [matchLabels, length]
    dsimp only
    rw [if_neg (length_ne_zero (all _ List.mem_cons_self)),
      toNat_length (all _ List.mem_cons_self), matchLabel_spec buffer domainName label _ m _ first,
      joined_singleton]
    by_cases found : label.map toLower <+: (domainName ++ [0]).drop m
    · obtain ⟨name, split⟩ := found
      have behindLabel := drop_append_left split.symm
      rw [List.length_map] at behindLabel
      rw [if_pos ⟨name, split⟩]
      dsimp only
      rw [byteAt_drop ended]
      cases name with
      | nil =>
        rw [nameAt_past behindLabel, ← split, List.append_nil, if_pos List.prefix_rfl]
      | cons d name =>
        rw [nameAt_drop behindLabel, ← split, if_neg (not_prefix_longer _ _ _)]
        dsimp only
        by_cases nul : d = 0
        · subst nul
          obtain rfl := nul_last plain split.symm
          rw [if_pos ⟨rfl, rfl⟩, decide_eq_true rfl]
        · rw [if_neg fun both => nul both.2, decide_eq_false (by simpa using fun same => absurd same nul)]
          split
          · rfl
          · exact matchLabels_end buffer domainName fuel ended
    · rw [if_neg found, decide_eq_false (fun same => found ⟨[0], same.symm⟩)]
      by_cases short : (domainName ++ [0]).drop m <+: label.map toLower
      · rw [if_pos short, if_pos short]
      · rw [if_neg short, if_neg short]
  | cons next labels ih =>
    intro label fuel start m behind all there enough
    obtain _ | fuel := fuel
    · cases enough
    obtain ⟨length, first, following⟩ := first_label there
    rw [matchLabels, length]
    dsimp only
    rw [if_neg (length_ne_zero (all _ List.mem_cons_self)),
      toNat_length (all _ List.mem_cons_self), matchLabel_spec buffer domainName label _ m _ first,
      joined_cons]
    by_cases found : label.map toLower <+: (domainName ++ [0]).drop m
    · obtain ⟨name, split⟩ := found
      have behindLabel := drop_append_left split.symm
      rw [List.length_map] at behindLabel
      rw [if_pos ⟨name, split⟩]
      dsimp only
      rw [(first_label following).1]
      cases name with
      | nil =>
        rw [nameAt_past behindLabel, if_pos]
        rw [← split, List.append_nil]
        exact List.prefix_append _ _
      | cons d name =>
        have isLabel := all next (List.mem_cons_of_mem _ List.mem_cons_self)
        rw [nameAt_drop behindLabel, ← split]
        simp only [List.prefix_append_right_inj, List.cons_prefix_cons, List.append_assoc,
          List.append_cancel_left_eq, List.cons_append, List.cons.injEq]
        rw [if_neg fun both => length_ne_zero isLabel both.1]
        by_cases dot : d = 0x2e
        · have rest := ih next fuel _ (m + label.length + 1) behind
            (fun label mem => all label (List.mem_cons_of_mem _ mem)) following
            (Nat.lt_of_succ_lt_succ enough)
          rw [drop_succ behindLabel] at rest
          rw [if_neg (not_not_intro dot), rest]
          simp only [dot, true_and]
        · rw [if_pos dot, if_neg fun both => dot both.1, decide_eq_false fun both => dot both.1]
    · have longer : label.map toLower <+: label.map toLower ++ 0x2e :: joined (next :: labels) :=
        List.prefix_append _ _
      rw [if_neg found, decide_eq_false fun same => found (by
        rw [same]
        exact longer.trans (List.prefix_append _ _))]
      by_cases short : (domainName ++ [0]).drop m <+: label.map toLower
      · rw [if_pos short, if_pos (short.trans longer)]
      · rw [if_neg short, if_neg]
        intro is_prefix
        rcases List.prefix_or_prefix_of_prefix is_prefix longer with nameFirst | labelFirst
        · exact short nameFirst
        · exact found labelFirst

/-! ## Questions -/

/-- The labels that are compared. -/
def dropWww : List (List UInt8) → List (List UInt8)
  | [] => []
  | label :: labels => if label.map toLower = ofString "www" then labels else label :: labels

/-- A query of the standard kind with one question and no other records. -/
def IsStandardQuery (packet : List UInt8) : Prop :=
  headerByte packet 2 &&& 0x80 = 0 ∧ headerByte packet 2 &&& 0x78 = 0 ∧
    [headerByte packet 4, headerByte packet 5] = [0, 1] ∧ ∀ c ∈ (packet.drop 6).take 6, c = 0

/-- The packet asks for the address of a name: behind the header stand its labels, a type A or
ANY and a class IN or ANY. -/
def AsksFor (packet : List UInt8) (labels : List (List UInt8)) : Prop :=
  IsStandardQuery packet ∧ (∀ label ∈ labels, IsLabel label) ∧
    ∃ qtype qclass behind, packet.drop dnsHeaderSize =
        wire labels ++ 0 :: (qtype ++ qclass ++ behind) ∧
      (qtype = [0, 1] ∨ qtype = [0, 255]) ∧ (qclass = [0, 1] ∨ qclass = [0, 255])

/-- The packet asks for the configured name. -/
def AsksForName (packet : List UInt8) (domainName : WString) : Prop :=
  ∃ labels, AsksFor packet labels ∧
    (domainName = ofString "*" ∨ joined (dropWww labels) = domainName)

/-- The labels of the question go on with a NUL byte behind the name. -/
def RunsPastName (packet : List UInt8) (domainName : WString) : Prop :=
  ∃ labels, AsksFor packet labels ∧ domainName ≠ ofString "*" ∧
    domainName ++ [0] <+: joined (dropWww labels)

theorem leadingWww_spec {buffer : List UInt8} {start : Nat} {labels : List (List UInt8)}
    {behind : List UInt8} (all : ∀ label ∈ labels, IsLabel label)
    (there : buffer.drop start = wire labels ++ 0 :: behind) :
    ∃ skips, leadingWww buffer start = .ok skips ∧
      buffer.drop (if skips then start + 4 else start) = wire (dropWww labels) ++ 0 :: behind := by
  cases labels with
  | nil =>
    refine ⟨false, ?_, there⟩
    rw [leadingWww, byteAt_drop there]
    rfl
  | cons label labels =>
    obtain ⟨length, text, following⟩ := first_label there
    have isLabel := all label List.mem_cons_self
    rw [leadingWww, length]
    dsimp only
    by_cases other : UInt8.ofNat label.length ≠ 3
    · have notWww : label.map toLower ≠ ofString "www" := by
        intro www
        have three := congrArg List.length www
        rw [List.length_map] at three
        rw [three] at other
        exact other rfl
      refine ⟨false, if_pos other, ?_⟩
      rw [if_neg Bool.false_ne_true, dropWww, if_neg notWww]
      exact there
    · have three : label.length = 3 := by
        rw [← toNat_length isLabel, not_not.mp other]
        rfl
      obtain ⟨a, b, c, rfl⟩ := List.length_eq_three.mp three
      have second := drop_succ text
      have third := drop_succ second
      rw [if_neg other, byteAt_drop text, byteAt_drop second, byteAt_drop third]
      dsimp only
      refine ⟨_, rfl, ?_⟩
      rw [dropWww]
      by_cases www : [a, b, c].map toLower = ofString "www"
      · rw [if_pos www, if_pos (decide_eq_true www)]
        exact following
      · rw [if_neg www, if_neg (by rw [decide_eq_false www]; exact Bool.false_ne_true)]
        exact there

theorem dropWww_all {labels : List (List UInt8)} (all : ∀ label ∈ labels, IsLabel label) :
    ∀ label ∈ dropWww labels, IsLabel label := by
  cases labels with
  | nil => exact all
  | cons label labels =>
    rw [dropWww]
    split
    · exact fun other mem => all other (List.mem_cons_of_mem _ mem)
    · exact all

/-- Both passes together, for a name that is configured. -/
theorem matchName_spec {buffer : List UInt8} {domainName : WString} (plain : 0 ∉ domainName)
    (configured : domainName ≠ []) {labels : List (List UInt8)} {start : Nat}
    {behind : List UInt8} (all : ∀ label ∈ labels, IsLabel label)
    (there : buffer.drop start = wire labels ++ 0 :: behind) (short : labels.length ≤ buffer.length) :
    matchLabels buffer domainName (buffer.length + 1) start 0 =
      if domainName ++ [0] <+: joined labels then .error .pastName
      else .ok (decide (joined labels = domainName)) := by
  cases labels with
  | nil =>
    rw [matchLabels_end buffer domainName _ there, if_neg (by simp [joined]),
      decide_eq_false fun same => configured same.symm]
  | cons label labels =>
    rw [matchLabels_spec buffer plain labels label _ start 0 behind all there
      (Nat.lt_succ_of_lt short), List.drop_zero]
    simp only [List.append_cancel_right_eq, eq_comm]

/-! ## Answers -/

theorem wire_length (labels : List (List UInt8)) : labels.length ≤ (wire labels).length := by
  induction labels with
  | nil => exact Nat.zero_le _
  | cons label labels ih =>
    rw [wire_cons, List.length_cons, List.length_cons, List.length_append]
    omega

/-- The address is the reply, or none of them is. -/
def IsIp (reply : Option Reply) : Prop := ∃ query, reply = some (.ip query)

/-- What a packet that asks for no address gets. -/
theorem notAsked {packet : List UInt8} {domainName : WString}
    (none : ∀ labels, ¬ AsksFor packet labels) {reply : Option Reply} (other : ¬ IsIp reply)
    {result : Except Fault (Option Reply)} (same : result = .ok reply) :
    (∃ reply, result = .ok reply ∧ (IsIp reply ↔ AsksForName packet domainName)) ↔
      ¬ RunsPastName packet domainName := by
  refine iff_of_true ⟨reply, same, iff_of_false other ?_⟩ ?_
  · rintro ⟨labels, asks, -⟩
    exact none labels asks
  · rintro ⟨labels, asks, -⟩
    exact none labels asks

/-- Where the labels end without a question behind them, nothing is asked. -/
theorem not_asksFor {packet : List UInt8} {labels : List (List UInt8)} {rest : List UInt8}
    (all : ∀ label ∈ labels, IsLabel label)
    (there : packet.drop dnsHeaderSize = wire labels ++ rest)
    (stuck : ∀ label more, IsLabel label → rest ≠ UInt8.ofNat label.length :: (label ++ more))
    (short : ∀ behind, rest = 0 :: behind → behind.length < 4) (labels' : List (List UInt8)) :
    ¬ AsksFor packet labels' := by
  rintro ⟨-, all', qtype, qclass, behind, question, types, classes⟩
  obtain ⟨-, same⟩ := wire_unique all all' stuck (there.symm.trans question)
  have length := short _ same
  rcases types with rfl | rfl <;> rcases classes with rfl | rfl <;>
    · simp only [List.length_append, List.length_cons, List.length_nil] at length
      omega

theorem zero_stuck (behind : List UInt8) (label more : List UInt8) (isLabel : IsLabel label) :
    0 :: behind ≠ UInt8.ofNat label.length :: (label ++ more) := by
  intro same
  exact length_ne_zero isLabel (List.cons.inj same).1.symm

/-- A question that the first pass stops at has its labels. -/
theorem asksFor_iff {packet : List UInt8} (standard : IsStandardQuery packet)
    {labels : List (List UInt8)} (all : ∀ label ∈ labels, IsLabel label)
    {a b c d : UInt8} {behind : List UInt8}
    (there : packet.drop dnsHeaderSize = wire labels ++ 0 :: a :: b :: c :: d :: behind)
    (labels' : List (List UInt8)) :
    AsksFor packet labels' ↔ labels' = labels ∧
      ([a, b] = [0, 1] ∨ [a, b] = [0, 255]) ∧ ([c, d] = [0, 1] ∨ [c, d] = [0, 255]) := by
  constructor
  · rintro ⟨-, all', qtype, qclass, behind', question, types, classes⟩
    obtain ⟨rfl, same⟩ := wire_unique all all' (zero_stuck _) (there.symm.trans question)
    refine ⟨rfl, ?_⟩
    rcases types with rfl | rfl <;> rcases classes with rfl | rfl <;>
      · simp only [List.cons_append, List.nil_append, List.cons.injEq, true_and] at same
        obtain ⟨rfl, rfl, rfl, rfl, -⟩ := same
        simp
  · rintro ⟨rfl, types, classes⟩
    exact ⟨standard, all, [a, b], [c, d], behind, there, types, classes⟩

/-- **Questions for the configured name.** The packet is read where it is and the name up to its
NUL, and the address is the reply exactly to questions for the name, if and only if the labels of
the question do not go on with a NUL byte behind the name. -/
theorem respondToRequest_exact {server : DNSServer} (plain : 0 ∉ server.domainName)
    (configured : server.domainName ≠ []) {packet : List UInt8}
    (header : dnsHeaderSize ≤ packet.length) :
    (∃ reply, respondToRequest server packet = .ok reply ∧
        (IsIp reply ↔ AsksForName packet server.domainName)) ↔
      ¬ RunsPastName packet server.domainName := by
  have noReply : ¬ IsIp none := by
    rintro ⟨query, same⟩
    cases same
  have errorReply : ∀ rcode query, ¬ IsIp (some (.error rcode query)) := by
    rintro rcode query ⟨query', same⟩
    cases same
  unfold respondToRequest
  dsimp only
  by_cases response : headerByte packet 2 &&& 0x80 ≠ 0
  · rw [if_pos response]
    exact notAsked (fun labels asks => response asks.1.1) noReply rfl
  rw [if_neg response]
  by_cases operation : headerByte packet 2 &&& 0x78 ≠ 0
  · rw [if_pos operation]
    exact notAsked (fun labels asks => operation asks.1.2.1) (errorReply _ _) rfl
  rw [if_neg operation]
  by_cases questions : [headerByte packet 4, headerByte packet 5] ≠ [0, 1]
  · rw [if_pos questions]
    exact notAsked (fun labels asks => questions asks.1.2.2.1) (errorReply _ _) rfl
  rw [if_neg questions]
  by_cases records : (((packet.drop 6).take 6).any (· ≠ 0)) = true
  · rw [if_pos records]
    refine notAsked (fun labels asks => ?_) (errorReply _ _) rfl
    obtain ⟨c, mem, other⟩ := List.any_eq_true.mp records
    exact of_decide_eq_true other (asks.1.2.2.2 c mem)
  rw [if_neg records]
  have standard : IsStandardQuery packet := by
    refine ⟨not_not.mp response, not_not.mp operation, not_not.mp questions, ?_⟩
    intro c mem
    by_contra other
    exact records (List.any_eq_true.mpr ⟨c, mem, decide_eq_true other⟩)
  obtain ⟨labels, rest, stop, question, all, stops, skips⟩ :=
    skipLabels_spec packet (packet.length + 1) dnsHeaderSize _ rfl (by
      rw [List.length_drop]
      omega)
  rw [List.length_drop] at skips
  rw [skips]
  cases stops with
  | ended =>
    refine notAsked (not_asksFor all question ?_ ?_) (errorReply .formError none) ?_
    · intro label more _ same
      cases same
    · intro behind same
      cases same
    · exact if_pos (by decide)
  | @long n behind notZero short =>
    refine notAsked (not_asksFor all question ?_ ?_) (errorReply .formError none) rfl
    · intro label more isLabel same
      obtain ⟨rfl, rfl⟩ := List.cons.inj same
      rw [toNat_length isLabel, List.length_append] at short
      omega
    · intro behind same
      exact absurd (List.cons.inj same).1 notZero
  | zero behind =>
    dsimp only [Option.map]
    by_cases short : behind.length + 1 < 5
    · rw [if_pos short]
      refine notAsked (not_asksFor all question (zero_stuck _) ?_) (errorReply .formError none) rfl
      intro behind' same
      obtain ⟨-, rfl⟩ := List.cons.inj same
      omega
    rw [if_neg short]
    obtain ⟨a, b, c, d, more, rfl⟩ : ∃ a b c d more, behind = a :: b :: c :: d :: more := by
      rcases behind with _ | ⟨a, _ | ⟨b, _ | ⟨c, _ | ⟨d, more⟩⟩⟩⟩
      all_goals first
        | exact ⟨a, b, c, d, more, rfl⟩
        | exact absurd (Nat.lt_of_succ_le (Nat.le_of_ble_eq_true rfl)) short
    have ended : packet.drop (dnsHeaderSize + (wire labels).length) =
        0 :: a :: b :: c :: d :: more := by
      rw [← List.drop_drop, question, List.drop_left]
    have first := drop_succ ended
    have second := drop_succ first
    have third := drop_succ second
    have fourth := drop_succ third
    rw [byteAt_drop first, byteAt_drop second, byteAt_drop third, byteAt_drop fourth]
    dsimp only
    have asks := asksFor_iff standard all question
    by_cases classes : [c, d] ≠ [0, 255] ∧ [c, d] ≠ [0, 1]
    · rw [if_pos classes]
      refine notAsked (fun labels' asked => ?_) (errorReply _ _) rfl
      rcases ((asks labels').mp asked).2.2 with internet | any
      · exact classes.2 internet
      · exact classes.1 any
    rw [if_neg classes]
    by_cases types : [a, b] ≠ [0, 1] ∧ [a, b] ≠ [0, 255]
    · rw [if_pos types]
      refine notAsked (fun labels' asked => ?_) (errorReply _ _) rfl
      rcases ((asks labels').mp asked).2.1 with address | any
      · exact types.1 address
      · exact types.2 any
    rw [if_neg types, if_neg (List.length_eq_zero_iff.not.mpr configured)]
    have asked : AsksFor packet labels := by
      refine (asks labels).mpr ⟨rfl, ?_, ?_⟩
      · by_contra neither
        exact types (not_or.mp neither)
      · by_contra neither
        exact classes (not_or.mp neither).symm
    have only : ∀ labels', AsksFor packet labels' → labels' = labels :=
      fun labels' asked' => ((asks labels').mp asked').1
    have equal : equalsText server.domainName (ofString "*") =
        decide (server.domainName = ofString "*") := by
      rw [equalsText, cstr_of_not_mem plain]
    rw [equal]
    by_cases wildcard : server.domainName = ofString "*"
    · rw [if_pos (decide_eq_true wildcard)]
      refine iff_of_true ⟨_, rfl, iff_of_true ⟨_, rfl⟩ ⟨labels, asked, .inl wildcard⟩⟩ ?_
      rintro ⟨labels', -, other, -⟩
      exact other wildcard
    rw [if_neg (by simpa using wildcard)]
    obtain ⟨skips, www, named⟩ := leadingWww_spec all question
    rw [www]
    dsimp only
    have few : (dropWww labels).length ≤ packet.length := by
      have drops := congrArg List.length named
      have labelsLength := wire_length (dropWww labels)
      rw [List.length_drop, List.length_append] at drops
      omega
    rw [matchName_spec plain configured (dropWww_all all) named few]
    by_cases past : server.domainName ++ [0] <+: joined (dropWww labels)
    · rw [if_pos past]
      refine iff_of_false ?_ (not_not_intro ⟨labels, asked, wildcard, past⟩)
      rintro ⟨reply, fault, -⟩
      cases fault
    · rw [if_neg past]
      refine iff_of_true ?_ ?_
      · by_cases same : joined (dropWww labels) = server.domainName
        · rw [decide_eq_true same]
          exact ⟨_, rfl, iff_of_true ⟨_, rfl⟩ ⟨labels, asked, .inr same⟩⟩
        · rw [decide_eq_false same]
          refine ⟨_, rfl, iff_of_false (errorReply _ _) ?_⟩
          rintro ⟨labels', asked', star | same'⟩
          · exact wildcard star
          · rw [only labels' asked'] at same'
            exact same same'
      · rintro ⟨labels', asked', -, past'⟩
        rw [only labels' asked'] at past'
        exact past past'

theorem respondToRequest_exact_example :
    let server : DNSServer := ⟨ofString "example.com", [192, 168, 4, 1], [0, 0, 0, 60],
      .nonExistentDomain⟩
    let packet : List UInt8 := [0, 7, 1, 0, 0, 1, 0, 0, 0, 0, 0, 0] ++ 3 :: ofString "WWW" ++
      7 :: ofString "Example" ++ 3 :: ofString "com" ++ [0, 0, 1, 0, 1]
    (∃ reply, respondToRequest server packet = .ok reply ∧
        (IsIp reply ↔ AsksForName packet server.domainName)) ↔
      ¬ RunsPastName packet server.domainName :=
  respondToRequest_exact (by decide) (by decide) (by decide)

/-- The label has a NUL byte where the name ends: the comparison goes on behind it. -/
theorem label_with_nul :
    let server : DNSServer := ⟨ofString "a", [192, 168, 4, 1], [0, 0, 0, 60], .nonExistentDomain⟩
    let packet : List UInt8 := [0, 7, 1, 0, 0, 1, 0, 0, 0, 0, 0, 0] ++ [3, 0x61, 0, 0x62, 0,
      0, 1, 0, 1]
    respondToRequest server packet = .error .pastName := by
  decide

end Esp8266.Source.Dns
