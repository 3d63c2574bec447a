import Esp8266.Lib.Labels
import Esp8266.Source.MdnsTransfer

/-!
# Building and comparing domain names

A label is put behind those before, with its length in front and a zero behind it. The zero of a
label that fills the name to its last byte is stored outside of it. Two names that are closed are
compared label by label; an empty label inside of a name ends the comparison.
-/
set_option autoImplicit false

namespace Esp8266.Source.MdnsTransfer
open Esp8266.Lib.Labels Esp8266.Source.WString

/-! ## Stores -/

/-- A name has this text. -/
structure RRDomain.Named (d : RRDomain) (text : List UInt8) : Prop where
  length : d.nameLength = text.length
  stored : text <+: d.acName

namespace RRDomain

variable {d : RRDomain} {text : List UInt8}

theorem named_clear : Named clear [] := ⟨rfl, List.nil_prefix⟩

theorem Named.fits (named : d.Named text) : text.length ≤ domainMaxLength :=
  d.sized ▸ named.stored.length_le

/-- A store keeps the text in front of it, and stands behind it. -/
theorem Named.put (named : d.Named text) (bytes : List UInt8)
    (fits : text.length + bytes.length ≤ domainMaxLength) :
    ∃ d', d.put bytes = .ok d' ∧ d'.nameLength = d.nameLength ∧
      text ++ bytes <+: d'.acName := by
  rw [RRDomain.put, dif_pos (by rw [named.length]; exact fits)]
  refine ⟨_, rfl, rfl, ?_⟩
  have front : d.acName.take d.nameLength = text := by
    rw [named.length]
    exact (List.prefix_iff_eq_take.mp named.stored).symm
  simp only [front]
  exact List.prefix_append _ _

theorem Named.put_outside (named : d.Named text) (bytes : List UInt8)
    (beyond : domainMaxLength < text.length + bytes.length) : d.put bytes = .error .outside := by
  rw [RRDomain.put, dif_neg (by rw [named.length]; omega)]

theorem Named.push (named : d.Named text) (value : UInt8) (fits : text.length < domainMaxLength) :
    ∃ d', d.push value = .ok d' ∧ d'.Named (text ++ [value]) := by
  obtain ⟨d', stored, length, text'⟩ := named.put [value] fits
  refine ⟨d'.advance 1, by rw [RRDomain.push, stored]; rfl, ⟨?_, text'⟩⟩
  rw [advance, length, named.length, List.length_append, List.length_singleton]

/-! ## addLabel -/

/-- `addLabel` accepts a label behind so many bytes. -/
def Fits (length : Nat) (label : WString) : Prop :=
  label.length ≤ 63 ∧ length + (1 + label.length) ≤ domainMaxLength

instance (length : Nat) (label : WString) : Decidable (Fits length label) :=
  inferInstanceAs (Decidable (_ ∧ _))

/-- What is stored of a label. -/
def labelText (label : Option WString) (prependUnderline : Bool) : WString :=
  match label with
  | none => []
  | some label => if prependUnderline then 0x5f :: cstr label else cstr label

theorem length_labelText (label : Option WString) (prepend : Bool) :
    (labelText label prepend).length = labelLength label prepend := by
  cases label with
  | none => rfl
  | some label => cases prepend <;> rfl

/-- What is stored of a label behind its length. -/
theorem Named.storeText (named : d.Named text) (label : Option WString) (prepend : Bool)
    (some : labelText label prepend ≠ [])
    (fits : text.length + (labelText label prepend).length ≤ domainMaxLength) :
    ∃ d', (d.pushUnderline prepend >>= fun d =>
        d.put ((label.map cstr).getD []) >>= fun d =>
          .ok (d.advance ((label.map cstr).getD []).length)) = Except.ok d' ∧
      d'.Named (text ++ labelText label prepend) := by
  cases label with
  | none => exact absurd rfl some
  | some label =>
    cases prepend with
    | false =>
      obtain ⟨d', stored, length, text'⟩ := named.put (cstr label) fits
      refine ⟨d'.advance (cstr label).length, ?_, ⟨?_, text'⟩⟩
      · change (d.put (cstr label) >>= fun d => Except.ok (d.advance (cstr label).length)) = _
        rw [stored]
        rfl
      · rw [advance, length, named.length]
        exact List.length_append.symm
    | true =>
      change text.length + ((cstr label).length + 1) ≤ domainMaxLength at fits
      obtain ⟨d', pushed, named'⟩ := named.push 0x5f (by omega)
      obtain ⟨d'', stored, length, text'⟩ := named'.put (cstr label) (by
        rw [List.length_append, List.length_singleton]
        omega)
      refine ⟨d''.advance (cstr label).length, ?_, ⟨?_, ?_⟩⟩
      · change (d.push 0x5f >>= fun d => d.put (cstr label) >>= fun d =>
          Except.ok (d.advance (cstr label).length)) = _
        rw [pushed]
        change (d'.put (cstr label) >>= fun d =>
          Except.ok (d.advance (cstr label).length)) = _
        rw [stored]
        rfl
      · rw [advance, length, named'.length, List.length_append, List.length_append]
        change _ = text.length + ((cstr label).length + 1)
        rw [List.length_singleton]
        simp only
        omega
      · rw [List.append_assoc] at text'
        exact text'

theorem addLabel_refused (label : Option WString) (prepend : Bool)
    (beyond : ¬ Fits d.nameLength (labelText label prepend)) :
    d.addLabel label prepend = .ok (false, d) := by
  rw [Fits, length_labelText] at beyond
  rw [addLabel, if_neg beyond]

theorem addLabel_eq (label : Option WString) (prepend : Bool)
    (fits : Fits d.nameLength (labelText label prepend)) :
    d.addLabel label prepend =
      (d.push (UInt8.ofNat (labelText label prepend).length) >>= fun d =>
        if (labelText label prepend).length = 0 then .ok (true, d)
        else
          (d.pushUnderline prepend >>= fun d =>
            d.put ((label.map cstr).getD []) >>= fun d =>
              .ok (d.advance ((label.map cstr).getD []).length)) >>= fun d =>
                d.put [0] >>= fun d => .ok (true, d)) := by
  rw [Fits] at fits
  rw [length_labelText] at fits ⊢
  rw [addLabel, if_pos fits]
  refine bind_congr fun d => ?_
  split
  · rfl
  · rw [bind_assoc]
    refine bind_congr fun d => ?_
    rw [bind_assoc]
    rfl

/-- A label that is accepted, and does not end with the name's last byte. -/
theorem Named.addLabel (named : d.Named text) (label : Option WString) (prepend : Bool)
    (fits : Fits text.length (labelText label prepend))
    (spare : labelText label prepend ≠ [] →
      text.length + (1 + (labelText label prepend).length) < domainMaxLength) :
    ∃ d', d.addLabel label prepend = .ok (true, d') ∧
      d'.Named (text ++ wire [labelText label prepend]) := by
  obtain ⟨d', pushed, named'⟩ :=
    named.push (UInt8.ofNat (labelText label prepend).length) (by have := fits.2; omega)
  rw [addLabel_eq label prepend (by rw [named.length]; exact fits), pushed]
  change ∃ d', (if (labelText label prepend).length = 0 then _ else _) = _ ∧ _
  by_cases none : labelText label prepend = []
  · rw [if_pos (by rw [none]; rfl)]
    refine ⟨d', rfl, ?_⟩
    rw [none] at named' ⊢
    exact named'
  · rw [if_neg (fun zero => none (List.eq_nil_of_length_eq_zero zero))]
    have room := spare none
    obtain ⟨d'', stored, named''⟩ := named'.storeText label prepend none (by
      rw [List.length_append, List.length_singleton]
      omega)
    obtain ⟨final, closed, length, text'⟩ := named''.put [0] (by
      rw [List.length_append, List.length_append, List.length_singleton, List.length_singleton]
      omega)
    rw [stored]
    change ∃ d', (d''.put [0] >>= fun d => Except.ok (true, d)) = _ ∧ _
    rw [closed]
    have whole : text ++ wire [labelText label prepend] =
        text ++ [UInt8.ofNat (labelText label prepend).length] ++ labelText label prepend := by
      rw [wire_cons, wire_nil, List.append_nil, List.append_assoc]
      rfl
    refine ⟨final, rfl, ⟨?_, ?_⟩⟩
    · rw [length, named''.length, whole]
    · rw [whole]
      exact (List.prefix_append _ _).trans text'

/-- A label that ends with the name's last byte: the zero behind it is stored outside. -/
theorem Named.addLabel_outside (named : d.Named text) (label : Option WString) (prepend : Bool)
    (fits : Fits text.length (labelText label prepend)) (some : labelText label prepend ≠ [])
    (full : text.length + (1 + (labelText label prepend).length) = domainMaxLength) :
    d.addLabel label prepend = .error .outside := by
  obtain ⟨d', pushed, named'⟩ :=
    named.push (UInt8.ofNat (labelText label prepend).length) (by omega)
  obtain ⟨d'', stored, named''⟩ := named'.storeText label prepend some (by
    rw [List.length_append, List.length_singleton]
    omega)
  have outside := named''.put_outside [0] (by
    rw [List.length_append, List.length_append, List.length_singleton, List.length_singleton]
    omega)
  rw [addLabel_eq label prepend (by rw [named.length]; exact fits), pushed]
  change (if (labelText label prepend).length = 0 then _ else _) = _
  rw [if_neg (fun zero => some (List.eq_nil_of_length_eq_zero zero)), stored]
  change (d''.put [0] >>= fun d => Except.ok (true, d)) = _
  rw [outside]
  rfl

end RRDomain

/-! ## Sequences of calls -/

/-- The arguments of `addLabel`. -/
abbrev LabelCall := Option WString × Bool

def LabelCall.text (call : LabelCall) : WString := RRDomain.labelText call.1 call.2

/-- The results of a sequence of calls, and the name behind them. -/
def addLabels : List LabelCall → RRDomain → Except Fault (List Bool × RRDomain)
  | [], d => .ok ([], d)
  | call :: calls, d => do
    let (result, d) ← d.addLabel call.1 call.2
    let (results, d) ← addLabels calls d
    return (result :: results, d)

/-- The labels of the calls that returned true. -/
def accepted (calls : List LabelCall) (results : List Bool) : List WString :=
  ((calls.zip results).filter (·.2)).map (·.1.text)

/-- The labels that are accepted behind so many bytes. -/
def fitting : Nat → List LabelCall → List WString
  | _, [] => []
  | length, call :: calls =>
    if RRDomain.Fits length call.text then
      call.text :: fitting (length + (1 + call.text.length)) calls
    else fitting length calls

/-- No label that is accepted behind so many bytes ends with the name's last byte. -/
def Spare : Nat → List LabelCall → Prop
  | _, [] => True
  | length, call :: calls =>
    if RRDomain.Fits length call.text then
      (call.text ≠ [] → length + (1 + call.text.length) ≠ domainMaxLength) ∧
        Spare (length + (1 + call.text.length)) calls
    else Spare length calls

theorem Spare.behind {length : Nat} {call : LabelCall} {calls : List LabelCall}
    (spare : Spare length (call :: calls)) (fits : RRDomain.Fits length call.text) :
    (call.text ≠ [] → length + (1 + call.text.length) ≠ domainMaxLength) ∧
      Spare (length + (1 + call.text.length)) calls := by
  rwa [Spare, if_pos fits] at spare

theorem length_wire_singleton (label : List UInt8) : (wire [label]).length = 1 + label.length := by
  rw [wire_cons, wire_nil, List.append_nil, List.length_cons, Nat.add_comm]

theorem wire_append (labels more : List (List UInt8)) :
    wire (labels ++ more) = wire labels ++ wire more := List.flatMap_append

theorem wire_cons_append (label : List UInt8) (labels : List (List UInt8)) :
    wire (label :: labels) = wire [label] ++ wire labels := wire_append [label] labels

theorem length_wire (labels : List (List UInt8)) :
    (wire labels).length = (labels.map fun label => 1 + label.length).sum := by
  induction labels with
  | nil => rfl
  | cons label labels ih =>
    rw [wire_cons_append, List.length_append, length_wire_singleton, ih, List.map_cons,
      List.sum_cons]

/-- The calls go on behind a name, unless one of them stores outside. -/
theorem addLabels_spare (calls : List LabelCall) : ∀ {d : RRDomain} {text : List UInt8},
    d.Named text → Spare text.length calls →
      ∃ results d', addLabels calls d = .ok (results, d') ∧
        accepted calls results = fitting text.length calls ∧
        d'.Named (text ++ wire (fitting text.length calls)) := by
  induction calls with
  | nil =>
    intro d text named _
    exact ⟨[], d, rfl, rfl, by rw [fitting, wire_nil, List.append_nil]; exact named⟩
  | cons call calls ih =>
    intro d text named spare
    rw [Spare] at spare
    rw [fitting]
    by_cases fits : RRDomain.Fits text.length call.text
    · rw [if_pos fits] at spare ⊢
      obtain ⟨d', added, named'⟩ := named.addLabel call.1 call.2 fits (fun some => by
        have := spare.1 some
        have := fits.2
        change _ + (1 + call.text.length) < _
        omega)
      have length : (text ++ wire [call.text]).length = text.length + (1 + call.text.length) := by
        rw [List.length_append, length_wire_singleton]
      change d'.Named (text ++ wire [call.text]) at named'
      have further := ih named'
      rw [length] at further
      obtain ⟨results, d'', rest, kept, named''⟩ := further spare.2
      refine ⟨true :: results, d'', ?_, ?_, ?_⟩
      · rw [addLabels, added]
        change (addLabels calls d' >>= _) = _
        rw [rest]
        rfl
      · rw [← kept]
        rfl
      · rw [wire_cons_append, ← List.append_assoc]
        exact named''
    · rw [if_neg fits] at spare ⊢
      obtain ⟨results, d', rest, kept, named'⟩ := ih named spare
      refine ⟨false :: results, d', ?_, kept, named'⟩
      rw [addLabels, RRDomain.addLabel_refused call.1 call.2 (by rw [named.length]; exact fits)]
      change (addLabels calls d >>= _) = _
      rw [rest]
      rfl

theorem addLabels_full (calls : List LabelCall) : ∀ {d : RRDomain} {text : List UInt8},
    d.Named text → ¬ Spare text.length calls → addLabels calls d = .error .outside := by
  induction calls with
  | nil =>
    intro d text _ full
    exact absurd trivial full
  | cons call calls ih =>
    intro d text named full
    rw [Spare] at full
    by_cases fits : RRDomain.Fits text.length call.text
    · rw [if_pos fits] at full
      by_cases last : call.text ≠ [] ∧ text.length + (1 + call.text.length) = domainMaxLength
      · rw [addLabels, named.addLabel_outside call.1 call.2 fits last.1 last.2]
        rfl
      · have room : call.text ≠ [] → text.length + (1 + call.text.length) ≠ domainMaxLength :=
          fun some same => last ⟨some, same⟩
        obtain ⟨d', added, named'⟩ := named.addLabel call.1 call.2 fits (fun some => by
          have := room some
          have := fits.2
          change _ + (1 + call.text.length) < _
          omega)
        have further := ih named'
        rw [List.length_append, length_wire_singleton] at further
        rw [addLabels, added]
        change (addLabels calls d' >>= _) = _
        rw [further fun spare => full ⟨room, spare⟩]
        rfl
    · rw [if_neg fits] at full
      rw [addLabels, RRDomain.addLabel_refused call.1 call.2 (by rw [named.length]; exact fits)]
      change (addLabels calls d >>= _) = _
      rw [ih named full]
      rfl

/-! ## compare -/

/-- What `compare` finds of the labels of two closed names. -/
def agree : List WString → List WString → Bool
  | label :: labels, other :: others =>
    label.length = other.length && Mdns.sameContent label other &&
      (label = [] || agree labels others)
  | _, _ => false

namespace RRDomain

theorem label_at {d : RRDomain} {front : List UInt8} {label : WString} {labels : List WString}
    (stored : front ++ wire (label :: labels) <+: d.acName) :
    d.acName[front.length]? = some (UInt8.ofNat label.length) ∧
      front.length + 1 + label.length ≤ domainMaxLength ∧
      (d.acName.drop (front.length + 1)).take label.length = label := by
  obtain ⟨rest, whole⟩ := stored
  rw [wire_cons] at whole
  refine ⟨?_, ?_, ?_⟩
  · rw [← whole, List.append_assoc, List.getElem?_append_right (Nat.le_refl _), Nat.sub_self]
    rfl
  · have sized := d.sized
    rw [← whole] at sized
    simp only [List.length_append, List.length_cons] at sized
    omega
  · have behind : d.acName =
        front ++ [UInt8.ofNat label.length] ++ (label ++ (wire labels ++ rest)) := by
      rw [← whole]
      simp only [List.append_assoc, List.cons_append, List.nil_append]
    have length : front.length + 1 = (front ++ [UInt8.ofNat label.length]).length := by
      rw [List.length_append, List.length_singleton]
    rw [behind, length, List.drop_left, List.take_left]

theorem compareLoop_eq {d other : RRDomain} (labels : List WString) :
    ∀ (others : List WString) (front front' : List UInt8) (fuel : Nat),
      front ++ wire labels <+: d.acName → front' ++ wire others <+: other.acName →
      front'.length = front.length → (∀ label ∈ labels, label.length ≤ 63) →
      (∀ label ∈ others, label.length ≤ 63) → [] ∈ labels → [] ∈ others →
      domainMaxLength < front.length + fuel →
      compareLoop d other fuel front.length = .ok (agree labels others) := by
  induction labels with
  | nil => intro _ _ _ _ _ _ _ _ _ closed; exact absurd closed List.not_mem_nil
  | cons label labels ih =>
    intro others front front' fuel stored stored' places short short' closed closed' enough
    cases others with
    | nil => exact absurd closed' List.not_mem_nil
    | cons label' others =>
      obtain ⟨first, inside, text⟩ := label_at stored
      obtain ⟨first', -, text'⟩ := label_at stored'
      rw [places] at first' text'
      have small := short _ List.mem_cons_self
      have small' := short' _ List.mem_cons_self
      obtain ⟨fuel, rfl⟩ : ∃ fuel', fuel = fuel' + 1 := Nat.exists_eq_succ_of_ne_zero (by omega)
      have length : (UInt8.ofNat label.length).toNat = label.length :=
        UInt8.toNat_ofNat_of_lt (show label.length < 256 by omega)
      have length' : (UInt8.ofNat label'.length).toNat = label'.length :=
        UInt8.toNat_ofNat_of_lt (show label'.length < 256 by omega)
      rw [compareLoop, first, first', agree]
      simp only
      by_cases same : label.length = label'.length
      · rw [same] at text inside length ⊢
        rw [if_neg (fun differs => differs rfl), length, if_neg (by omega), text, text',
          decide_eq_true rfl, Bool.true_and]
        by_cases content : Mdns.sameContent label label' = true
        · rw [content, Bool.not_true, if_neg Bool.false_ne_true, Bool.true_and]
          by_cases empty : label = []
          · have zero : UInt8.ofNat label'.length = 0 := by
              rw [← same, empty]
              rfl
            rw [if_pos zero, decide_eq_true empty]
            rfl
          · have some : UInt8.ofNat label'.length ≠ 0 := by
              intro zero
              rw [zero] at length
              exact empty (List.eq_nil_of_length_eq_zero (by rw [same]; exact length.symm))
            rw [if_neg some, decide_eq_false empty, Bool.false_or]
            have next := ih others (front ++ wire [label]) (front' ++ wire [label']) fuel
              (by rw [List.append_assoc, ← wire_append]; exact stored)
              (by rw [List.append_assoc, ← wire_append]; exact stored')
              (by rw [List.length_append, List.length_append, length_wire_singleton,
                length_wire_singleton, places, same])
              (fun l mem => short l (List.mem_cons_of_mem _ mem))
              (fun l mem => short' l (List.mem_cons_of_mem _ mem))
              ((List.mem_cons.mp closed).resolve_left fun nil => empty nil.symm)
              ((List.mem_cons.mp closed').resolve_left fun nil => empty (by
                rw [← nil] at same
                exact List.eq_nil_of_length_eq_zero same))
              (by rw [List.length_append, length_wire_singleton]; omega)
            rw [List.length_append, length_wire_singleton, same] at next
            rw [show front.length + 1 + label'.length = front.length + (1 + label'.length) by omega]
            exact next
        · rw [Bool.not_eq_true] at content
          rw [content, Bool.not_false, if_pos rfl]
          rfl
      · have differs : UInt8.ofNat label.length ≠ UInt8.ofNat label'.length := by
          intro eq
          have := congrArg UInt8.toNat eq
          rw [length, length'] at this
          exact same this
        rw [if_pos differs, decide_eq_false same]
        rfl

/-- The comparison of closed names. -/
theorem compare_closed {d other : RRDomain} {labels others : List WString}
    (named : d.Named (wire (labels ++ [[]]))) (named' : other.Named (wire (others ++ [[]])))
    (short : ∀ label ∈ labels, label.length ≤ 63) (short' : ∀ label ∈ others, label.length ≤ 63) :
    d.compare other =
      .ok (decide ((wire labels).length = (wire others).length) &&
        agree (labels ++ [[]]) (others ++ [[]])) := by
  have closes : ∀ labels : List WString, (∀ label ∈ labels, label.length ≤ 63) →
      ∀ label ∈ labels ++ [[]], label.length ≤ 63 := by
    intro labels short label mem
    rcases List.mem_append.mp mem with mem | mem
    · exact short label mem
    · rw [List.mem_singleton.mp mem]
      exact Nat.zero_le _
  have last : ∀ labels : List WString, [] ∈ labels ++ [([] : WString)] := fun labels =>
    List.mem_append_right _ (List.mem_singleton_self _)
  have loop := compareLoop_eq (labels ++ [[]]) (others ++ [[]]) [] [] (domainMaxLength + 1)
    (by rw [List.nil_append]; exact named.stored) (by rw [List.nil_append]; exact named'.stored)
    rfl (closes labels short) (closes others short') (last labels) (last others)
    (by rw [List.length_nil]; omega)
  rw [List.length_nil] at loop
  rw [compare, named.length, named'.length, wire_append, wire_append, List.length_append,
    List.length_append, loop]
  by_cases same : (wire labels).length = (wire others).length
  · rw [if_pos (by rw [same]), decide_eq_true same, Bool.true_and]
  · rw [if_neg (fun eq => same (Nat.add_right_cancel eq)), decide_eq_false same]
    rfl

end RRDomain

/-! ## Names that are built and compared -/

/-- Labels without the case of letters. -/
def foldCase (labels : List WString) : List WString := labels.map (·.map Mdns.toLower)

/-- The labels in front of the first empty one. -/
def visible (labels : List WString) : List WString := labels.takeWhile (· ≠ [])

theorem sameContent_plain {s t : WString} (plain : 0 ∉ s) (plain' : 0 ∉ t) :
    Mdns.sameContent s t = true ↔ s.map Mdns.toLower = t.map Mdns.toLower := by
  rw [Mdns.sameContent, decide_eq_true_eq, cstr_of_not_mem plain, cstr_of_not_mem plain']

theorem visible_nil (labels : List WString) : visible ([] :: labels) = [] :=
  List.takeWhile_cons_of_neg (by exact of_decide_eq_true rfl)

theorem visible_cons {label : WString} (some : label ≠ []) (labels : List WString) :
    visible (label :: labels) = label :: visible labels :=
  List.takeWhile_cons_of_pos (decide_eq_true some)

theorem foldCase_visible_cons {label : WString} (some : label ≠ []) (labels : List WString) :
    foldCase (visible (label :: labels)) = label.map Mdns.toLower :: foldCase (visible labels) := by
  rw [visible_cons some, foldCase, List.map_cons]
  rfl

theorem agree_iff (labels : List WString) : ∀ others : List WString,
    (∀ label ∈ labels, 0 ∉ label) → (∀ label ∈ others, 0 ∉ label) →
    (agree (labels ++ [[]]) (others ++ [[]]) = true ↔
      foldCase (visible labels) = foldCase (visible others)) := by
  induction labels with
  | nil =>
    intro others _ _
    cases others with
    | nil => exact iff_of_true rfl rfl
    | cons other others =>
      by_cases empty : other = []
      · subst empty
        rw [visible_nil]
        exact iff_of_true rfl rfl
      · have differs : ¬ ([] : WString).length = other.length := fun zero =>
          empty (List.eq_nil_of_length_eq_zero zero.symm)
        rw [List.nil_append, List.cons_append, agree, decide_eq_false differs,
          foldCase_visible_cons empty]
        exact iff_of_false Bool.false_ne_true (List.cons_ne_nil _ _).symm
  | cons label labels ih =>
    intro others plain plain'
    have plain₁ : 0 ∉ label := plain _ List.mem_cons_self
    cases others with
    | nil =>
      by_cases empty : label = []
      · subst empty
        rw [visible_nil]
        exact iff_of_true rfl rfl
      · have differs : ¬ label.length = ([] : WString).length := fun zero =>
          empty (List.eq_nil_of_length_eq_zero zero)
        rw [List.nil_append, List.cons_append, agree, decide_eq_false differs,
          foldCase_visible_cons empty]
        exact iff_of_false Bool.false_ne_true (List.cons_ne_nil _ _)
    | cons other others =>
      have plain₂ : 0 ∉ other := plain' _ List.mem_cons_self
      have rest := ih others (fun l mem => plain l (List.mem_cons_of_mem _ mem))
        (fun l mem => plain' l (List.mem_cons_of_mem _ mem))
      have first : (decide (label.length = other.length) && Mdns.sameContent label other) = true ↔
          label.map Mdns.toLower = other.map Mdns.toLower := by
        rw [Bool.and_eq_true, decide_eq_true_eq, sameContent_plain plain₁ plain₂]
        refine ⟨And.right, fun same => ⟨?_, same⟩⟩
        have := congrArg List.length same
        rwa [List.length_map, List.length_map] at this
      rw [List.cons_append, List.cons_append, agree, Bool.and_eq_true, first, Bool.or_eq_true,
        decide_eq_true_eq, rest]
      by_cases empty : label = []
      · subst empty
        rw [visible_nil]
        by_cases empty' : other = []
        · subst empty'
          rw [visible_nil]
          exact iff_of_true ⟨rfl, .inl rfl⟩ rfl
        · rw [foldCase_visible_cons empty']
          exact iff_of_false (fun both => empty' (List.map_eq_nil_iff.mp both.1.symm))
            (List.cons_ne_nil _ _).symm
      · rw [foldCase_visible_cons empty, or_iff_right empty]
        by_cases empty' : other = []
        · subst empty'
          rw [visible_nil]
          exact iff_of_false (fun both => empty (List.map_eq_nil_iff.mp both.1))
            (List.cons_ne_nil _ _)
        · rw [foldCase_visible_cons empty', List.cons.injEq]

theorem fitting_short (calls : List LabelCall) : ∀ length,
    ∀ label ∈ fitting length calls, label.length ≤ 63 ∧ 0 ∉ label := by
  induction calls with
  | nil => intro _ label mem; exact absurd mem List.not_mem_nil
  | cons call calls ih =>
    intro length label mem
    rw [fitting] at mem
    split at mem
    · rename_i fits
      rcases List.mem_cons.mp mem with rfl | mem
      · refine ⟨fits.1, ?_⟩
        obtain ⟨text, prepend⟩ := call
        cases text with
        | none => exact List.not_mem_nil
        | some text =>
          cases prepend with
          | false => exact not_mem_cstr text
          | true =>
            rintro (- | ⟨_, mem⟩)
            exact not_mem_cstr text mem
      · exact ih _ label mem
    · exact ih _ label mem

/-- The call that closes a name. -/
def closing : LabelCall := (none, false)

/-- What is said of a name that is built: no store leaves the array, and it has the labels that
were accepted. -/
def Built (calls : List LabelCall) : Prop :=
  ∃ results d, addLabels calls .clear = .ok (results, d) ∧
    d.nameLength = ((accepted calls results).map fun label => 1 + label.length).sum ∧
    wire (accepted calls results) <+: d.acName

/-- What is said of two names that are built and closed: they are compared as their labels. -/
def Compared (calls calls' : List LabelCall) : Prop :=
  ∀ results results' d d',
    addLabels (calls ++ [closing]) .clear = .ok (results ++ [true], d) →
    addLabels (calls' ++ [closing]) .clear = .ok (results' ++ [true], d') →
    ∃ same, d.compare d' = .ok same ∧
      (same = true ↔ foldCase (accepted calls results) = foldCase (accepted calls' results'))

/-- Two names of one length that agree up to an empty label inside of both and not behind it. -/
def Hidden (calls calls' : List LabelCall) : Prop :=
  (wire (fitting 0 calls)).length < domainMaxLength ∧
    (wire (fitting 0 calls)).length = (wire (fitting 0 calls')).length ∧
    foldCase (visible (fitting 0 calls)) = foldCase (visible (fitting 0 calls')) ∧
    foldCase (fitting 0 calls) ≠ foldCase (fitting 0 calls')

theorem built_iff (calls : List LabelCall) : Built calls ↔ Spare 0 calls := by
  constructor
  · rintro ⟨results, d, added, -⟩
    by_contra full
    rw [addLabels_full calls RRDomain.named_clear full] at added
    cases added
  · intro spare
    obtain ⟨results, d, added, kept, named⟩ := addLabels_spare calls RRDomain.named_clear spare
    rw [List.length_nil] at kept named
    rw [← kept, List.nil_append] at named
    exact ⟨results, d, added, by rw [named.length, length_wire], named.stored⟩

theorem addLabels_append (calls more : List LabelCall) : ∀ d : RRDomain,
    addLabels (calls ++ more) d = (addLabels calls d >>= fun (results, d) =>
      addLabels more d >>= fun (results', d) => .ok (results ++ results', d)) := by
  induction calls with
  | nil =>
    intro d
    change addLabels more d = (addLabels more d >>= fun (results', d) => .ok (results', d))
    cases addLabels more d <;> rfl
  | cons call calls ih =>
    intro d
    rw [List.cons_append, addLabels, addLabels, bind_assoc]
    refine bind_congr fun (result, d) => ?_
    simp only
    rw [ih, bind_assoc, bind_assoc]
    refine bind_congr fun (results, d) => ?_
    simp only
    rw [bind_assoc, pure_bind]
    simp only
    cases addLabels more d <;> rfl

/-- A name is closed if a byte is left. -/
theorem addLabels_close {calls : List LabelCall} (spare : Spare 0 calls) :
    ∃ results d, addLabels (calls ++ [closing]) .clear =
        .ok (results ++ [decide ((wire (fitting 0 calls)).length < domainMaxLength)], d) ∧
      accepted calls results = fitting 0 calls ∧
      ((wire (fitting 0 calls)).length < domainMaxLength →
        d.Named (wire (fitting 0 calls ++ [[]]))) := by
  obtain ⟨results, d, added, kept, named⟩ := addLabels_spare calls RRDomain.named_clear spare
  rw [List.length_nil, List.nil_append] at named
  rw [List.length_nil] at kept
  by_cases room : (wire (fitting 0 calls)).length < domainMaxLength
  · obtain ⟨d', closed, named'⟩ := named.addLabel none false ⟨Nat.zero_le _, room⟩
      fun some => absurd rfl some
    refine ⟨results, d', ?_, kept, fun _ => by rw [wire_append]; exact named'⟩
    rw [addLabels_append, added, decide_eq_true room]
    change (d.addLabel none false >>= _) >>= _ = _
    rw [closed]
    rfl
  · refine ⟨results, d, ?_, kept, fun room' => absurd room' room⟩
    rw [addLabels_append, added, decide_eq_false room]
    change (d.addLabel none false >>= _) >>= _ = _
    rw [RRDomain.addLabel_refused none false (fun fits => room (by
      rw [← named.length]
      exact fits.2))]
    rfl

theorem foldCase_visible (labels : List WString) :
    foldCase (visible labels) = visible (foldCase labels) := by
  induction labels with
  | nil => rfl
  | cons label labels ih =>
    by_cases empty : label = []
    · subst empty
      rw [visible_nil]
      exact (visible_nil _).symm
    · rw [foldCase_visible_cons empty, ih]
      exact (visible_cons (fun nil => empty (List.map_eq_nil_iff.mp nil)) _).symm

theorem length_wire_foldCase (labels : List WString) :
    (wire (foldCase labels)).length = (wire labels).length := by
  rw [length_wire, length_wire, foldCase, List.map_map]
  congr 2
  funext label
  exact congrArg (1 + ·) (List.length_map _)

theorem compared_iff {calls calls' : List LabelCall} (spare : Spare 0 calls)
    (spare' : Spare 0 calls') : Compared calls calls' ↔ ¬ Hidden calls calls' := by
  obtain ⟨found, d, closed, kept, named⟩ := addLabels_close spare
  obtain ⟨found', d', closed', kept', named'⟩ := addLabels_close spare'
  have compared : (wire (fitting 0 calls)).length < domainMaxLength →
      (wire (fitting 0 calls')).length < domainMaxLength → ∃ same, d.compare d' = .ok same ∧
        (same = true ↔ (wire (fitting 0 calls)).length = (wire (fitting 0 calls')).length ∧
          foldCase (visible (fitting 0 calls)) = foldCase (visible (fitting 0 calls'))) := by
    intro room room'
    refine ⟨_, RRDomain.compare_closed (named room) (named' room')
      (fun label mem => (fitting_short calls 0 label mem).1)
      (fun label mem => (fitting_short calls' 0 label mem).1), ?_⟩
    rw [Bool.and_eq_true, decide_eq_true_eq,
      agree_iff _ _ (fun label mem => (fitting_short calls 0 label mem).2)
        (fun label mem => (fitting_short calls' 0 label mem).2)]
  constructor
  · rintro all ⟨room, length, front, differs⟩
    rw [decide_eq_true room] at closed
    rw [decide_eq_true (length ▸ room)] at closed'
    obtain ⟨same, eq, iff⟩ := all found found' d d' closed closed'
    obtain ⟨same', eq', iff'⟩ := compared room (length ▸ room)
    rw [eq, Except.ok.injEq] at eq'
    rw [kept, kept'] at iff
    exact differs (iff.mp (eq' ▸ iff'.mpr ⟨length, front⟩))
  · intro shown results results' e e' done done'
    rw [closed, Except.ok.injEq, Prod.mk.injEq] at done
    rw [closed', Except.ok.injEq, Prod.mk.injEq] at done'
    obtain ⟨lists, rfl⟩ := done
    obtain ⟨lists', rfl⟩ := done'
    obtain ⟨rfl, last⟩ := List.append_inj' lists rfl
    obtain ⟨rfl, last'⟩ := List.append_inj' lists' rfl
    have room : (wire (fitting 0 calls)).length < domainMaxLength :=
      of_decide_eq_true (List.singleton_inj.mp last)
    have room' : (wire (fitting 0 calls')).length < domainMaxLength :=
      of_decide_eq_true (List.singleton_inj.mp last')
    obtain ⟨same, eq, iff⟩ := compared room room'
    refine ⟨same, eq, ?_⟩
    rw [iff, kept, kept']
    constructor
    · rintro ⟨length, front⟩
      by_contra differs
      exact shown ⟨room, length, front, differs⟩
    · intro labels
      refine ⟨?_, ?_⟩
      · rw [← length_wire_foldCase, labels, length_wire_foldCase]
      · rw [foldCase_visible, labels, foldCase_visible]

/-- Names are built inside of their arrays and compared as their labels, unless a label ends with
the last byte of a name, or the names agree up to an empty label inside of them. -/
theorem domain_built (calls calls' : List LabelCall) :
    (Built calls ∧ Built calls' ∧ Compared calls calls') ↔
      (Spare 0 calls ∧ Spare 0 calls' ∧ ¬ Hidden calls calls') := by
  rw [built_iff, built_iff]
  refine and_congr_right fun spare => and_congr_right fun spare' => ?_
  exact compared_iff spare spare'

/-- Four labels of 63 characters fill a name; the zero behind the last is stored behind it. -/
theorem domain_built_full :
    ¬ ∀ calls calls' : List LabelCall, Built calls ∧ Built calls' ∧ Compared calls calls' := by
  intro all
  have spare := (built_iff _).mp
    (all (List.replicate 4 (some (List.replicate 63 0x61), false)) []).1
  have fits : ∀ length, length + 64 ≤ domainMaxLength → RRDomain.Fits length
      (LabelCall.text (some (List.replicate 63 0x61), false)) :=
    fun length le => ⟨by decide, le⟩
  have first := spare.behind (fits _ (by decide))
  have second := first.2.behind (fits _ (by decide))
  have third := second.2.behind (fits _ (by decide))
  have fourth := third.2.behind (fits _ (by decide))
  exact fourth.1 (by decide) (by decide)

end Esp8266.Source.MdnsTransfer
