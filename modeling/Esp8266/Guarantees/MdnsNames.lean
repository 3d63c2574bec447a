import Esp8266.Guarantees.MdnsDomains
import Esp8266.Lib.Word16

/-!
# Reading domain names

A name on the wire is labels, a zero, and pointers to where it goes on. `_readRRDomain` follows it
inside of the packet and inside of `m_acName`, and ends on every packet. It does not notice that
there is no byte left: where a name begins it then has its end, and behind the first byte of a
pointer it takes that byte again. A length byte from 64 on is a pointer for it.
-/
set_option autoImplicit false

namespace Esp8266.Source.MdnsTransfer
open Esp8266.Lib.Labels Esp8266.Lib.Word16

/-! ## Names on the wire -/

/-- Where a pointer leads to. -/
def target (high low : UInt8) : Nat := high.toNat % 64 * 256 + low.toNat

variable (packet : List UInt8)

/-- At a position, with so many pointers at most, there is a name with these labels, and the
position behind it. -/
inductive Name : Nat → Nat → List (List UInt8) → Nat → Prop
  | root {pointers position : Nat} (zero : packet[position]? = some 0) :
      Name pointers position [] (position + 1)
  | label {pointers position next : Nat} {length : UInt8} {labels : List (List UInt8)}
      (first : packet[position]? = some length) (some : 0 < length.toNat)
      (plain : length.toNat < 64) (whole : position + 1 + length.toNat ≤ packet.length)
      (rest : Name pointers (position + 1 + length.toNat) labels next) :
      Name pointers position ((packet.drop (position + 1)).take length.toNat :: labels) next
  | pointer {pointers position next : Nat} {high low : UInt8} {labels : List (List UInt8)}
      (first : packet[position]? = some high) (marked : 0xc0 ≤ high.toNat)
      (second : packet[position + 1]? = some low)
      (rest : Name pointers (target high low) labels next) :
      Name (pointers + 1) position labels (position + 2)

/-- What `_readRRDomain` takes for a name behind so many bytes: the end of the packet where a name
begins, and every byte with a mark. -/
inductive Taken : Bool → Nat → Nat → Nat → Prop
  | ended {pointers length position : Nat} (room : length < domainMaxLength)
      (behind : packet.length ≤ position) : Taken true pointers length position
  | root {start : Bool} {pointers length position : Nat} (room : length < domainMaxLength)
      (zero : packet[position]? = some 0) : Taken start pointers length position
  | label {start : Bool} {pointers length position : Nat} {u8Len : UInt8}
      (first : packet[position]? = some u8Len) (some : 0 < u8Len.toNat)
      (plain : u8Len.toNat < 64) (whole : position + 1 + u8Len.toNat ≤ packet.length)
      (room : length + u8Len.toNat < domainMaxLength)
      (rest : Taken false pointers (length + (1 + u8Len.toNat)) (position + 1 + u8Len.toNat)) :
      Taken start pointers length position
  | pointer {start : Bool} {pointers length position : Nat} {high : UInt8}
      (first : packet[position]? = some high) (marked : 64 ≤ high.toNat)
      (valid : target high (packet[position + 1]?.getD high) ≤ packet.length)
      (rest : Taken true pointers length (target high (packet[position + 1]?.getD high))) :
      Taken start (pointers + 1) length position

/-- Labels and pointers lead to the end of the packet where a name begins; to a pointer without its
second byte, or to a byte from 64 to 191, that leads to what is taken for a name. -/
inductive Astray : Bool → Nat → Nat → Nat → Prop
  | ended {pointers length position : Nat} (room : length < domainMaxLength)
      (behind : packet.length ≤ position) : Astray true pointers length position
  | cut {start : Bool} {pointers length position : Nat} {high : UInt8}
      (first : packet[position]? = some high) (marked : 64 ≤ high.toNat)
      (last : packet[position + 1]? = none) (valid : target high high ≤ packet.length)
      (rest : Taken packet true pointers length (target high high)) :
      Astray start (pointers + 1) length position
  | reserved {start : Bool} {pointers length position : Nat} {high low : UInt8}
      (first : packet[position]? = some high) (marked : 64 ≤ high.toNat) (less : high.toNat < 0xc0)
      (second : packet[position + 1]? = some low) (valid : target high low ≤ packet.length)
      (rest : Taken packet true pointers length (target high low)) :
      Astray start (pointers + 1) length position
  | label {start : Bool} {pointers length position : Nat} {u8Len : UInt8}
      (first : packet[position]? = some u8Len) (some : 0 < u8Len.toNat)
      (plain : u8Len.toNat < 64) (whole : position + 1 + u8Len.toNat ≤ packet.length)
      (room : length + u8Len.toNat < domainMaxLength)
      (rest : Astray false pointers (length + (1 + u8Len.toNat)) (position + 1 + u8Len.toNat)) :
      Astray start pointers length position
  | pointer {start : Bool} {pointers length position : Nat} {high low : UInt8}
      (first : packet[position]? = some high) (marked : 0xc0 ≤ high.toNat)
      (second : packet[position + 1]? = some low) (valid : target high low ≤ packet.length)
      (rest : Astray true pointers length (target high low)) :
      Astray start (pointers + 1) length position

variable {packet : List UInt8}

theorem Astray.taken {start : Bool} {pointers length position : Nat}
    (astray : Astray packet start pointers length position) :
    Taken packet start pointers length position := by
  induction astray with
  | ended room behind => exact .ended room behind
  | cut first marked last valid rest =>
    refine .pointer first marked ?_ ?_ <;> rw [last]
    · exact valid
    · exact rest
  | reserved first marked _ second valid rest =>
    refine .pointer first marked ?_ ?_ <;> rw [second]
    · exact valid
    · exact rest
  | label first some plain whole room _ ih => exact .label first some plain whole room ih
  | pointer first marked second valid _ ih =>
    refine .pointer first (Nat.le_trans (by decide) marked) ?_ ?_ <;> rw [second]
    · exact valid
    · exact ih

/-- What is taken for a name is one, unless the way to it goes astray. -/
theorem Taken.name_or_astray {start : Bool} {pointers length position : Nat}
    (taken : Taken packet start pointers length position) :
    (∃ labels next, Name packet pointers position labels next) ∨
      Astray packet start pointers length position := by
  induction taken with
  | ended room behind => exact .inr (.ended room behind)
  | root _ zero => exact .inl ⟨[], _, .root zero⟩
  | label first some plain whole room _ ih =>
    rcases ih with ⟨labels, next, name⟩ | astray
    · exact .inl ⟨_, next, .label first some plain whole name⟩
    · exact .inr (.label first some plain whole room astray)
  | @pointer start pointers length position high first marked valid rest ih =>
    cases second : packet[position + 1]? with
    | none =>
      rw [second] at valid rest
      exact .inr (.cut first marked second valid rest)
    | some low =>
      rw [second] at valid rest ih
      by_cases pointer : 0xc0 ≤ high.toNat
      · rcases ih with ⟨labels, next, name⟩ | astray
        · exact .inl ⟨labels, _, .pointer first pointer second name⟩
        · exact .inr (.pointer first pointer second valid astray)
      · exact .inr (.reserved first marked (Nat.lt_of_not_le pointer) second valid rest)

/-- No name goes astray. -/
theorem Astray.no_name {start : Bool} {pointers length position : Nat}
    (astray : Astray packet start pointers length position) :
    ∀ labels next, ¬ Name packet pointers position labels next := by
  induction astray with
  | ended _ behind =>
    have none := List.getElem?_eq_none behind
    intro labels next name
    cases name with
    | root zero => exact Option.some_ne_none _ (zero.symm.trans none)
    | label first => exact Option.some_ne_none _ (first.symm.trans none)
    | pointer first => exact Option.some_ne_none _ (first.symm.trans none)
  | cut first marked last =>
    intro labels next name
    cases name with
    | root zero =>
      rw [Option.some.inj (first.symm.trans zero)] at marked
      exact absurd marked (by decide)
    | label first' _ plain =>
      rw [Option.some.inj (first.symm.trans first')] at marked
      omega
    | pointer _ _ second => exact Option.some_ne_none _ (second.symm.trans last)
  | reserved first marked less =>
    intro labels next name
    cases name with
    | root zero =>
      rw [Option.some.inj (first.symm.trans zero)] at marked
      exact absurd marked (by decide)
    | label first' _ plain =>
      rw [Option.some.inj (first.symm.trans first')] at marked
      omega
    | pointer first' marked' =>
      rw [Option.some.inj (first.symm.trans first')] at less
      omega
  | label first some plain _ _ _ ih =>
    intro labels next name
    cases name with
    | root zero =>
      rw [Option.some.inj (first.symm.trans zero)] at some
      exact absurd some (by decide)
    | label first' _ _ _ rest =>
      rw [← Option.some.inj (first.symm.trans first')] at rest
      exact ih _ _ rest
    | pointer first' marked =>
      rw [Option.some.inj (first.symm.trans first')] at plain
      omega
  | pointer first marked second _ _ ih =>
    intro labels next name
    cases name with
    | root zero =>
      rw [Option.some.inj (first.symm.trans zero)] at marked
      exact absurd marked (by decide)
    | label first' _ plain =>
      rw [Option.some.inj (first.symm.trans first')] at marked
      omega
    | pointer first' _ second' rest =>
      rw [← Option.some.inj (first.symm.trans first'),
        ← Option.some.inj (second.symm.trans second')] at rest
      exact ih _ _ rest

/-! ## Reading -/

theorem udpRead8_some {position : Nat} {b : UInt8} (first : packet[position]? = some b)
    (value : UInt8) : udpRead8 packet position value = (true, b, position + 1) := by
  obtain ⟨inside, byte⟩ := List.getElem?_eq_some_iff.mp first
  have cons : packet.drop position = b :: packet.drop (position + 1) := by
    rw [List.drop_eq_getElem_cons inside, byte]
  rw [udpRead8, udpReadBuffer, if_neg Nat.one_ne_zero, cons]
  rfl

theorem udpRead8_none {position : Nat} (behind : packet[position]? = none) (value : UInt8) :
    udpRead8 packet position value = (false, value, position) := by
  rw [udpRead8, udpReadBuffer, if_neg Nat.one_ne_zero,
    List.drop_eq_nil_of_le (List.getElem?_eq_none_iff.mp behind)]
  rfl

theorem marked_iff (b : UInt8) : b &&& 0xc0 ≠ 0 ↔ 64 ≤ b.toNat := by
  revert b
  exact forall_byte (by decide)

theorem toNat_unmarked (b : UInt8) : (b &&& ~~~0xc0).toNat = b.toNat % 64 := by
  revert b
  exact forall_byte (by decide)

theorem Taken.plain {start : Bool} {pointers length position : Nat} {b : UInt8}
    (taken : Taken packet start pointers length position) (first : packet[position]? = some b)
    (plain : b.toNat < 64) :
    length + b.toNat < domainMaxLength ∧ (b ≠ 0 →
      position + 1 + b.toNat ≤ packet.length ∧
        Taken packet false pointers (length + (1 + b.toNat)) (position + 1 + b.toNat)) := by
  cases taken with
  | ended _ behind =>
    exact absurd (first.symm.trans (List.getElem?_eq_none behind)) (Option.some_ne_none _)
  | root room zero =>
    obtain rfl := Option.some.inj (first.symm.trans zero)
    exact ⟨room, fun some => absurd rfl some⟩
  | label first' _ _ whole room rest =>
    obtain rfl := Option.some.inj (first.symm.trans first')
    exact ⟨room, fun _ => ⟨whole, rest⟩⟩
  | pointer first' marked =>
    obtain rfl := Option.some.inj (first.symm.trans first')
    omega

theorem Name.plain {pointers position next : Nat} {labels : List (List UInt8)} {b : UInt8}
    (name : Name packet pointers position labels next) (first : packet[position]? = some b)
    (plain : b.toNat < 64) :
    (b = 0 → labels = [] ∧ next = position + 1) ∧ (b ≠ 0 → ∃ labels',
      labels = (packet.drop (position + 1)).take b.toNat :: labels' ∧
        Name packet pointers (position + 1 + b.toNat) labels' next) := by
  cases name with
  | root zero =>
    obtain rfl := Option.some.inj (first.symm.trans zero)
    exact ⟨fun _ => ⟨rfl, rfl⟩, fun some => absurd rfl some⟩
  | label first' some _ _ rest =>
    obtain rfl := Option.some.inj (first.symm.trans first')
    refine ⟨fun zero => ?_, fun _ => ⟨_, rfl, rest⟩⟩
    rw [zero] at some
    exact absurd some (by decide)
  | pointer first' marked =>
    obtain rfl := Option.some.inj (first.symm.trans first')
    omega

theorem udpReadBuffer_length (position length : Nat) (some : length ≠ 0) :
    udpReadBuffer packet position length =
      (decide (((packet.drop position).take length).length = length),
        (packet.drop position).take length,
        position + ((packet.drop position).take length).length) := by
  rw [udpReadBuffer, if_neg some]

/-- What reading gives behind a text: whether there is a name is decided, and where there is one
it stands behind the text. -/
def Reads (taken : Prop) (name : List (List UInt8) → Nat → Prop) (text : List UInt8)
    (result : Except Fault (Bool × Nat × RRDomain)) : Prop :=
  ∃ found next d, result = .ok (found, next, d) ∧ (found = true ↔ taken) ∧
    (found = true → ∀ labels next', name labels next' →
      next = next' ∧ d.Named (text ++ (wire labels ++ [0])))

theorem Reads.failed {taken : Prop} {name : List (List UInt8) → Nat → Prop} {text : List UInt8}
    (next : Nat) (d : RRDomain) (not : ¬ taken) : Reads taken name text (.ok (false, next, d)) :=
  ⟨false, next, d, rfl, iff_of_false Bool.false_ne_true not, fun h => absurd h Bool.false_ne_true⟩

/-- A level of reading with so many pointers left. -/
def ReadsOn (packet : List UInt8) (start : Bool) (pointers position : Nat) (text : List UInt8) :
    Except Fault (Bool × Nat × RRDomain) → Prop :=
  Reads (Taken packet start pointers text.length position) (Name packet pointers position) text

/-- What a redirection with so many pointers left gives, that for a pointer included. -/
def Redirects (packet : List UInt8)
    (redirect : Nat → RRDomain → Except Fault (Bool × Nat × RRDomain)) : Nat → Prop
  | 0 => ∀ offset d, ∃ next d', redirect offset d = .ok (false, next, d')
  | pointers + 1 => ∀ (d : RRDomain) (text : List UInt8), d.Named text → ∀ offset,
    ReadsOn packet true pointers offset text (redirect offset d)

/-- A pointer is followed. -/
theorem readsOn_pointer {redirect : Nat → RRDomain → Except Fault (Bool × Nat × RRDomain)}
    {pointers position : Nat} (redirects : Redirects packet redirect pointers) {d : RRDomain}
    {text : List UInt8} (named : d.Named text) {high : UInt8} (start : Bool)
    (first : packet[position]? = some high) (marked : 64 ≤ high.toNat) :
    ReadsOn packet start pointers position text
      (if target high (packet[position + 1]?.getD high) ≤ packet.length then
        redirect (target high (packet[position + 1]?.getD high)) d >>= fun
          | (true, _, d) => .ok (true, (udpRead8 packet (position + 1) high).2.2, d)
          | (false, position, d) => .ok (false, position, d)
      else .ok (false, (udpRead8 packet (position + 1) high).2.2, d)) := by
  have follows : Taken packet start pointers text.length position →
      target high (packet[position + 1]?.getD high) ≤ packet.length ∧
        ∃ left, pointers = left + 1 ∧
          Taken packet true left text.length (target high (packet[position + 1]?.getD high)) := by
    intro taken
    cases taken with
    | ended _ behind =>
      rw [List.getElem?_eq_none behind] at first
      exact absurd first.symm (Option.some_ne_none _)
    | root _ zero =>
      rw [Option.some.inj (first.symm.trans zero)] at marked
      exact absurd marked (by decide)
    | label first' _ plain =>
      rw [Option.some.inj (first.symm.trans first')] at marked
      omega
    | pointer first' _ valid rest =>
      rw [← Option.some.inj (first.symm.trans first')] at valid rest
      exact ⟨valid, _, rfl, rest⟩
  split
  · rename_i valid
    cases pointers with
    | zero =>
      obtain ⟨next, d', failed⟩ := redirects (target high (packet[position + 1]?.getD high)) d
      rw [failed]
      exact Reads.failed _ _ fun taken => by
        obtain ⟨-, left, zero, -⟩ := follows taken
        exact Nat.succ_ne_zero left zero.symm
    | succ pointers =>
      obtain ⟨found, next, d', read, taken, stored⟩ :=
        redirects _ _ named (target high (packet[position + 1]?.getD high))
      rw [read]
      cases found with
      | false =>
        exact Reads.failed _ _ fun taken' => by
          obtain ⟨-, left, same, rest⟩ := follows taken'
          rw [← Nat.succ.inj same] at rest
          exact absurd (taken.mpr rest) Bool.false_ne_true
      | true =>
        refine ⟨true, _, d', rfl, iff_of_true rfl (.pointer first marked valid (taken.mp rfl)), ?_⟩
        intro _ labels next' name
        cases name with
        | root zero =>
          rw [Option.some.inj (first.symm.trans zero)] at marked
          exact absurd marked (by decide)
        | label first' _ plain =>
          rw [Option.some.inj (first.symm.trans first')] at marked
          omega
        | pointer first' _ second rest =>
          rw [← Option.some.inj (first.symm.trans first')] at rest
          rw [second] at stored
          exact ⟨by rw [udpRead8_some second], (stored rfl labels _ rest).2⟩
  · rename_i invalid
    exact Reads.failed _ _ fun taken => invalid (follows taken).1

theorem labelLoop_reads {redirect : Nat → RRDomain → Except Fault (Bool × Nat × RRDomain)}
    {pointers : Nat} (redirects : Redirects packet redirect pointers) :
    ∀ (fuel : Nat) {u8Len : UInt8} {d : RRDomain} {text : List UInt8} (position : Nat),
      d.Named text → u8Len.toNat < 64 → domainMaxLength < text.length + fuel →
      ReadsOn packet (u8Len = 0) pointers position text
        (labelLoop packet redirect fuel u8Len position d) := by
  intro fuel
  induction fuel with
  | zero =>
    intro u8Len d text position named _ enough
    have fits := named.fits
    omega
  | succ fuel ih =>
    intro u8Len d text position named small enough
    rw [labelLoop]
    cases first : packet[position]? with
    | none =>
      rw [udpRead8_none first]
      have empty : ∀ labels next, ¬ Name packet pointers position labels next := by
        intro labels next name
        cases name with
        | root zero => exact Option.some_ne_none _ (zero.symm.trans first)
        | label first' => exact Option.some_ne_none _ (first'.symm.trans first)
        | pointer first' => exact Option.some_ne_none _ (first'.symm.trans first)
      have only : Taken packet (u8Len = 0) pointers text.length position →
          u8Len = 0 ∧ text.length < domainMaxLength := by
        intro taken
        generalize begins : decide (u8Len = 0) = start at taken
        cases taken with
        | ended room _ => exact ⟨of_decide_eq_true begins, room⟩
        | root _ zero => exact absurd (zero.symm.trans first) (Option.some_ne_none _)
        | label first' => exact absurd (first'.symm.trans first) (Option.some_ne_none _)
        | pointer first' => exact absurd (first'.symm.trans first) (Option.some_ne_none _)
      simp only
      rw [if_neg (fun mark => absurd ((marked_iff u8Len).mp mark) (Nat.not_le_of_lt small)),
        named.length]
      by_cases room : text.length + u8Len.toNat < domainMaxLength
      · rw [if_pos room]
        obtain ⟨d', pushed, named'⟩ := named.push u8Len (by omega)
        rw [pushed]
        change ReadsOn _ _ _ _ _ (if u8Len = 0 then _ else _)
        by_cases zero : u8Len = 0
        · rw [if_pos zero]
          refine ⟨true, position, d', rfl, iff_of_true rfl ?_, fun _ labels next name =>
            absurd name (empty labels next)⟩
          rw [decide_eq_true zero]
          exact .ended (by omega) (List.getElem?_eq_none_iff.mp first)
        · have some : u8Len.toNat ≠ 0 := fun same => zero (UInt8.toNat_inj.mp same)
          rw [if_neg zero, udpReadBuffer_length position _ some,
            List.drop_eq_nil_of_le (List.getElem?_eq_none_iff.mp first), List.take_nil,
            List.length_nil, decide_eq_false some.symm]
          obtain ⟨d'', stored, -⟩ := named'.put [] named'.fits
          simp only
          rw [stored]
          exact Reads.failed _ _ fun taken => zero (only taken).1
      · rw [if_neg room]
        refine Reads.failed _ _ fun taken => room ?_
        rw [(only taken).1]
        exact (only taken).2
    | some b =>
      rw [udpRead8_some first]
      simp only
      by_cases marked : 64 ≤ b.toNat
      · rw [if_pos ((marked_iff b).mpr marked)]
        have follows := readsOn_pointer redirects named (decide (u8Len = 0)) first marked
        have low : (udpRead8 packet (position + 1) b).2.1 = packet[position + 1]?.getD b := by
          cases second : packet[position + 1]? with
          | none => rw [udpRead8_none second]; rfl
          | some low => rw [udpRead8_some second]; rfl
        have offset : (b &&& ~~~0xc0).toNat * 256 + (udpRead8 packet (position + 1) b).2.1.toNat =
            target b (packet[position + 1]?.getD b) := by
          rw [low, toNat_unmarked, target]
        simp only [offset]
        exact follows
      · have plain : b.toNat < 64 := Nat.lt_of_not_le marked
        rw [if_neg (fun mark => marked ((marked_iff b).mp mark)), named.length]
        by_cases room : text.length + b.toNat < domainMaxLength
        · rw [if_pos room]
          obtain ⟨d', pushed, named'⟩ := named.push b (by omega)
          rw [pushed]
          change ReadsOn _ _ _ _ _ (if b = 0 then _ else _)
          by_cases zero : b = 0
          · rw [if_pos zero]
            refine ⟨true, position + 1, d', rfl, iff_of_true rfl ?_, fun _ labels next name => ?_⟩
            · rw [zero] at first
              exact .root (by omega) first
            · obtain ⟨rfl, rfl⟩ := (name.plain first plain).1 zero
              rw [zero] at named'
              exact ⟨rfl, named'⟩
          · have some : b.toNat ≠ 0 := fun same => zero (UInt8.toNat_inj.mp same)
            rw [if_neg zero, udpReadBuffer_length (position + 1) _ some]
            generalize text' : (packet.drop (position + 1)).take b.toNat = buffer
            have short : buffer.length ≤ b.toNat := by
              rw [← text']
              exact List.length_take_le _ _
            obtain ⟨d'', stored, kept, before⟩ := named'.put buffer (by
              rw [List.length_append, List.length_singleton]
              omega)
            simp only
            rw [stored]
            change ReadsOn _ _ _ _ _ (if decide (buffer.length = b.toNat) = true then _ else _)
            have inside : position + 1 + b.toNat ≤ packet.length ↔ buffer.length = b.toNat := by
              have before := (List.getElem?_eq_some_iff.mp first).1
              rw [← text', List.length_take, List.length_drop]
              omega
            by_cases whole : buffer.length = b.toNat
            · rw [decide_eq_true whole, if_pos rfl, whole]
              have length : (text ++ [b] ++ buffer).length = text.length + (1 + b.toNat) := by
                rw [List.length_append, List.length_append, List.length_singleton, whole,
                  Nat.add_assoc]
              have named'' : (d''.advance b.toNat).Named (text ++ [b] ++ buffer) := by
                refine ⟨?_, before⟩
                rw [RRDomain.advance, kept, named'.length, ← whole]
                exact List.length_append.symm
              have further := ih (position + 1 + b.toNat) named'' plain (by omega)
              rw [ReadsOn, decide_eq_false zero, length] at further
              obtain ⟨found, next, last, read, taken, behind⟩ := further
              rw [read]
              refine ⟨found, next, last, rfl, taken.trans ⟨fun rest => ?_, fun taken => ?_⟩, ?_⟩
              · exact .label first (Nat.pos_of_ne_zero some) plain (inside.mpr whole) room rest
              · exact ((taken.plain first plain).2 zero).2
              · intro yes labels next' name
                obtain ⟨labels', rfl, rest⟩ := (name.plain first plain).2 zero
                obtain ⟨same, named⟩ := behind yes labels' next' rest
                refine ⟨same, ?_⟩
                rw [text', wire_cons, whole, UInt8.ofNat_toNat]
                rw [List.append_assoc, List.append_assoc] at named
                rw [List.cons_append, List.append_assoc]
                exact named
            · rw [decide_eq_false whole, if_neg Bool.false_ne_true]
              exact Reads.failed _ _ fun taken =>
                whole (inside.mp ((taken.plain first plain).2 zero).1)
        · rw [if_neg room]
          exact Reads.failed _ _ fun taken => room (taken.plain first plain).1

theorem readRRDomainLoop_reads (pointers : Nat) :
    ∀ {d : RRDomain} {text : List UInt8} (position : Nat), d.Named text →
      ReadsOn packet true pointers position text
        (readRRDomainLoop packet (pointers + 1) position d) := by
  induction pointers with
  | zero =>
    intro d text position named
    have redirects : Redirects packet (readRRDomainLoop packet 0) 0 :=
      fun offset d => ⟨offset, d, rfl⟩
    exact labelLoop_reads redirects _ position named (by decide) (by omega)
  | succ pointers ih =>
    intro d text position named
    have redirects : Redirects packet (readRRDomainLoop packet (pointers + 1)) (pointers + 1) :=
      fun _ _ named offset => ih offset named
    exact labelLoop_reads redirects _ position named (by decide) (by omega)

/-- **Reading names.** `_readRRDomain` ends inside of its arrays and takes nothing else than a name
for a name, whose labels and end it finds, unless the way from the position goes astray. -/
theorem domain_read (packet : List UInt8) (position : Nat) :
    (∃ found next d, readRRDomain packet position = .ok (found, next, d) ∧
        (found = true → ∃ labels, Name packet domainMaxRedirection position labels next ∧
          d.Named (wire labels ++ [0]))) ↔
      ¬ Astray packet true domainMaxRedirection 0 position := by
  obtain ⟨found, next, d, read, taken, stored⟩ : ReadsOn packet true domainMaxRedirection position
      [] (readRRDomain packet position) :=
    readRRDomainLoop_reads domainMaxRedirection position RRDomain.named_clear
  constructor
  · rintro ⟨found', next', d', read', name⟩ astray
    rw [read, Except.ok.injEq, Prod.mk.injEq] at read'
    obtain ⟨rfl, -⟩ := read'
    obtain ⟨labels, name, -⟩ := name (taken.mpr astray.taken)
    exact astray.no_name labels _ name
  · intro right
    refine ⟨found, next, d, read, fun yes => ?_⟩
    obtain ⟨labels, next', name⟩ := (taken.mp yes).name_or_astray.resolve_right right
    obtain ⟨rfl, named⟩ := stored yes labels next' name
    exact ⟨labels, name, named⟩

/-- A header that announces a question, and nothing behind it: a name without labels is found
behind the last byte. -/
theorem domain_read_end :
    ¬ ∀ (packet : List UInt8) (position : Nat), ∃ found next d,
      readRRDomain packet position = .ok (found, next, d) ∧
        (found = true → ∃ labels, Name packet domainMaxRedirection position labels next ∧
          d.Named (wire labels ++ [0])) := by
  intro all
  obtain ⟨found, next, d, read, name⟩ := all [0, 0, 0, 0, 0, 1, 0, 0, 0, 0, 0, 0] 12
  have ended : (readRRDomain [0, 0, 0, 0, 0, 1, 0, 0, 0, 0, 0, 0] 12).toOption.map (·.1) =
      some true := by
    decide
  rw [read] at ended
  obtain ⟨labels, name, -⟩ := name (Option.some.inj ended)
  cases name with
  | root zero => cases zero
  | label first => cases first
  | pointer first => cases first

end Esp8266.Source.MdnsTransfer
