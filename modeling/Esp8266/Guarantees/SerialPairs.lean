import Esp8266.Guarantees.CircularQueues
import Esp8266.Source.SoftwareSerial

/-!
# The bytes and parity bits that `SoftwareSerial` has received

A byte goes to one queue and its parity bit to one bit of a cell of the other. Whatever is received
and read in whatever order, the two queues stand for one list of pairs.
-/
set_option autoImplicit false

namespace Esp8266.Source.SoftwareSerial
open Esp8266.Lib CircularQueue

/-! ## Bits of a cell -/

def mask (j : Nat) : UInt8 := UInt8.ofNat (2 ^ j)

def bit (cell : UInt8) (j : Nat) : Bool := cell.toNat.testBit j

theorem mask_toNat {j : Nat} (small : j < 8) : (mask j).toNat = 2 ^ j := by
  rw [mask, UInt8.toNat_ofNat']
  exact Nat.mod_eq_of_lt (Nat.pow_lt_pow_right (by decide) small)

theorem mask_shift {j : Nat} (small : j < 8) :
    mask j <<< 1 = if j = 7 then 0 else mask (j + 1) := by
  have all : ∀ j : Fin 8, mask j <<< 1 = if j.val = 7 then 0 else mask (j + 1) := by decide
  exact all ⟨j, small⟩

theorem mask_ne_zero {j : Nat} (small : j < 8) : mask j ≠ 0 := by
  have all : ∀ j : Fin 8, mask j ≠ 0 := by decide
  exact all ⟨j, small⟩

theorem parityShifts_mask {j : Nat} (small : j < 8) : parityShifts 8 (mask j) = j := by
  have all : ∀ j : Fin 8, parityShifts 8 (mask j) = j := by decide
  exact all ⟨j, small⟩

theorem and_mask {j : Nat} (small : j < 8) (cell : UInt8) :
    decide (cell &&& mask j ≠ 0) = bit cell j := by
  have zero : cell &&& mask j = 0 ↔ bit cell j = false := by
    rw [← UInt8.toNat_inj, UInt8.toNat_and, mask_toNat small, Nat.and_two_pow]
    cases set : bit cell j with
    | false => simp [bit] at set; simp [set]
    | true => simp [bit] at set; simp [set]
  cases set : bit cell j <;> simp [zero, set]

/-- The parity bit is stored, and the other bits of the cell stay. -/
theorem bit_stored {j k : Nat} (small : j < 8) (small' : k < 8) (cell : UInt8) (parity : Bool) :
    bit (if parity then cell ||| mask j else cell &&& ~~~mask j) k =
      if k = j then parity else bit cell k := by
  have other : (mask j).toNat.testBit k = decide (k = j) := by
    rw [mask_toNat small, Nat.testBit_two_pow]
    exact decide_eq_decide.2 eq_comm
  cases parity with
  | true =>
    rw [if_pos rfl, bit, UInt8.toNat_or, Nat.testBit_or, other]
    by_cases same : k = j <;> simp [same, bit]
  | false =>
    have inverted : (~~~mask j).toNat = 2 ^ 8 - ((mask j).toNat + 1) := by
      rw [UInt8.toNat_not, Nat.add_comm, Nat.sub_add_eq]
      rfl
    rw [if_neg Bool.false_ne_true, bit, UInt8.toNat_and, Nat.testBit_and, inverted,
      Nat.testBit_two_pow_sub_succ (mask j).toNat_lt, other]
    by_cases same : k = j <;> simp [same, small', bit]

/-! ## The queue of parity bits -/

/-- The cell of the `i`-th bit from `first` on. -/
def cellOf (p : CircularQueue UInt8) (i : Nat) : Nat := (p.outPos + i / 8) % p.bufSize

/-- The queue `p` holds these bits, of which the first one is bit `first` of its first cell. The
last cell may be one that is yet to be pushed. -/
structure ParityBits (p : CircularQueue UInt8) (inPos outPos : UInt8) (first : Nat)
    (bits : List Bool) : Prop where
  sound : p.ring.Sound
  small : first < 8
  outPos_eq : outPos = mask first
  inPos_eq : inPos = mask ((first + bits.length) % 8)
  used : p.ring.used = (first + bits.length) / 8
  holds : ∀ i (inside : i < bits.length),
    bit (p.buffer (cellOf p (first + i))) ((first + i) % 8) = bits[i]

namespace ParityBits

variable {p : CircularQueue UInt8} {inPos outPos : UInt8} {first : Nat} {bits : List Bool}

theorem fresh {p : CircularQueue UInt8} (sound : p.ring.Sound) (empty : p.ring.used = 0) :
    ParityBits p 1 1 0 [] where
  sound := sound
  small := by decide
  outPos_eq := rfl
  inPos_eq := rfl
  used := empty
  holds := fun _ inside => absurd inside (Nat.not_lt_zero _)

theorem peek_eq (held : ParityBits p inPos outPos first bits) (some : 0 < bits.length) :
    decide (p.peek &&& outPos ≠ 0) = bits[0] := by
  have oldest := held.holds 0 some
  have small := held.small
  have cell : cellOf p (first + 0) = p.outPos := by
    have outPos_lt : p.outPos < p.bufSize := held.sound.rpos_lt
    rw [cellOf, Nat.add_zero, Nat.div_eq_of_lt small, Nat.add_zero, Nat.mod_eq_of_lt outPos_lt]
  rw [cell, Nat.add_zero, Nat.mod_eq_of_lt small] at oldest
  rw [held.outPos_eq, and_mask small]
  exact oldest

theorem drop (held : ParityBits p inPos outPos first bits) {n : Nat} (few : n ≤ bits.length) :
    ParityBits { p with outPos := (p.outPos + (first + n) / 8) % p.bufSize } inPos
      (mask ((first + n) % 8)) ((first + n) % 8) (bits.drop n) where
  sound := held.sound.advance _
  small := Nat.mod_lt _ (by decide)
  outPos_eq := rfl
  inPos_eq := by
    rw [held.inPos_eq, List.length_drop]
    congr 1
    omega
  used := by
    have enough : (first + n) / 8 ≤ p.ring.used := by
      rw [held.used]
      exact Nat.div_le_div_right (by omega)
    have advanced := held.sound.used_advance enough
    have count : (first + bits.length) / 8 - (first + n) / 8 =
        ((first + n) % 8 + (bits.length - n)) / 8 := by omega
    rw [held.used, count] at advanced
    rw [List.length_drop]
    exact advanced
  holds := by
    intro i inside
    rw [List.length_drop] at inside
    have kept := held.holds (n + i) (by omega)
    have cell : cellOf { p with outPos := (p.outPos + (first + n) / 8) % p.bufSize }
        ((first + n) % 8 + i) = cellOf p (first + (n + i)) := by
      unfold cellOf
      dsimp only
      rw [Nat.mod_add_mod, Nat.add_assoc,
        show (first + n) / 8 + ((first + n) % 8 + i) / 8 = (first + (n + i)) / 8 by omega]
    have place : ((first + n) % 8 + i) % 8 = (first + (n + i)) % 8 := by omega
    rw [cell, place, List.getElem_drop]
    exact kept

/-- The next bit is stored in the cell at the write position. -/
theorem stored (held : ParityBits p inPos outPos first bits)
    (room : p.ring.used < p.bufSize) (parity : Bool) :
    let cell := if parity then p.pushpeek ||| inPos else p.pushpeek &&& ~~~inPos
    ∀ i (inside : i < (bits ++ [parity]).length),
      bit ((p.setPushpeek cell).buffer (cellOf p (first + i))) ((first + i) % 8) =
        (bits ++ [parity])[i] := by
  intro cell i inside
  have small := held.small
  have outPos_lt : p.outPos < p.bufSize := held.sound.rpos_lt
  have behind : (p.outPos + p.ring.used) % p.bufSize = p.inPos := held.sound.wpos_eq
  have written : ∀ k, k < 8 → bit cell k =
      if k = (first + bits.length) % 8 then parity else bit (p.buffer p.inPos) k := by
    intro k small'
    have stored :=
      bit_stored (Nat.mod_lt (first + bits.length) (by decide)) small' p.pushpeek parity
    rw [← held.inPos_eq] at stored
    exact stored
  rw [List.length_append, List.length_singleton] at inside
  by_cases last : (first + i) / 8 = p.ring.used
  · have here : cellOf p (first + i) = p.inPos := by rw [cellOf, last, behind]
    rw [here, setPushpeek_buffer, Function.update_self, written _ (Nat.mod_lt _ (by decide))]
    by_cases new : i = bits.length
    · subst new
      rw [if_pos rfl]
      simp
    · have old : i < bits.length := by omega
      have other : (first + i) % 8 ≠ (first + bits.length) % 8 := by
        rw [held.used] at last
        omega
      rw [if_neg other, List.getElem_append_left old, ← held.holds i old, here]
  · have used := held.used
    have old : i < bits.length := by
      by_contra beyond
      exact last (by rw [used, show i = bits.length by omega])
    have elsewhere : cellOf p (first + i) ≠ p.inPos := by
      have before : (first + i) / 8 ≤ (first + bits.length) / 8 :=
        Nat.div_le_div_right (by omega)
      rw [cellOf, ← behind, Ring.wrap (by omega), Ring.wrap (by omega)]
      split <;> split <;> omega
    rw [setPushpeek_buffer, Function.update_of_ne elsewhere, List.getElem_append_left old]
    exact held.holds i old

/-- What a byte that was pushed leaves of the queue of parity bits and of `m_parityInPos`. -/
theorem append (held : ParityBits p inPos outPos first bits)
    (room : (first + bits.length + 1) / 8 < p.bufSize) (parity : Bool) :
    let cell := if parity then p.pushpeek ||| inPos else p.pushpeek &&& ~~~inPos
    if inPos <<< 1 = 0 then
      ParityBits (p.setPushpeek cell).release.2 1 outPos first (bits ++ [parity])
    else ParityBits (p.setPushpeek cell) (inPos <<< 1) outPos first (bits ++ [parity]) := by
  intro cell
  have used := held.used
  have place := Nat.mod_lt (first + bits.length) (show 0 < 8 by decide)
  have stored := held.stored (by omega) parity
  have sound : (p.setPushpeek cell).ring.Sound := ⟨held.sound.rpos_lt, held.sound.wpos_lt⟩
  have length : (bits ++ [parity]).length = bits.length + 1 := by simp
  have shifted := mask_shift place
  rw [← held.inPos_eq] at shifted
  by_cases full : (first + bits.length) % 8 = 7
  · rw [if_pos full] at shifted
    rw [if_pos shifted]
    have room' : (p.setPushpeek cell).ring.used + 1 < (p.setPushpeek cell).bufSize := by
      show p.ring.used + 1 < p.bufSize
      omega
    have released := release_snd sound room'
    have moved := sound.used_extend room'
    rw [released]
    refine ⟨⟨sound.rpos_lt, Nat.mod_lt _ (Nat.lt_of_le_of_lt (Nat.zero_le _) sound.rpos_lt)⟩,
      held.small, held.outPos_eq, ?_, ?_, stored⟩
    · rw [length, show (first + (bits.length + 1)) % 8 = 0 by omega]
      rfl
    · refine moved.trans ?_
      show p.ring.used + 1 = _
      rw [length]
      omega
  · rw [if_neg full] at shifted
    have next : (first + (bits.length + 1)) % 8 = (first + bits.length) % 8 + 1 := by omega
    rw [if_neg (shifted ▸ mask_ne_zero (by omega))]
    refine ⟨sound, held.small, held.outPos_eq, ?_, ?_, stored⟩
    · rw [length, next, shifted]
    · show p.ring.used = _
      rw [length]
      omega

end ParityBits

/-! ## Both queues -/

/-- The two queues hold these bytes with their parity bits. -/
structure Stores (buffer : CircularQueue UInt8) (parityBuffer : Option (CircularQueue UInt8))
    (parityInPos parityOutPos : UInt8) (pairs : List (UInt8 × Bool)) : Prop where
  sound : buffer.ring.Sound
  bytes : buffer.contents = pairs.map Prod.fst
  cells : ∀ p, parityBuffer = some p → p.bufSize = (buffer.bufSize + 6) / 8 + 1 ∧
    ∃ first, ParityBits p parityInPos parityOutPos first (pairs.map Prod.snd)

/-- What has been received and not been read yet. -/
abbrev Holds (s : SoftwareSerial) (pairs : List (UInt8 × Bool)) : Prop :=
  Stores s.buffer s.parityBuffer s.parityInPos s.parityOutPos pairs

variable {s : SoftwareSerial} {pairs rest : List (UInt8 × Bool)} {first : UInt8 × Bool}
  {buffer p : CircularQueue UInt8} {parityInPos parityOutPos : UInt8}

theorem Stores.length_eq {parityBuffer : Option (CircularQueue UInt8)}
    (stores : Stores buffer parityBuffer parityInPos parityOutPos pairs) :
    buffer.contents.length = pairs.length := by rw [stores.bytes, List.length_map]

theorem Stores.length_lt {parityBuffer : Option (CircularQueue UInt8)}
    (stores : Stores buffer parityBuffer parityInPos parityOutPos pairs) :
    pairs.length < buffer.bufSize := by
  rw [← stores.length_eq, contents, Ring.length_contents]
  exact stores.sound.used_lt

/-- A byte is kept with its parity bit where there is room. -/
theorem storeByte_room (holds : s.Holds pairs) (room : pairs.length + 1 < s.buffer.bufSize) :
    ∃ buffer parityBuffer parityInPos,
      s.storeByte = { s with buffer, parityBuffer, parityInPos } ∧
      buffer.bufSize = s.buffer.bufSize ∧ parityBuffer.isSome = s.parityBuffer.isSome ∧
      Stores buffer parityBuffer parityInPos s.parityOutPos
        (pairs ++ [(UInt8.ofNat s.rxCurByte, s.rxCurParity)]) := by
  have space : s.buffer.contents.length + 1 < s.buffer.bufSize := by rwa [holds.length_eq]
  obtain ⟨stored, size, sound, contents⟩ :=
    push_room holds.sound space (UInt8.ofNat s.rxCurByte)
  have bytes : (s.buffer.push (UInt8.ofNat s.rxCurByte)).2.contents =
      (pairs ++ [(UInt8.ofNat s.rxCurByte, s.rxCurParity)]).map Prod.fst := by
    rw [contents, holds.bytes, List.map_append]
    rfl
  cases kept : s.parityBuffer with
  | none =>
    refine ⟨_, s.parityBuffer, s.parityInPos, ?_, size, by rw [kept], sound, bytes, ?_⟩
    · simp [storeByte, stored, kept]
    · intro p same
      rw [kept] at same
      cases same
  | some p =>
    obtain ⟨cells, first, held⟩ := holds.cells p kept
    have small := held.small
    have room' : (first + (pairs.map Prod.snd).length + 1) / 8 < p.bufSize := by
      rw [List.length_map]
      omega
    have appended := held.append room' s.rxCurParity
    have bits : (pairs ++ [(UInt8.ofNat s.rxCurByte, s.rxCurParity)]).map Prod.snd =
        pairs.map Prod.snd ++ [s.rxCurParity] := by simp
    rw [← size] at cells
    dsimp only at appended
    generalize cell_eq : (if s.rxCurParity then p.pushpeek ||| s.parityInPos
      else p.pushpeek &&& ~~~s.parityInPos) = cell at appended
    by_cases full : s.parityInPos <<< 1 = 0
    · rw [if_pos full] at appended
      refine ⟨(s.buffer.push (UInt8.ofNat s.rxCurByte)).2, some (p.setPushpeek cell).release.2, 1,
        ?_, size, rfl, sound, bytes, ?_⟩
      · simp only [storeByte, stored, kept, full, cell_eq, Bool.not_true, Bool.false_eq_true,
          if_false, if_true]
      · rintro p' same
        cases same
        rw [bits]
        exact ⟨(release_bufSize _).trans cells, first, appended⟩
    · rw [if_neg full] at appended
      refine ⟨(s.buffer.push (UInt8.ofNat s.rxCurByte)).2, some (p.setPushpeek cell),
        s.parityInPos <<< 1, ?_, size, rfl, sound, bytes, ?_⟩
      · simp only [storeByte, stored, kept, full, cell_eq, Bool.not_true, Bool.false_eq_true,
          if_false]
      · rintro p' same
        cases same
        rw [bits]
        exact ⟨cells, first, appended⟩

/-- A byte for which there is no room is counted as lost, with its parity bit. -/
theorem storeByte_full (holds : s.Holds pairs) (full : pairs.length + 1 = s.buffer.bufSize) :
    s.storeByte = { s with overflow := true } := by
  have full' : s.buffer.contents.length + 1 = s.buffer.bufSize := by rwa [holds.length_eq]
  simp [storeByte, push_full holds.sound full']

/-! ## Calls -/

/-- A change of the pin, or a call. -/
inductive Call where
  | edge (curCycle : Nat) (level : Bool)
  | available (now : Nat)
  | read (now : Nat)
  | readN (now size : Nat)
  | peek (now : Nat)
  | flush
  | overflow

/-- What a call answers; a byte with what `readParity()` answers behind it. -/
inductive Reply where
  | none
  | count (n : Nat)
  | byte (val : Option UInt8) (readParity : Bool)
  | bytes (vals : List UInt8)
  | overflowed (lost : Bool)

def call : Call → SoftwareSerial → Reply × SoftwareSerial
  | .edge curCycle level, s => (.none, s.rxBitISR curCycle level)
  | .available now, s =>
    let (n, s) := s.available now
    (.count n, s)
  | .read now, s =>
    let (val, s) := s.read now
    (.byte val s.lastReadParity, s)
  | .readN now size, s =>
    let (vals, s) := s.readN now size
    (.bytes vals, s)
  | .peek now, s =>
    let (val, s) := s.peek now
    (.byte val s.lastReadParity, s)
  | .flush, s => (.none, s.flush)
  | .overflow, s =>
    let (lost, s) := s.tookOverflow
    (.overflowed lost, s)

/-- The pairs received and not read yet, whether one was lost since `overflow()` last told, and
whether a change of the pin was. -/
structure Pairs where
  held : List (UInt8 × Bool)
  lost : Bool
  missed : Bool

namespace Pairs

/-- New pairs are kept as far as there is room. -/
def add (capacity : Nat) (new : List (UInt8 × Bool)) (l : Pairs) : Pairs :=
  { l with
    held := l.held ++ new.take (capacity - l.held.length)
    lost := l.lost || decide (capacity < l.held.length + new.length) }

/-- A call that decodes what the pin has done first tells of changes that were lost. -/
def fill (capacity : Nat) (new : List (UInt8 × Bool)) (l : Pairs) : Pairs :=
  { l with lost := l.lost || l.missed, missed := false }.add capacity new

/-- The calls that decode what the pin has done. -/
def polls : Call → List (UInt8 × Bool) → Bool
  | .available _, _ => true
  | .read _, held => held.isEmpty
  | .readN _ size, held => (held.take size).isEmpty
  | .peek _, held => held.isEmpty
  | _, _ => false

/-- What a call answers of the pairs, and what it leaves of them. -/
def Answers (parity : Bool) (request : Call) (reply : Reply) (l l' : Pairs) : Prop :=
  match request with
  | .edge _ _ => reply = .none ∧ ∃ dropped, l' = { l with missed := l.missed || dropped }
  | .available _ => reply = .count l.held.length ∧ l' = l
  | .read _ => ∃ bit, reply = .byte (l.held.head?.map Prod.fst) bit ∧
    (parity = true → ∀ first ∈ l.held.head?, bit = first.2) ∧ l' = { l with held := l.held.tail }
  | .readN _ size =>
    reply = .bytes ((l.held.take size).map Prod.fst) ∧ l' = { l with held := l.held.drop size }
  | .peek _ => ∃ bit, reply = .byte (l.held.head?.map Prod.fst) bit ∧
    (parity = true → ∀ first ∈ l.held.head?, bit = first.2) ∧ l' = l
  | .flush => reply = .none ∧ l' = { l with held := [] }
  | .overflow => reply = .overflowed l.lost ∧ l' = { l with lost := false }

/-- A call by which `new` pairs are decoded. -/
def Step (capacity : Nat) (parity : Bool) (new : List (UInt8 × Bool)) (request : Call)
    (reply : Reply) (l l' : Pairs) : Prop :=
  if polls request l.held then Answers parity request reply (l.fill capacity new) l'
  else new = [] ∧ Answers parity request reply l l'

variable {capacity : Nat} {l : Pairs}

theorem add_nil (fits : l.held.length ≤ capacity) : l.add capacity [] = l := by
  have kept : ¬capacity < l.held.length := by omega
  simp [add, kept]

theorem add_append (fits : l.held.length ≤ capacity) (a b : List (UInt8 × Bool)) :
    l.add capacity (a ++ b) = (l.add capacity a).add capacity b := by
  have held : (a ++ b).take (capacity - l.held.length) = a.take (capacity - l.held.length) ++
      b.take (capacity - (l.held.length + min (capacity - l.held.length) a.length)) := by
    rw [List.take_append]
    congr 2
    omega
  have lost : decide (capacity < l.held.length + (a.length + b.length)) =
      (decide (capacity < l.held.length + a.length) || decide
        (capacity < l.held.length + min (capacity - l.held.length) a.length + b.length)) := by
    rw [← Bool.decide_or]
    exact decide_eq_decide.2 (by omega)
  simp only [add, List.length_append, List.length_take, List.append_assoc, held, lost,
    Bool.or_assoc]

end Pairs

/-! ## Receiving -/

/-- The receiver at another place of a word. -/
def moved (curBit : Int) (curByte : Nat) (curParity : Bool) (s : SoftwareSerial) : SoftwareSerial :=
  { s with rxCurBit := curBit, rxCurByte := curByte, rxCurParity := curParity }

/-- What moving on in a word and storing a byte preserve, the rounds do. -/
theorem rxLoop_preserves {kept : SoftwareSerial → Prop}
    (moves : ∀ s curBit curByte curParity, kept s → kept (moved curBit curByte curParity s))
    (stores : ∀ s, kept s → kept s.storeByte) (level : Bool) (fuel : Nat) :
    ∀ (bits : Nat) (s : SoftwareSerial), kept s → kept (s.rxLoop level fuel bits) := by
  induction fuel with
  | zero => intro bits s holds; exact holds
  | succ fuel ih =>
    intro bits s holds
    rw [rxLoop]
    split
    · exact holds
    · split
      · split
        · exact holds
        · exact ih _ _ (moves s _ _ _ holds)
      · split
        · exact ih _ _ (moves s _ _ _ holds)
        · split
          · exact ih _ _ (moves s _ _ _ holds)
          · split
            · exact ih _ _ (moves s _ _ _ holds)
            · split
              · cases level with
                | true => exact moves _ _ _ _ (stores _ (moves s _ _ _ holds))
                | false => exact moves s _ _ _ holds
              · exact holds

/-- A receiver with room for `capacity` bytes that is in use, and what it stands for. -/
structure Received (capacity : Nat) (parity : Bool) (s : SoftwareSerial) (l : Pairs) : Prop where
  valid : s.rxValid = true
  size : s.buffer.bufSize = capacity + 1
  mode : s.parityBuffer.isSome = parity
  isr : s.isrBuffer.ring.Sound
  holds : s.Holds l.held
  lost : s.overflow = l.lost
  missed : s.isrOverflow = l.missed

variable {capacity : Nat} {parity : Bool} {l : Pairs}

namespace Received

theorem length_le (received : Received capacity parity s l) : l.held.length ≤ capacity := by
  have less := received.holds.length_lt
  rw [received.size] at less
  exact Nat.le_of_lt_succ less

/-- The byte under construction is kept or lost, with its parity bit. -/
theorem storeByte (received : Received capacity parity s l) :
    Received capacity parity s.storeByte
      (l.add capacity [(UInt8.ofNat s.rxCurByte, s.rxCurParity)]) := by
  have within := received.length_le
  obtain ⟨valid, size, mode, isr, holds, lost, missed⟩ := received
  by_cases room : l.held.length + 1 < s.buffer.bufSize
  · obtain ⟨buffer, parityBuffer, parityInPos, stored, same, mode', stores⟩ :=
      storeByte_room holds room
    have one : capacity - l.held.length = (capacity - l.held.length - 1) + 1 := by omega
    have kept : ¬capacity < l.held.length + 1 := by omega
    have added : l.add capacity [(UInt8.ofNat s.rxCurByte, s.rxCurParity)] =
        { l with held := l.held ++ [(UInt8.ofNat s.rxCurByte, s.rxCurParity)] } := by
      simp only [Pairs.add, List.length_singleton, kept, decide_false, Bool.or_false]
      rw [one, List.take_succ_cons, List.take_nil]
    rw [stored, added]
    exact ⟨valid, same.trans size, mode'.trans mode, isr, stores, lost, missed⟩
  · have full : capacity - l.held.length = 0 := by omega
    have gone : capacity < l.held.length + 1 := by omega
    have added : l.add capacity [(UInt8.ofNat s.rxCurByte, s.rxCurParity)] =
        { l with lost := true } := by
      simp only [Pairs.add, List.length_singleton, gone, full, decide_true, Bool.or_true,
        List.take_zero, List.append_nil]
    rw [storeByte_full holds (by omega), added]
    exact ⟨valid, size, mode, isr, holds, rfl, missed⟩

theorem same (received : Received capacity parity s l) :
    ∃ new, Received capacity parity s (l.add capacity new) :=
  ⟨[], (Pairs.add_nil received.length_le).symm ▸ received⟩

theorem moved (received : Received capacity parity s l) (curBit : Int) (curByte : Nat)
    (curParity : Bool) : Received capacity parity (s.moved curBit curByte curParity) l :=
  ⟨received.valid, received.size, received.mode, received.isr, received.holds, received.lost,
    received.missed⟩

/-- Whatever level lasts for however long, pairs are only added. -/
theorem rxLoop (received : Received capacity parity s l) (level : Bool) (fuel bits : Nat) :
    ∃ new, Received capacity parity (s.rxLoop level fuel bits) (l.add capacity new) := by
  apply @rxLoop_preserves fun t => ∃ new, Received capacity parity t (l.add capacity new)
  · rintro t curBit curByte curParity ⟨new, kept⟩
    exact ⟨new, kept.moved curBit curByte curParity⟩
  · rintro t ⟨new, kept⟩
    have stored := kept.storeByte
    rw [← Pairs.add_append received.length_le] at stored
    exact ⟨_, stored⟩
  · exact received.same

theorem at_cycle (received : Received capacity parity s l) (isrCycle : Nat) :
    Received capacity parity { s with isrLastCycle := isrCycle } l :=
  ⟨received.valid, received.size, received.mode, received.isr, received.holds, received.lost,
    received.missed⟩

theorem rxBitsAt (received : Received capacity parity s l) (isrCycle : Nat) :
    ∃ new, Received capacity parity (s.rxBitsAt isrCycle) (l.add capacity new) := by
  exact (received.at_cycle isrCycle).rxLoop _ _ _

theorem foldl (received : Received capacity parity s l) (isrCycles : List Nat) :
    ∃ new, Received capacity parity
      (isrCycles.foldl (fun s isrCycle => s.rxBitsAt isrCycle) s) (l.add capacity new) := by
  induction isrCycles generalizing s l with
  | nil => exact received.same
  | cons isrCycle rest ih =>
    obtain ⟨first, next⟩ := received.rxBitsAt isrCycle
    obtain ⟨later, last⟩ := ih next
    exact ⟨first ++ later, Pairs.add_append received.length_le first later ▸ last⟩

theorem rxBits (received : Received capacity parity s l) (now : Nat) :
    ∃ new, Received capacity parity (s.rxBits now) (l.fill capacity new) := by
  unfold SoftwareSerial.rxBits
  extract_lets isrAvail s1 s2
  have told : Received capacity parity s1
      { l with lost := l.lost || l.missed, missed := false } := by
    unfold s1
    split
    · rename_i missed
      refine ⟨received.valid, received.size, received.mode, received.isr, received.holds, ?_, rfl⟩
      rw [← received.missed, missed, Bool.or_true]
    · rename_i none
      have none : s.isrOverflow = false := by simpa using none
      refine ⟨received.valid, received.size, received.mode, received.isr, received.holds, ?_, none⟩
      rw [← received.missed, none, Bool.or_false]
      exact received.lost
  obtain ⟨new, second⟩ : ∃ new, Received capacity parity s2
      ({ l with lost := l.lost || l.missed, missed := false }.add capacity new) := by
    unfold s2
    split
    · exact told.rxBitsAt _
    · exact told.same
  rw [forEach_eq second.isr]
  have taken : Received capacity parity
      { s2 with isrBuffer := { s2.isrBuffer with outPos := s2.isrBuffer.inPos } } _ :=
    ⟨second.valid, second.size, second.mode, ⟨second.isr.wpos_lt, second.isr.wpos_lt⟩,
      second.holds, second.lost, second.missed⟩
  obtain ⟨more, last⟩ := taken.foldl s2.isrBuffer.contents
  refine ⟨new ++ more, ?_⟩
  rw [Pairs.fill, Pairs.add_append told.length_le]
  exact last

end Received

/-! ## Reading -/

/-- The bits given up are whole cells and a place in the next one. -/
theorem ParityBits.advance {place n : Nat} {bits : List Bool}
    (held : ParityBits p parityInPos parityOutPos place bits) (few : n ≤ bits.length) :
    ParityBits (p.popN ((place + n) / 8)).2 parityInPos (mask ((place + n) % 8))
      ((place + n) % 8) (bits.drop n) := by
  have enough : (place + n) / 8 ≤ p.ring.used := by
    rw [held.used]
    exact Nat.div_le_div_right (by omega)
  rw [popN_snd held.sound enough]
  exact held.drop few

theorem Stores.pop (stores : Stores buffer (some p) parityInPos parityOutPos (first :: rest)) :
    if parityOutPos <<< 1 = 0 then
      Stores (buffer.pop).2 (some (p.pop).2) parityInPos 1 rest
    else Stores (buffer.pop).2 (some p) parityInPos (parityOutPos <<< 1) rest := by
  obtain ⟨_, size, sound, contents⟩ := pop_held stores.sound stores.bytes
  obtain ⟨cells, place, held⟩ := stores.cells p rfl
  have small := held.small
  have some : 1 ≤ ((first :: rest).map Prod.snd).length := by simp
  have dropped := held.drop some
  have shifted := mask_shift small
  rw [← held.outPos_eq] at shifted
  rw [← size] at cells
  by_cases last : place = 7
  · rw [if_pos last] at shifted
    rw [if_pos shifted]
    have used : p.ring.used ≠ 0 := by
      rw [held.used]
      omega
    have popped := pop_snd held.sound used
    subst last
    refine ⟨sound, contents, ?_⟩
    rintro p' same
    cases same
    rw [popped]
    exact ⟨cells, 0, dropped⟩
  · rw [if_neg last] at shifted
    rw [if_neg (shifted ▸ mask_ne_zero (by omega))]
    refine ⟨sound, contents, ?_⟩
    rintro p' same
    cases same
    have stays : (p.outPos + (place + 1) / 8) % p.bufSize = p.outPos := by
      rw [show (place + 1) / 8 = 0 by omega, Nat.add_zero]
      exact Nat.mod_eq_of_lt held.sound.rpos_lt
    rw [stays, show (place + 1) % 8 = place + 1 by omega] at dropped
    rw [shifted]
    exact ⟨cells, place + 1, dropped⟩

/-- The oldest bytes and their parity bits are given up together. -/
theorem Stores.popN (stores : Stores buffer (some p) parityInPos parityOutPos pairs) (size : Nat) :
    let parityBits := (buffer.popN size).1.length + parityShifts 8 parityOutPos
    Stores (buffer.popN size).2 (some (p.popN (parityBits / 8)).2) parityInPos
      (UInt8.ofNat (1 <<< (parityBits % 8))) (pairs.drop size) := by
  intro parityBits
  obtain ⟨taken, same, sound, left⟩ := popN_eq stores.sound size
  obtain ⟨cells, place, held⟩ := stores.cells p rfl
  have few : min size pairs.length ≤ (pairs.map Prod.snd).length := by
    rw [List.length_map]
    exact Nat.min_le_right _ _
  have counted : parityBits = place + min size pairs.length := by
    rw [Nat.add_comm]
    simp only [parityBits, taken, stores.bytes, held.outPos_eq, parityShifts_mask held.small,
      List.length_take, List.length_map]
  have dropped := held.advance few
  have rest :
      (pairs.map Prod.snd).drop (min size pairs.length) = (pairs.drop size).map Prod.snd := by
    rw [List.map_drop]
    rcases Nat.le_total size pairs.length with within | beyond
    · rw [Nat.min_eq_left within]
    · rw [Nat.min_eq_right beyond, List.drop_of_length_le (by simp),
        List.drop_of_length_le (by simpa using beyond)]
  have sized := (popN_eq held.sound (parityBits / 8)).2.1
  rw [Nat.one_shiftLeft]
  refine ⟨sound, ?_, ?_⟩
  · rw [left, stores.bytes, List.map_drop]
  · rintro p' kept
    cases kept
    rw [rest, ← counted] at dropped
    rw [sized, same]
    exact ⟨cells, _, dropped⟩

namespace Received

theorem read_held {now : Nat} (valid' : s.rxValid = true)
    (received : Received capacity parity (s.refill now) l) (there : l.held = first :: rest) :
    (s.read now).1 = some first.1 ∧
      Received capacity parity (s.read now).2 { l with held := rest } ∧
      (parity = true → (s.read now).2.lastReadParity = first.2) := by
  generalize refilled : s.refill now = t at received
  obtain ⟨valid, size, mode, isr, holds, lost, missed⟩ := received
  rw [there] at holds
  obtain ⟨popped, popSize, sound, contents⟩ := pop_held holds.sound holds.bytes
  have counted : t.buffer.available = rest.length + 1 := by
    rw [available_eq, holds.length_eq, List.length_cons]
  cases kept : t.parityBuffer with
  | none =>
    have taken : s.read now = (some first.1, { t with buffer := (t.buffer.pop).2 }) := by
      simp [SoftwareSerial.read, valid', refilled, counted, kept, popped]
    rw [taken]
    refine ⟨rfl, ⟨valid, popSize.trans size, mode, isr, ⟨sound, contents, ?_⟩, lost, missed⟩, ?_⟩
    · intro p same
      cases kept.symm.trans same
    · rw [← mode, kept]
      exact fun none => absurd none Bool.false_ne_true
  | some p =>
    have stores : Stores t.buffer (some p) t.parityInPos t.parityOutPos (first :: rest) :=
      kept ▸ holds
    obtain ⟨_, place, held⟩ := stores.cells p rfl
    have oldest := held.peek_eq (by simp)
    have left := stores.pop
    have mode' := (congrArg Option.isSome kept).symm.trans mode
    by_cases last : t.parityOutPos <<< 1 = 0
    · rw [if_pos last] at left
      have taken : s.read now = (some first.1, { t with
          buffer := (t.buffer.pop).2, parityOutPos := 1, parityBuffer := some (p.pop).2
          lastReadParity := decide (p.peek &&& t.parityOutPos ≠ 0) }) := by
        simp [SoftwareSerial.read, valid', refilled, counted, kept, popped, last]
      rw [taken]
      exact ⟨rfl, ⟨valid, popSize.trans size, mode', isr, left, lost, missed⟩, fun _ => oldest⟩
    · rw [if_neg last] at left
      have taken : s.read now = (some first.1, { t with
          buffer := (t.buffer.pop).2, parityOutPos := t.parityOutPos <<< 1
          parityBuffer := some p
          lastReadParity := decide (p.peek &&& t.parityOutPos ≠ 0) }) := by
        simp [SoftwareSerial.read, valid', refilled, counted, kept, popped, last]
      rw [taken]
      exact ⟨rfl, ⟨valid, popSize.trans size, mode', isr, left, lost, missed⟩, fun _ => oldest⟩

theorem peek_held {now : Nat} (valid' : s.rxValid = true)
    (received : Received capacity parity (s.refill now) l) (there : l.held = first :: rest) :
    (s.peek now).1 = some first.1 ∧ Received capacity parity (s.peek now).2 l ∧
      (parity = true → (s.peek now).2.lastReadParity = first.2) := by
  generalize refilled : s.refill now = t at received
  obtain ⟨valid, size, mode, isr, holds, lost, missed⟩ := received
  have bytes := holds.bytes
  rw [there] at bytes
  have peeked := CircularQueue.peek_held holds.sound bytes
  have counted : t.buffer.available = rest.length + 1 := by
    rw [available_eq, holds.length_eq, there, List.length_cons]
  cases kept : t.parityBuffer with
  | none =>
    have taken : s.peek now = (some first.1, t) := by
      simp [SoftwareSerial.peek, valid', refilled, counted, kept, peeked]
    rw [taken]
    refine ⟨rfl, ⟨valid, size, mode, isr, holds, lost, missed⟩, ?_⟩
    rw [← mode, kept]
    exact fun none => absurd none Bool.false_ne_true
  | some p =>
    obtain ⟨_, place, held⟩ := holds.cells p kept
    have oldest := held.peek_eq (by simp [there])
    simp only [there, List.map_cons, List.getElem_cons_zero] at oldest
    have taken : s.peek now = (some first.1, { t with
        lastReadParity := decide (p.peek &&& t.parityOutPos ≠ 0) }) := by
      simp [SoftwareSerial.peek, valid', refilled, counted, kept, peeked]
    rw [taken]
    exact ⟨rfl, ⟨valid, size, mode, isr, holds, lost, missed⟩, fun _ => oldest⟩

/-- `read(buffer, size)` once it is settled that something is there. -/
theorem popBoth (received : Received capacity parity s l) (size : Nat) :
    Received capacity parity ((s.popBytes size).2.popParity (s.popBytes size).1.length)
      { l with held := l.held.drop size } := by
  obtain ⟨valid, sized, mode, isr, holds, lost, missed⟩ := received
  obtain ⟨_, same, sound, left⟩ := popN_eq holds.sound size
  cases kept : s.parityBuffer with
  | none =>
    have unchanged : (s.popBytes size).2.popParity (s.popBytes size).1.length =
        (s.popBytes size).2 := by simp [popParity, popBytes, kept]
    rw [unchanged]
    refine ⟨valid, same.trans sized, mode, isr, ⟨sound, ?_, ?_⟩, lost, missed⟩
    · rw [List.map_drop, ← holds.bytes]
      exact left
    · intro p some
      cases kept.symm.trans some
  | some p =>
    have stores : Stores s.buffer (some p) s.parityInPos s.parityOutPos l.held := kept ▸ holds
    have popped := stores.popN size
    have mode' := (congrArg Option.isSome kept).symm.trans mode
    have changed : (s.popBytes size).2.popParity (s.popBytes size).1.length = { s with
        buffer := (s.buffer.popN size).2
        parityOutPos := UInt8.ofNat
          (1 <<< (((s.buffer.popN size).1.length + parityShifts 8 s.parityOutPos) % 8))
        parityBuffer := some (p.popN
          (((s.buffer.popN size).1.length + parityShifts 8 s.parityOutPos) / 8)).2 } := by
      simp [popParity, popBytes, kept]
    rw [changed]
    exact ⟨valid, same.trans sized, mode', isr, popped, lost, missed⟩

theorem popBytes_eq (received : Received capacity parity s l) (size : Nat) :
    (s.popBytes size).1 = (l.held.take size).map Prod.fst := by
  rw [List.map_take, ← received.holds.bytes]
  exact (popN_eq received.holds.sound size).1

theorem popBytes_none (received : Received capacity parity s l) {size : Nat}
    (none : l.held.take size = []) : s.popBytes size = ([], s) := by
  have still : s.buffer.contents.take size = [] := by
    rw [received.holds.bytes, ← List.map_take, none, List.map_nil]
  simp only [popBytes, popN_none still]

theorem flush (received : Received capacity parity s l) :
    Received capacity parity s.flush { l with held := [] } := by
  obtain ⟨valid, sized, mode, isr, holds, lost, missed⟩ := received
  obtain ⟨sound, empty⟩ := flush_eq holds.sound
  cases kept : s.parityBuffer with
  | none =>
    have flushed : s.flush = { s with buffer := s.buffer.flush } := by
      simp [SoftwareSerial.flush, valid, kept]
    rw [flushed]
    refine ⟨valid, sized, mode, isr, ⟨sound, empty, ?_⟩, lost, missed⟩
    intro p some
    cases kept.symm.trans some
  | some p =>
    obtain ⟨cells, place, held⟩ := holds.cells p kept
    obtain ⟨sound', empty'⟩ := flush_eq held.sound
    have none : p.flush.ring.used = 0 := by
      rw [← Ring.length_contents]
      exact List.length_eq_zero_iff.2 empty'
    have mode' := (congrArg Option.isSome kept).symm.trans mode
    have flushed : s.flush = { s with
        buffer := s.buffer.flush, parityInPos := 1, parityOutPos := 1
        parityBuffer := some p.flush } := by simp [SoftwareSerial.flush, valid, kept]
    rw [flushed]
    refine ⟨valid, sized, mode', isr, ⟨sound, empty, ?_⟩, lost, missed⟩
    rintro p' same
    cases same
    exact ⟨cells, 0, .fresh sound' none⟩

theorem rxBitISR (received : Received capacity parity s l) (curCycle : Nat) (level : Bool) :
    ∃ dropped, Received capacity parity (s.rxBitISR curCycle level)
      { l with missed := l.missed || dropped } := by
  refine ⟨!(s.isrBuffer.push (stamp curCycle level)).1, received.valid, received.size,
    received.mode, ?_, received.holds, received.lost, ?_⟩
  · exact push_sound received.isr _
  · rw [← received.missed]
    rfl

end Received

/-- What a call finds after it has decoded what the pin has done. -/
def polled : Call → SoftwareSerial → SoftwareSerial
  | .available now, s => s.rxBits now
  | .read now, s => s.refill now
  | .readN now size, s =>
    if (s.popBytes size).1 = [] then (s.popBytes size).2.rxBits now else s
  | .peek now, s => s.refill now
  | _, s => s

def Call.now : Call → Nat
  | .available now => now
  | .read now => now
  | .readN now _ => now
  | .peek now => now
  | _ => 0

theorem Received.polled_eq (received : Received capacity parity s l) (request : Call) :
    polled request s = if Pairs.polls request l.held then s.rxBits request.now else s := by
  have counted : s.buffer.available = l.held.length := by
    rw [available_eq, received.holds.length_eq]
  have refilled : ∀ now, s.refill now = if l.held.isEmpty then s.rxBits now else s := by
    intro now
    unfold SoftwareSerial.refill
    rw [counted]
    cases l.held <;> rfl
  cases request with
  | readN now size =>
    by_cases none : l.held.take size = []
    · simp [polled, Pairs.polls, Call.now, received.popBytes_none none, none]
    · have some : (s.popBytes size).1 ≠ [] := by
        rw [received.popBytes_eq size]
        exact fun empty => none (List.map_eq_nil_iff.1 empty)
      simp [polled, Pairs.polls, some, none]
  | read now => exact refilled now
  | peek now => exact refilled now
  | available now => rfl
  | _ => rfl

/-- What is there after decoding is what a call answers. -/
theorem Received.answers (request : Call) (valid : s.rxValid = true)
    (ready : Received capacity parity (polled request s) l) :
    ∃ l', Pairs.Answers parity request (call request s).1 l l' ∧
      Received capacity parity (call request s).2 l' := by
  have counted : (polled request s).buffer.available = l.held.length := by
    rw [available_eq, ready.holds.length_eq]
  cases request with
  | edge curCycle level =>
    obtain ⟨dropped, recorded⟩ := ready.rxBitISR curCycle level
    exact ⟨_, ⟨rfl, dropped, rfl⟩, recorded⟩
  | available now =>
    have answered : s.available now = (l.held.length, s.rxBits now) := by
      change (s.rxBits now).buffer.available = _ at counted
      simp only [SoftwareSerial.available, valid, counted, Bool.not_true, Bool.false_eq_true,
        if_false]
    refine ⟨l, ⟨?_, rfl⟩, ?_⟩
    · simp only [call, answered]
    · simp only [call, answered]
      exact ready
  | read now =>
    change (s.refill now).buffer.available = _ at counted
    change Received capacity parity (s.refill now) l at ready
    cases there : l.held with
    | nil =>
      rw [there] at counted
      have none : s.read now = (none, s.refill now) := by
        simp only [SoftwareSerial.read, valid, counted, List.length_nil, Bool.not_true,
          Bool.false_eq_true, if_false, if_true]
      refine ⟨l, ⟨(s.refill now).lastReadParity, ?_, ?_, ?_⟩, ?_⟩
      · simp only [call, none, there, List.head?_nil, Option.map_none]
      · simp [there]
      · rw [there, List.tail_nil, ← there]
      · simp only [call, none]
        exact ready
    | cons first rest =>
      obtain ⟨val, left, same⟩ := Received.read_held valid ready there
      refine ⟨{ l with held := rest },
        ⟨(s.read now).2.lastReadParity, ?_, ?_, ?_⟩, ?_⟩
      · simp only [call, val, there, List.head?_cons, Option.map_some]
      · simpa [there] using same
      · rw [there, List.tail_cons]
      · exact left
  | readN now size =>
    have answered : s.readN now size =
        if ((polled (.readN now size) s).popBytes size).1 = [] then
          ([], ((polled (.readN now size) s).popBytes size).2)
        else (((polled (.readN now size) s).popBytes size).1,
          ((polled (.readN now size) s).popBytes size).2.popParity
            ((polled (.readN now size) s).popBytes size).1.length) := by
      simp only [SoftwareSerial.readN, valid, polled, Bool.not_true, Bool.false_eq_true, if_false]
      by_cases none : (s.popBytes size).1 = []
      · simp only [none, if_true]
      · simp only [none, if_false]
    have vals := ready.popBytes_eq size
    refine ⟨{ l with held := l.held.drop size }, ⟨?_, rfl⟩, ?_⟩
    · simp only [call, answered]
      split
      · rename_i empty
        rw [← vals, empty]
      · rw [vals]
    · simp only [call, answered]
      split
      · rename_i empty
        rw [vals, List.map_eq_nil_iff] at empty
        have rest : l.held.drop size = l.held := by
          have parts := List.take_append_drop size l.held
          rwa [empty, List.nil_append] at parts
        rw [ready.popBytes_none empty, rest]
        exact ready
      · exact ready.popBoth size
  | peek now =>
    change (s.refill now).buffer.available = _ at counted
    change Received capacity parity (s.refill now) l at ready
    cases there : l.held with
    | nil =>
      rw [there] at counted
      have none : s.peek now = (none, s.refill now) := by
        simp only [SoftwareSerial.peek, valid, counted, List.length_nil, Bool.not_true,
          Bool.false_eq_true, if_false, if_true]
      refine ⟨l, ⟨(s.refill now).lastReadParity, ?_, ?_, rfl⟩, ?_⟩
      · simp only [call, none, there, List.head?_nil, Option.map_none]
      · simp [there]
      · simp only [call, none]
        exact ready
    | cons first rest =>
      obtain ⟨val, left, same⟩ := Received.peek_held valid ready there
      refine ⟨l, ⟨(s.peek now).2.lastReadParity, ?_, ?_, rfl⟩, ?_⟩
      · simp only [call, val, there, List.head?_cons, Option.map_some]
      · simpa [there] using same
      · exact left
  | flush => exact ⟨_, ⟨rfl, rfl⟩, ready.flush⟩
  | overflow =>
    refine ⟨_, ⟨?_, rfl⟩, ready.valid, ready.size, ready.mode, ready.isr, ready.holds, rfl,
      ready.missed⟩
    exact congrArg Reply.overflowed ready.lost

theorem Received.step (request : Call) (new : List (UInt8 × Bool))
    (received : Received capacity parity s l)
    (filled : if Pairs.polls request l.held then
      Received capacity parity (s.rxBits request.now) (l.fill capacity new) else new = []) :
    ∃ l', Pairs.Step capacity parity new request (call request s).1 l l' ∧
      Received capacity parity (call request s).2 l' := by
  have ready := received.polled_eq request
  by_cases polls : Pairs.polls request l.held = true
  · rw [if_pos polls] at ready filled
    rw [← ready] at filled
    obtain ⟨l', answered, after⟩ := Received.answers request received.valid filled
    refine ⟨l', ?_, after⟩
    rw [Pairs.Step, if_pos polls]
    exact answered
  · rw [if_neg polls] at ready filled
    have still := received
    rw [← ready] at still
    obtain ⟨l', answered, after⟩ := Received.answers request received.valid still
    refine ⟨l', ?_, after⟩
    rw [Pairs.Step, if_neg polls]
    exact ⟨filled, answered⟩

/-! ## Runs -/

/-- The number of bytes for which `begin` makes room. -/
def capacityOf (bufCapacity : Nat) : Nat := if 0 < bufCapacity then bufCapacity else 64

theorem received_begin (baud config : Nat) (invert : Bool)
    (bufCapacity isrBufCapacity cpuFreqMHz now : Nat) (memory : Nat → UInt8) (words : Nat → Nat) :
    Received (capacityOf bufCapacity) (decide (parityOf config ≠ .none))
      (begin_ baud config invert bufCapacity isrBufCapacity cpuFreqMHz now memory words)
      ⟨[], false, false⟩ where
  valid := rfl
  size := rfl
  mode := by
    by_cases none : parityOf config = .none <;> simp [begin_, none]
  isr := ⟨Nat.succ_pos _, Nat.succ_pos _⟩
  holds := by
    refine ⟨⟨Nat.succ_pos _, Nat.succ_pos _⟩, ?_, ?_⟩
    · simp [begin_, make, contents, ring, Ring.contents, Ring.used]
    · intro p kept
      by_cases none : parityOf config = .none
      · simp [begin_, none] at kept
      · simp only [begin_, none, ne_eq, not_false_eq_true, if_true, Option.some.injEq] at kept
        subst kept
        refine ⟨rfl, 0, .fresh ⟨Nat.succ_pos _, Nat.succ_pos _⟩ ?_⟩
        simp [make, ring, Ring.used]
  lost := rfl
  missed := rfl

end Esp8266.Source.SoftwareSerial
