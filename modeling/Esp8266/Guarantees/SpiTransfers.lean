import Esp8266.Guarantees.SpiPatterns
import Esp8266.Source.SpiTransfer

/-!
# Blocks and bytes on the SPI bus

A command of several bytes does what as many commands of one byte do. A block is read from memory
before anything is stored, a byte at a time is not: the two differ where `in_` begins within what
is sent of a block, behind its first byte.
-/
set_option autoImplicit false

namespace Esp8266.Source.SpiClass
open Registers

/-! ## Commands -/

theorem length_answers (slave : Slave) (out : List Bool) :
    ∀ sent, (answers slave sent out).length = out.length := by
  induction out with
  | nil => intro sent; rfl
  | cons bit out ih => intro sent; exact congrArg Nat.succ (ih (sent ++ [bit]))

theorem answers_append (slave : Slave) (xs ys : List Bool) :
    ∀ sent, answers slave sent (xs ++ ys) =
      answers slave sent xs ++ answers slave (sent ++ xs) ys := by
  induction xs with
  | nil => intro sent; rw [List.append_nil]; rfl
  | cons bit xs ih =>
    intro sent
    rw [List.cons_append, answers, ih (sent ++ [bit]), answers, List.append_assoc]
    rfl

/-- The bytes that come back for these, one after the other. -/
def exchanged (slave : Slave) (lsbFirst readLsbFirst : Bool) :
    List Bool → List UInt8 → List UInt8
  | _, [] => []
  | sent, b :: data =>
    byteOf readLsbFirst (answers slave sent (bits lsbFirst b)) ::
      exchanged slave lsbFirst readLsbFirst (sent ++ bits lsbFirst b) data

section

variable (slave : Slave) (lsbFirst readLsbFirst : Bool)

theorem length_exchanged (data : List UInt8) :
    ∀ sent, (exchanged slave lsbFirst readLsbFirst sent data).length = data.length := by
  induction data with
  | nil => intro sent; rfl
  | cons b data ih => intro sent; exact congrArg Nat.succ (ih _)

theorem exchanged_append (xs ys : List UInt8) :
    ∀ sent, exchanged slave lsbFirst readLsbFirst sent (xs ++ ys) =
      exchanged slave lsbFirst readLsbFirst sent xs ++
        exchanged slave lsbFirst readLsbFirst (sent ++ xs.flatMap (bits lsbFirst)) ys := by
  induction xs with
  | nil => intro sent; rw [List.flatMap_nil, List.append_nil]; rfl
  | cons b xs ih =>
    intro sent
    rw [List.cons_append, exchanged, ih, exchanged, List.flatMap_cons, List.append_assoc]
    rfl

/-- Every eight bits that come back make the byte that comes back for one. -/
theorem byteOf_answers (data : List UInt8) :
    ∀ (sent : List Bool) (j : Nat), j < data.length →
      byteOf readLsbFirst
          (((answers slave sent (data.flatMap (bits lsbFirst))).drop (8 * j)).take 8) =
        (exchanged slave lsbFirst readLsbFirst sent data).getD j 0 := by
  induction data with
  | nil => intro sent j inside; exact absurd inside (Nat.not_lt_zero j)
  | cons b data ih =>
    intro sent j inside
    have eight : (answers slave sent (bits lsbFirst b)).length = 8 := by
      rw [length_answers, length_bits]
    rw [List.flatMap_cons, answers_append, exchanged]
    cases j with
    | zero =>
      rw [Nat.mul_zero, List.drop_zero, List.take_left' eight]
      rfl
    | succ j =>
      have skip : 8 * (j + 1) = (answers slave sent (bits lsbFirst b)).length + 8 * j := by
        rw [eight]
        omega
      rw [skip, List.drop_length_add_append, List.getD_cons_succ]
      exact ih (sent ++ bits lsbFirst b) j (Nat.lt_of_succ_lt_succ inside)

end

/-- A command for whole bytes sends the first bytes of the FIFO and leaves there what comes back. -/
theorem duplex_spec (slave : Slave) (readLsbFirst : Bool) (s : Registers) {k : Nat}
    (most : k ≤ 64) (field : mosiField s.spi1U1 + 1 = 8 * k) {data : List UInt8}
    (loaded : (List.range k).map s.fifo = data) :
    (s.duplex slave readLsbFirst).mosi = s.mosi ++ data.flatMap (bits s.lsbFirst) ∧
      (∀ j < k, (s.duplex slave readLsbFirst).fifo j =
        (exchanged slave s.lsbFirst readLsbFirst s.mosi data).getD j 0) ∧
      (s.duplex slave readLsbFirst).lsbFirst = s.lsbFirst := by
  have length : data.length = k := by rw [← loaded, List.length_map, List.length_range]
  have out : ((List.range 64).flatMap fun j => bits s.lsbFirst (s.fifo j)).take
      (mosiField s.spi1U1 + 1) = data.flatMap (bits s.lsbFirst) := by
    rw [field, take_fifo s most, fifoBits, ← loaded, List.flatMap_map]
  have many : (answers slave s.mosi (data.flatMap (bits s.lsbFirst))).length = 8 * k := by
    rw [length_answers, ← length]
    exact length_flatMap_bits s.lsbFirst id data
  unfold duplex
  dsimp only
  rw [out, many]
  refine ⟨rfl, fun j inside => ?_, rfl⟩
  rw [if_pos (by omega)]
  exact byteOf_answers slave s.lsbFirst readLsbFirst data s.mosi j (length ▸ inside)

/-! ## What is seen of the host -/

/-- The host without what is in the FIFO and the length of the last command. -/
@[ext] structure Bus where
  mosi : List Bool
  memory : Nat → UInt8
  lsbFirst : Bool
  readLsbFirst : Bool

def Host.bus (s : Host) : Bus :=
  ⟨s.registers.mosi, s.memory, s.registers.lsbFirst, s.readLsbFirst⟩

/-- These bytes are stored one behind the other. -/
def put (memory : Nat → UInt8) (data : List UInt8) : Option Nat → Nat → UInt8
  | none => memory
  | some in_ => fun a =>
    if in_ ≤ a ∧ a < in_ + data.length then data.getD (a - in_) 0 else memory a

/-- The bytes for the slave. -/
def source (memory : Nat → UInt8) (out : Option Nat) (n : Nat) : List UInt8 :=
  (List.range n).map fun j => Host.outByte memory (out.map (· + j))

theorem put_nil (memory : Nat → UInt8) (in_ : Option Nat) : put memory [] in_ = memory := by
  cases in_ with
  | none => rfl
  | some in_ => exact funext fun a => if_neg (by rw [List.length_nil]; omega)

theorem put_append (memory : Nat → UInt8) (xs ys : List UInt8) (in_ : Option Nat) :
    put memory (xs ++ ys) in_ = put (put memory xs in_) ys (in_.map (· + xs.length)) := by
  cases in_ with
  | none => rfl
  | some in_ =>
    funext a
    change (if _ then _ else _) = if in_ + xs.length ≤ a ∧ a < in_ + xs.length + ys.length
      then ys.getD (a - (in_ + xs.length)) 0 else if _ then _ else _
    rw [List.length_append]
    by_cases first : a < in_ + xs.length
    · rw [if_neg (show ¬(in_ + xs.length ≤ a ∧ a < in_ + xs.length + ys.length) by omega)]
      by_cases behind : in_ ≤ a
      · rw [if_pos (show _ ∧ _ by omega), if_pos (show _ ∧ _ by omega),
          List.getD_append _ _ _ _ (by omega)]
      · rw [if_neg (by omega), if_neg (by omega)]
    · by_cases last : a < in_ + xs.length + ys.length
      · rw [if_pos (show _ ∧ _ by omega), if_pos (show _ ∧ _ by omega),
          List.getD_append_right _ _ _ _ (by omega), Nat.sub_add_eq]
      · rw [if_neg (by omega), if_neg (by omega), if_neg (by omega)]

theorem put_outside (memory : Nat → UInt8) (data : List UInt8) {in_ : Option Nat} {a : Nat}
    (outside : ∀ i, in_ = some i → a < i ∨ i + data.length ≤ a) :
    put memory data in_ a = memory a := by
  cases in_ with
  | none => rfl
  | some in_ =>
    have apart := outside in_ rfl
    exact if_neg (by omega)

theorem length_source (memory : Nat → UInt8) (out : Option Nat) (n : Nat) :
    (source memory out n).length = n := by
  rw [source, List.length_map, List.length_range]

theorem map_add_zero (p : Option Nat) : p.map (· + 0) = p := by cases p <;> rfl

theorem map_add_add (p : Option Nat) (m n : Nat) :
    (p.map (· + m)).map (· + n) = p.map (· + (m + n)) := by
  cases p with
  | none => rfl
  | some p => exact congrArg some (Nat.add_assoc p m n)

theorem source_succ (memory : Nat → UInt8) (out : Option Nat) (n : Nat) :
    source memory out (n + 1) =
      Host.outByte memory out :: source memory (out.map (· + 1)) n := by
  unfold source
  rw [List.range_succ_eq_map, List.map_cons, map_add_zero, List.map_map]
  refine congrArg _ (List.map_congr_left fun j _ => ?_)
  rw [map_add_add, Nat.add_comm 1 j]
  rfl

/-- What is not read may be written. -/
theorem source_put (memory : Nat → UInt8) (data : List UInt8) {out in_ : Option Nat} {n : Nat}
    (apart : ∀ o i, out = some o → in_ = some i → i + data.length ≤ o ∨ o + n ≤ i) :
    source (put memory data in_) out n = source memory out n := by
  cases out with
  | none => rfl
  | some o =>
    refine List.map_congr_left fun j member => ?_
    have below := List.mem_range.1 member
    refine put_outside memory data fun i given => ?_
    have away := apart o i rfl given
    change o + j < i ∨ _ ≤ o + j
    omega

namespace Bus

variable (slave : Slave)

/-- These bytes go out, and what comes back for them is stored. -/
def exchange (data : List UInt8) (in_ : Option Nat) (b : Bus) : Bus :=
  { b with mosi := b.mosi ++ data.flatMap (bits b.lsbFirst)
           memory := put b.memory (exchanged slave b.lsbFirst b.readLsbFirst b.mosi data) in_ }

theorem exchange_nil (in_ : Option Nat) (b : Bus) : exchange slave [] in_ b = b := by
  unfold exchange exchanged
  rw [put_nil, List.flatMap_nil, List.append_nil]

theorem exchange_append (xs ys : List UInt8) (in_ : Option Nat) (b : Bus) :
    exchange slave (xs ++ ys) in_ b =
      exchange slave ys (in_.map (· + xs.length)) (exchange slave xs in_ b) := by
  unfold exchange
  dsimp only
  rw [exchanged_append, put_append, length_exchanged, List.flatMap_append, List.append_assoc]

/-- One byte after the other, and each is read when its turn has come. -/
def each : Option Nat → Option Nat → Nat → Bus → Bus
  | _, _, 0, b => b
  | out, in_, n + 1, b =>
    each (out.map (· + 1)) (in_.map (· + 1)) n (exchange slave [Host.outByte b.memory out] in_ b)

theorem each_add (m n : Nat) (out in_ : Option Nat) (b : Bus) :
    each slave out in_ (m + n) b =
      each slave (out.map (· + m)) (in_.map (· + m)) n (each slave out in_ m b) := by
  induction m generalizing out in_ b with
  | zero =>
    rw [Nat.zero_add, map_add_zero, map_add_zero]
    rfl
  | succ m ih =>
    rw [Nat.succ_add, each, ih, map_add_add, map_add_add, Nat.add_comm 1 m]
    rfl

/-- Nothing that is still to be read is written: this is the same as all at once. -/
theorem each_eq_exchange (n : Nat) {out in_ : Option Nat} (b : Bus)
    (apart : ∀ o i, out = some o → in_ = some i → i ≤ o ∨ o + n ≤ i) :
    each slave out in_ n b = exchange slave (source b.memory out n) in_ b := by
  induction n generalizing out in_ b with
  | zero => exact (exchange_nil slave in_ b).symm
  | succ n ih =>
    have next : ∀ o i, out.map (· + 1) = some o → in_.map (· + 1) = some i →
        i ≤ o ∨ o + n ≤ i := by
      intro o i outNext inNext
      obtain ⟨o', given, rfl⟩ := Option.map_eq_some_iff.1 outNext
      obtain ⟨i', place, rfl⟩ := Option.map_eq_some_iff.1 inNext
      have away := apart o' i' given place
      omega
    have unread : source (exchange slave [Host.outByte b.memory out] in_ b).memory
        (out.map (· + 1)) n = source b.memory (out.map (· + 1)) n := by
      refine source_put _ _ fun o i outNext place => ?_
      obtain ⟨o', given, rfl⟩ := Option.map_eq_some_iff.1 outNext
      have away := apart o' i given place
      rw [length_exchanged, List.length_singleton]
      omega
    rw [each, ih _ next, unread, source_succ]
    exact (exchange_append slave [_] _ in_ b).symm

/-- Memory elsewhere is kept. -/
theorem each_outside (n : Nat) {out in_ : Option Nat} (b : Bus) {a : Nat}
    (outside : ∀ i, in_ = some i → a < i ∨ i + n ≤ a) :
    (each slave out in_ n b).memory a = b.memory a := by
  induction n generalizing out in_ b with
  | zero => rfl
  | succ n ih =>
    rw [each, ih]
    · refine put_outside _ _ fun i place => ?_
      have away := outside i place
      rw [length_exchanged, List.length_singleton]
      omega
    · intro i inNext
      obtain ⟨i', place, rfl⟩ := Option.map_eq_some_iff.1 inNext
      have away := outside i' place
      omega

end Bus

namespace Host

variable (slave : Slave)

/-! ## Bytes -/

/-- A byte goes out, and the one that comes back is returned. -/
theorem transfer_spec (data : UInt8) (s : Host) :
    (transfer slave data s).2.bus = Bus.exchange slave [data] none s.bus ∧
      [(transfer slave data s).1] = exchanged slave s.registers.lsbFirst s.readLsbFirst
        s.registers.mosi [data] := by
  have eight : (8 : UInt16) = UInt16.ofNat (8 * 1) := by decide
  have field : mosiField (s.registers.setDataBits 8).spi1U1 + 1 = 8 * 1 := by
    rw [eight]
    exact field_of_bytes s.registers Nat.one_ne_zero (by decide)
  have spec := fun r : Registers => duplex_spec slave s.readLsbFirst r (show 1 ≤ 64 by decide)
  obtain ⟨mosi, back, order⟩ := spec { s.registers.setDataBits 8 with
    fifo := fun j => if j = 0 then data else if j < 4 then 0 else s.registers.fifo j } field rfl
  refine ⟨?_, congrArg (fun b => [b]) (back 0 Nat.one_pos)⟩
  exact congr (congrArg (fun m l => Bus.mk m s.memory l s.readLsbFirst) mosi) order

theorem storeIn_eq (memory : Nat → UInt8) (b : UInt8) (in_ : Option Nat) :
    storeIn memory b in_ = put memory [b] in_ := by
  cases in_ with
  | none => rfl
  | some in_ =>
    funext a
    change (if a = in_ then b else memory a) =
      if in_ ≤ a ∧ a < in_ + 1 then [b].getD (a - in_) 0 else memory a
    by_cases here : a = in_
    · rw [if_pos here, if_pos (by omega), here, Nat.sub_self]
      rfl
    · rw [if_neg here, if_neg (by omega)]

/-- A byte that is stored as it comes back. -/
theorem bus_storeIn (data : UInt8) (in_ : Option Nat) (s : Host) :
    ({ (transfer slave data s).2 with
        memory := storeIn (transfer slave data s).2.memory (transfer slave data s).1 in_ } :
      Host).bus = Bus.exchange slave [data] in_ s.bus := by
  obtain ⟨seen, back⟩ := transfer_spec slave data s
  have kept : (transfer slave data s).2.memory = s.memory := rfl
  rw [storeIn_eq, back, kept]
  exact congrArg (fun b : Bus => { b with memory := put s.memory (exchanged slave
    s.registers.lsbFirst s.readLsbFirst s.registers.mosi [data]) in_ }) seen

theorem bus_transferEach (n : Nat) (out in_ : Option Nat) (s : Host) :
    (transferEach slave out in_ n s).bus = Bus.each slave out in_ n s.bus := by
  induction n generalizing out in_ s with
  | zero => rfl
  | succ n ih =>
    rw [transferEach, Bus.each]
    exact (ih _ _ _).trans (congrArg _ (bus_storeIn slave _ in_ s))

/-! ## Blocks -/

theorem storeBytes_eq (fifo : Nat → UInt8) (n in_ p : Nat) (memory : Nat → UInt8) (a : Nat) :
    storeBytes fifo n in_ p memory a =
      if in_ ≤ a ∧ a < in_ + n then fifo (p + (a - in_)) else memory a := by
  induction n generalizing in_ p memory with
  | zero => rw [if_neg (by omega), storeBytes]
  | succ n ih =>
    rw [storeBytes, ih]
    by_cases here : a = in_
    · rw [if_neg (by omega), if_pos (by omega), store, if_pos here, here, Nat.sub_self]
      rfl
    · by_cases behind : in_ + 1 ≤ a ∧ a < in_ + 1 + n
      · rw [if_pos behind, if_pos (by omega)]
        congr 1
        omega
      · rw [if_neg behind, if_neg (by omega), store, if_neg here]

theorem storeWords_eq (fifo : Nat → UInt8) (n in_ p : Nat) (memory : Nat → UInt8) (a : Nat) :
    storeWords fifo n in_ p memory a =
      if in_ ≤ a ∧ a < in_ + n then fifo (p + (a - in_)) else memory a := by
  induction n, in_, p, memory using storeWords.induct fifo with
  | case1 n in_ p memory word ih =>
    simp only [dite_eq_ite] at ih
    rw [storeWords, if_pos word, ih]
    by_cases behind : in_ + 4 ≤ a ∧ a < in_ + 4 + (n - 4)
    · rw [if_pos behind, if_pos (by omega)]
      congr 1
      omega
    · rw [if_neg behind]
      by_cases first : in_ ≤ a ∧ a < in_ + 4
      · rw [if_pos first, if_pos (by omega)]
      · rw [if_neg first, if_neg (by omega)]
  | case2 n in_ p memory rest =>
    rw [storeWords, if_neg rest, storeBytes_eq]

theorem storeWords_put (fifo : Nat → UInt8) (memory : Nat → UInt8) (in_ : Nat)
    (data : List UInt8) (held : ∀ j < data.length, fifo j = data.getD j 0) :
    storeWords fifo data.length in_ 0 memory = put memory data (some in_) := by
  funext a
  change _ = if in_ ≤ a ∧ a < in_ + data.length then data.getD (a - in_) 0 else memory a
  rw [storeWords_eq]
  by_cases within : in_ ≤ a ∧ a < in_ + data.length
  · rw [if_pos within, if_pos within, Nat.zero_add, held (a - in_) (by omega)]
  · rw [if_neg within, if_neg within]

/-- The FIFO holds the bytes: they are sent, and those that come back are stored. -/
theorem bus_load (s : Host) (r : Registers) (in_ : Option Nat) {data : List UInt8} {k : Nat}
    (number : data.length = k) (most : k ≤ 64) (field : mosiField r.spi1U1 + 1 = 8 * k)
    (loaded : (List.range k).map r.fifo = data) (sent : r.mosi = s.registers.mosi)
    (order : r.lsbFirst = s.registers.lsbFirst) :
    ({ s with registers := r.duplex slave s.readLsbFirst
              memory := match in_ with
                | some in_ => storeWords (r.duplex slave s.readLsbFirst).fifo k in_ 0 s.memory
                | none => s.memory } : Host).bus = Bus.exchange slave data in_ s.bus := by
  obtain ⟨mosi, back, kept⟩ := duplex_spec slave s.readLsbFirst r most field loaded
  rw [sent, order] at mosi back
  rw [order] at kept
  refine Bus.ext mosi ?_ kept rfl
  cases in_ with
  | none => rfl
  | some in_ =>
    rw [← number, ← length_exchanged slave s.registers.lsbFirst s.readLsbFirst data
      s.registers.mosi] at back
    have stored := storeWords_put _ s.memory in_ _ back
    rw [length_exchanged, number] at stored
    exact stored

/-- The words that are copied hold all the bytes that are sent. -/
theorem fillFifo_load (r : Registers) (k : Nat) (data : Nat → UInt8) :
    (List.range k).map (r.fillFifo ((k + 3) / 4) data).fifo = (List.range k).map data := by
  refine List.map_congr_left fun j member => ?_
  have below := List.mem_range.1 member
  exact if_pos (by omega)

/-- A load of the FIFO, each side at a word. -/
theorem transferBytesAligned_spec (out in_ : Option Nat) (size : UInt8) (s : Host)
    (few : size.toNat ≤ 64) (words : IsAligned out ∧ IsAligned in_) :
    ∃ s', transferBytesAligned_ slave out in_ size s = some s' ∧
      s'.bus = Bus.exchange slave (source s.memory out size.toNat) in_ s.bus := by
  unfold transferBytesAligned_
  by_cases zero : size = 0
  · rw [if_pos zero, zero]
    exact ⟨s, rfl, (Bus.exchange_nil slave in_ s.bus).symm⟩
  have some_bytes : size.toNat ≠ 0 := fun none_left => zero (UInt8.toNat_inj.1 none_left)
  have field : mosiField (s.registers.setDataBits (UInt16.ofNat (size.toNat * 8))).spi1U1 + 1 =
      8 * size.toNat := by
    rw [Nat.mul_comm]
    exact field_of_bytes s.registers some_bytes few
  rw [if_neg zero, if_pos words]
  generalize prepared : s.registers.setDataBits (UInt16.ofNat (size.toNat * 8)) = r at field
  have sent : r.mosi = s.registers.mosi := by rw [← prepared]; rfl
  have order : r.lsbFirst = s.registers.lsbFirst := by rw [← prepared]; rfl
  have number := length_source s.memory out size.toNat
  cases out with
  | none =>
    exact ⟨_, rfl, bus_load slave s (r.fillFifo ((size.toNat + 3) / 4) fun _ => 0xFF) in_ number few
      field (fillFifo_load r size.toNat _) sent order⟩
  | some out =>
    exact ⟨_, rfl, bus_load slave s (r.fillFifo ((size.toNat + 3) / 4) fun j => s.memory (out + j))
      in_ number few field (fillFifo_load r size.toNat _) sent order⟩

/-- What came back to a buffer of its own is copied to where it belongs. -/
theorem bus_copyBack (s s' : Host) (aligned : Nat → UInt8) (in_ : Option Nat) {data : List UInt8}
    {k : Nat} (number : data.length = k) :
    s'.bus = Bus.exchange slave data (in_.map fun _ => 0)
        ({ s with memory := aligned } : Host).bus →
      ({ s' with memory := match in_ with
          | some in_ => fun a =>
            if in_ ≤ a ∧ a < in_ + k then s'.memory (a - in_) else s.memory a
          | none => s.memory } : Host).bus = Bus.exchange slave data in_ s.bus := by
  intro seen
  have mosi := congrArg Bus.mosi seen
  have order := congrArg Bus.lsbFirst seen
  have readOrder := congrArg Bus.readLsbFirst seen
  refine Bus.ext mosi ?_ order readOrder
  cases in_ with
  | none => rfl
  | some in_ =>
    have stored := congrArg Bus.memory seen
    have back := length_exchanged slave s.bus.lsbFirst s.bus.readLsbFirst data s.bus.mosi
    rw [number] at back
    funext a
    change (if in_ ≤ a ∧ a < in_ + k then s'.memory (a - in_) else s.memory a) =
      put s.memory _ (some in_) a
    by_cases within : in_ ≤ a ∧ a < in_ + k
    · rw [if_pos within]
      refine (congrFun stored (a - in_)).trans ?_
      refine (if_pos ⟨Nat.zero_le _, ?_⟩).trans (if_pos ⟨within.1, ?_⟩).symm
      · exact lt_of_lt_of_eq (by omega) (congrArg (0 + ·) back).symm
      · exact lt_of_lt_of_eq within.2 (congrArg (in_ + ·) back).symm
    · rw [if_neg within]
      refine (put_outside s.memory _ fun i place => ?_).symm
      have here : in_ = i := Option.some.inj place
      rw [back, ← here]
      omega

/-- A load of the FIFO, by way of the buffer on the stack where a side is not at a word. -/
theorem transferBytes_spec (stack : Nat → UInt8) (out in_ : Option Nat) (size : UInt8) (s : Host)
    (few : size.toNat ≤ 64) :
    ∃ s', transferBytes_ slave stack out in_ size s = some s' ∧
      s'.bus = Bus.exchange slave (source s.memory out size.toNat) in_ s.bus := by
  unfold transferBytes_
  by_cases words : IsAligned out ∧ IsAligned in_
  · rw [if_pos words]
    exact transferBytesAligned_spec slave out in_ size s few words
  rw [if_neg words]
  have start (p : Option Nat) : IsAligned (p.map fun _ => 0) := by cases p <;> rfl
  have number := length_source s.memory out size.toNat
  have load (aligned : Nat → UInt8) := transferBytesAligned_spec slave (out.map fun _ => 0)
    (in_.map fun _ => 0) size { s with memory := aligned } few ⟨start out, start in_⟩
  cases out with
  | none =>
    obtain ⟨s', done, seen⟩ := load stack
    exact ⟨_, congrArg (Option.map _) done, bus_copyBack slave s s' stack in_ number seen⟩
  | some out =>
    let aligned := fun j => if j < size.toNat then s.memory (out + j) else stack j
    have copied : source aligned (some 0) size.toNat = source s.memory (some out) size.toNat := by
      refine List.map_congr_left fun j member => ?_
      change (if 0 + j < size.toNat then s.memory (out + (0 + j)) else stack (0 + j)) = _
      rw [Nat.zero_add, if_pos (List.mem_range.1 member)]
      rfl
    obtain ⟨s', done, seen⟩ := load aligned
    exact ⟨_, congrArg (Option.map _) done,
      bus_copyBack slave s s' aligned in_ number (copied ▸ seen)⟩

/-! ## Loads one after the other -/

/-- `in_` does not begin within what a load sends, behind its first byte. -/
def Apart (out in_ : Option Nat) (size : Nat) : Prop :=
  ∀ o i, out = some o → in_ = some i → i ≤ o ∨ o + min 64 size ≤ i

/-- Memory that is not behind `in_` is as it was. -/
def KeepsOutside (in_ : Option Nat) (size : Nat) (s s' : Host) : Prop :=
  ∀ a, (∀ i, in_ = some i → a < i ∨ i + size ≤ a) → s'.memory a = s.memory a

/-- Blocks do what a byte after the other does. -/
theorem bus_transferBytes (stack : Nat → UInt8) (out in_ : Option Nat) (size : Nat) (s : Host) :
    ∃ s', transferBytes slave stack out in_ size s = some s' ∧ KeepsOutside in_ size s s' ∧
      (Apart out in_ size → s'.bus = Bus.each slave out in_ size s.bus) := by
  induction size using Nat.strong_induction_on generalizing out in_ s with
  | _ size ih =>
    rw [transferBytes]
    by_cases zero : size = 0
    · rw [if_pos zero, zero]
      exact ⟨s, rfl, fun _ _ => rfl, fun _ => rfl⟩
    rw [if_neg zero]
    have load (k : UInt8) (few : k.toNat ≤ 64) (less : k.toNat ≤ size)
        (whole : k.toNat = min 64 size) :
        ∃ s', transferBytes_ slave stack out in_ k s = some s' ∧ KeepsOutside in_ size s s' ∧
          (Apart out in_ size → s'.bus = Bus.each slave out in_ k.toNat s.bus) := by
      obtain ⟨s', load, seen⟩ := transferBytes_spec slave stack out in_ k s few
      refine ⟨s', load, fun a outside => ?_, fun apart => ?_⟩
      · refine (congrFun (congrArg Bus.memory seen) a).trans (put_outside _ _ fun i place => ?_)
        have away := outside i place
        rw [length_exchanged, length_source]
        omega
      · exact seen.trans (Bus.each_eq_exchange slave k.toNat s.bus (whole ▸ apart)).symm
    by_cases many : 64 < size
    · rw [if_pos many]
      obtain ⟨s₁, first, kept₁, seen₁⟩ := load 64 (Nat.le_refl 64) (Nat.le_of_lt many)
        (Nat.min_eq_left (Nat.le_of_lt many)).symm
      obtain ⟨s₂, rest, kept₂, seen₂⟩ :=
        ih (size - 64) (by omega) (out.map (· + 64)) (in_.map (· + 64)) s₁
      refine ⟨s₂, ?_, fun a outside => ?_, fun apart => ?_⟩
      · rw [first]
        exact rest
      · refine (kept₂ a fun i inNext => ?_).trans (kept₁ a outside)
        obtain ⟨i', place, rfl⟩ := Option.map_eq_some_iff.1 inNext
        have away := outside i' place
        omega
      · have next : Apart (out.map (· + 64)) (in_.map (· + 64)) (size - 64) := by
          intro o i outNext inNext
          obtain ⟨o', given, rfl⟩ := Option.map_eq_some_iff.1 outNext
          obtain ⟨i', place, rfl⟩ := Option.map_eq_some_iff.1 inNext
          have away := apart o' i' given place
          omega
        have sum : size = 64 + (size - 64) := by omega
        rw [seen₂ next, seen₁ apart, sum, Bus.each_add, Nat.add_sub_cancel_left]
        rfl
    · rw [if_neg many]
      have length : (UInt8.ofNat size).toNat = size := by
        rw [UInt8.toNat_ofNat']
        omega
      obtain ⟨s', done, kept, seen⟩ := load (UInt8.ofNat size) (by omega) (by omega) (by omega)
      rw [length] at seen
      exact ⟨s', done, kept, seen⟩

/-! ## A buffer in place -/

theorem bus_transferAt (cbuf : Nat) (s : Host) :
    (transferAt slave cbuf s).bus = Bus.each slave (some cbuf) (some cbuf) 1 s.bus :=
  bus_storeIn slave (s.memory cbuf) (some cbuf) s

theorem bus_transferLast (n cbuf : Nat) (s : Host) :
    (transferLast slave n cbuf s).bus = Bus.each slave (some cbuf) (some cbuf) n s.bus := by
  induction n generalizing cbuf s with
  | zero => rfl
  | succ n ih =>
    rw [transferLast, ih, bus_transferAt]
    rfl

/-- What is left at the next word is the rest. -/
theorem bus_transferUnaligned (count cbuf : Nat) (s : Host) :
    ∃ m n s', transferUnaligned slave count cbuf s = (n, cbuf + m, s') ∧ m + n = count ∧
      s'.bus = Bus.each slave (some cbuf) (some cbuf) m s.bus := by
  induction count generalizing cbuf s with
  | zero => exact ⟨0, 0, s, rfl, rfl, rfl⟩
  | succ count ih =>
    rw [transferUnaligned]
    by_cases odd : cbuf % 4 ≠ 0
    · obtain ⟨m, n, s', left, sum, seen⟩ := ih (cbuf + 1) (transferAt slave cbuf s)
      rw [if_pos odd, left]
      refine ⟨m + 1, n, s', ?_, by omega, ?_⟩
      · rw [Nat.add_assoc, Nat.add_comm 1 m]
      · rw [seen, bus_transferAt]
        rfl
    · rw [if_neg odd]
      exact ⟨0, count + 1, s, rfl, Nat.zero_add _, rfl⟩

theorem bus_transferBuffer (stack : Nat → UInt8) (buf : Nat) (count : UInt16) (s : Host) :
    ∃ s', transferBuffer slave stack buf count s = some s' ∧
      s'.bus = Bus.each slave (some buf) (some buf) count.toNat s.bus := by
  obtain ⟨m, n, s₁, left, sum, first⟩ := bus_transferUnaligned slave count.toNat buf s
  obtain ⟨s₂, words, -, second⟩ := bus_transferBytes slave stack (some (buf + m)) (some (buf + m))
    (n / 4 * 4) s₁
  have here : Apart (some (buf + m)) (some (buf + m)) (n / 4 * 4) := by
    intro o i given place
    left
    rw [← Option.some.inj given, ← Option.some.inj place]
  unfold transferBuffer
  rw [left]
  dsimp only
  rw [words]
  refine ⟨_, rfl, ?_⟩
  have parts : count.toNat = m + (n / 4 * 4 + (n - n / 4 * 4)) := by omega
  rw [bus_transferLast, second here, first, parts, Bus.each_add, Bus.each_add]
  rfl

/-- The bits that were sent and the memory are those that bytes one after the other lead to. -/
def IsLikeEach (out in_ : Option Nat) (size : Nat) (s s' : Host) : Prop :=
  s'.registers.mosi = (transferEach slave out in_ size s).registers.mosi ∧
    s'.memory = (transferEach slave out in_ size s).memory

theorem isLikeEach_of_bus {out in_ : Option Nat} {size : Nat} {s s' : Host}
    (seen : s'.bus = Bus.each slave out in_ size s.bus) : IsLikeEach slave out in_ size s s' := by
  have same := seen.trans (bus_transferEach slave size out in_ s).symm
  exact ⟨congrArg Bus.mosi same, congrArg Bus.memory same⟩

/-- Blocks send and store what as many bytes do, unless a block is stored over bytes of its own
that are still to go out then, and nothing else is written. -/
theorem block_transfer (stack : Nat → UInt8) (s : Host) :
    (∀ out in_ size, ∃ s', transferBytes slave stack out in_ size s = some s' ∧
      KeepsOutside in_ size s s' ∧ (Apart out in_ size → IsLikeEach slave out in_ size s s')) ∧
    ∀ buf count, ∃ s', transferBuffer slave stack buf count s = some s' ∧
      KeepsOutside (some buf) count.toNat s s' ∧
      IsLikeEach slave (some buf) (some buf) count.toNat s s' := by
  constructor
  · intro out in_ size
    obtain ⟨s', done, kept, seen⟩ := bus_transferBytes slave stack out in_ size s
    exact ⟨s', done, kept, fun apart => isLikeEach_of_bus slave (seen apart)⟩
  · intro buf count
    obtain ⟨s', done, seen⟩ := bus_transferBuffer slave stack buf count s
    refine ⟨s', done, fun a outside => ?_, isLikeEach_of_bus slave seen⟩
    exact (congrFun (congrArg Bus.memory seen) a).trans
      (Bus.each_outside slave count.toNat s.bus outside)

end Host

/-! ## An example -/

/-- Memory of ones and an idle bus. -/
def exampleHost : Host := ⟨⟨fun _ => 0, 0, false, []⟩, false, fun _ => 0xFF⟩

/-- Three bytes from one place to another. -/
theorem block_transfer_three :
    ∃ s', Host.transferBytes (fun _ => false) (fun _ => 0) (some 0) (some 100) 3 exampleHost =
      some s' ∧ Host.IsLikeEach (fun _ => false) (some 0) (some 100) 3 exampleHost s' := by
  obtain ⟨s', done, -, like⟩ :=
    (Host.block_transfer (fun _ => false) (fun _ => 0) exampleHost).1 (some 0) (some 100) 3
  refine ⟨s', done, like fun o i given place => ?_⟩
  rw [← Option.some.inj given, ← Option.some.inj place]
  decide

/-- Two bytes to the place of the second one: it goes out as it was, and as it has become. -/
theorem transferBytes_overlapping :
    (Host.transferBytes (fun _ => false) (fun _ => 0) (some 0) (some 1) 2 exampleHost).map
        (fun s' => s'.registers.mosi) ≠
      some (Host.transferEach (fun _ => false) (some 0) (some 1) 2 exampleHost).registers.mosi := by
  rw [Host.transferBytes, if_neg (by decide), if_neg (by decide)]
  decide

end Esp8266.Source.SpiClass
