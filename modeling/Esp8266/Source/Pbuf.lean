import Mathlib.Data.List.Basic

/-!
# Packet buffers

lwip/src/core/pbuf.c:685-1170, and `pbuf_skip_const` and `pbuf_get_contiguous` as
ESP8266WiFi/src/include/UdpContext.h:616-700 has them. A pointer to a pbuf is the chain from it
on, and the null pointer the empty chain. `tot_len` is the length of that chain, as `pbuf_cat`
keeps it. Owners of a chain may build an object in a pbuf of their own and mark it by its flags.
-/
set_option autoImplicit false

namespace Esp8266.Source

structure Pbuf (α : Type*) where
  payload : List UInt8
  /-- The object that a flagged pbuf holds. -/
  object : Option α
  ref : Nat

namespace Pbuf

variable {α : Type*}

def len (p : Pbuf α) : Nat := p.payload.length

/-- The bytes of a chain. -/
def bytes (chain : List (Pbuf α)) : List UInt8 := chain.flatMap payload

def totLen (chain : List (Pbuf α)) : Nat := (bytes chain).length

/-- A pbuf as lwIP hands it over. -/
def fresh (payload : List UInt8) : Pbuf α := ⟨payload, none, 1⟩

/-- `pbuf_cat`: the reference to the tail is passed on. -/
def cat (head tail : List (Pbuf α)) : List (Pbuf α) := head ++ tail

/-- `pbuf_ref`. -/
def reference : List (Pbuf α) → List (Pbuf α)
  | [] => []
  | p :: rest => { p with ref := p.ref + 1 } :: rest

/-- `pbuf_free`: the number of pbufs released, and the chain that is left. -/
def free : List (Pbuf α) → Nat × List (Pbuf α)
  | [] => (0, [])
  | p :: rest =>
    if p.ref - 1 = 0 then ((free rest).1 + 1, (free rest).2)
    else (0, { p with ref := p.ref - 1 } :: rest)

/-- What a pointer to the pbuf at `index` of a chain shows after `pbuf_free` of the chain. A
pointer to a released pbuf shows nothing. -/
def afterFree (index : Nat) (chain : List (Pbuf α)) : Option (List (Pbuf α)) :=
  let (released, left) := free chain
  if index < released then none else some (left.drop (index - released))

/-- `pbuf_skip_const`: the chain from the pbuf that holds `offset`, and the offset in it. -/
def skip : List (Pbuf α) → Nat → List (Pbuf α) × Nat
  | [], offset => ([], offset)
  | p :: rest, offset => if p.len ≤ offset then skip rest (offset - p.len) else (p :: rest, offset)

/-- `pbuf_get_at`. -/
def getAt (chain : List (Pbuf α)) (offset : Nat) : UInt8 :=
  match skip chain offset with
  | ([], _) => 0
  | (q :: _, offset) => q.payload.getD offset 0

/-- `pbuf_copy_partial`, with the bytes it copies. -/
def copyPartial : List (Pbuf α) → Nat → Nat → List UInt8
  | [], _, _ => []
  | p :: rest, len, offset =>
    if len = 0 then []
    else if offset ≠ 0 ∧ p.len ≤ offset then copyPartial rest len (offset - p.len)
    else
      let n := min (p.len - offset) len
      (p.payload.drop offset).take n ++ copyPartial rest (len - n) 0

/-- `pbuf_get_contiguous`, with the `len` bytes at the pointer it returns. -/
def getContiguous (chain : List (Pbuf α)) (bufsize len offset : Nat) : Option (List UInt8) :=
  if bufsize < len then none
  else
    match skip chain offset with
    | ([], _) => none
    | (q :: rest, offset) =>
      if offset + len ≤ q.len then some ((q.payload.drop offset).take len)
      else
        let copied := copyPartial (q :: rest) len offset
        if copied.length ≠ len then none else some copied

/-! ## Chains -/

@[simp] theorem bytes_nil : bytes ([] : List (Pbuf α)) = [] := rfl

@[simp] theorem bytes_cons (p : Pbuf α) (rest : List (Pbuf α)) :
    bytes (p :: rest) = p.payload ++ bytes rest := rfl

@[simp] theorem bytes_append (xs ys : List (Pbuf α)) : bytes (xs ++ ys) = bytes xs ++ bytes ys :=
  List.flatMap_append

@[simp] theorem bytes_reference (chain : List (Pbuf α)) :
    bytes (reference chain) = bytes chain := by
  cases chain <;> rfl

/-- Every pbuf of the chain is referenced once. -/
def Single (chain : List (Pbuf α)) : Prop := ∀ p ∈ chain, p.ref = 1

theorem Single.append {xs ys : List (Pbuf α)} (left : Single xs) (right : Single ys) :
    Single (xs ++ ys) := by
  intro p member
  rcases List.mem_append.1 member with inside | inside
  · exact left p inside
  · exact right p inside

theorem Single.left {xs ys : List (Pbuf α)} (single : Single (xs ++ ys)) : Single xs :=
  fun p member => single p (List.mem_append_left _ member)

theorem Single.right {xs ys : List (Pbuf α)} (single : Single (xs ++ ys)) : Single ys :=
  fun p member => single p (List.mem_append_right _ member)

theorem free_single {chain : List (Pbuf α)} (single : Single chain) :
    free chain = (chain.length, []) := by
  induction chain with
  | nil => rfl
  | cons p rest ih =>
    rw [free, single p List.mem_cons_self, if_pos rfl,
      ih fun q member => single q (List.mem_cons_of_mem _ member)]
    rfl

/-- The walk of `pbuf_free` ends at a pbuf that is referenced once more. -/
theorem free_reference {front back : List (Pbuf α)} (single : Single front)
    (singleBack : Single back) (kept : back ≠ []) :
    free (front ++ reference back) = (front.length, back) := by
  induction front with
  | nil =>
    cases back with
    | nil => exact absurd rfl kept
    | cons p rest =>
      obtain ⟨payload, object, ref⟩ := p
      have once : ref = 1 := singleBack _ List.mem_cons_self
      subst once
      rfl
  | cons p rest ih =>
    rw [List.cons_append, free, single p List.mem_cons_self, if_pos rfl,
      ih fun q member => single q (List.mem_cons_of_mem _ member)]
    rfl

/-- Giving up the pbufs in front of one that is kept. -/
theorem afterFree_reference {front back : List (Pbuf α)} (single : Single front)
    (singleBack : Single back) (kept : back ≠ []) :
    afterFree front.length (front ++ reference back) = some back := by
  rw [afterFree, free_reference single singleBack kept]
  simp

/-- Giving up a whole chain. -/
theorem afterFree_single {chain : List (Pbuf α)} (single : Single chain) :
    afterFree chain.length chain = some [] := by
  rw [afterFree, free_single single]
  simp

/-! ## Reading a chain -/

theorem skip_inside (chain : List (Pbuf α)) :
    ∀ offset, offset < totLen chain → ∃ q rest inner, skip chain offset = (q :: rest, inner) ∧
      inner < q.len ∧ (bytes (q :: rest)).drop inner = (bytes chain).drop offset := by
  induction chain with
  | nil => intro offset inside; exact absurd inside (Nat.not_lt_zero _)
  | cons p rest ih =>
    intro offset inside
    rw [totLen, bytes_cons, List.length_append] at inside
    by_cases beyond : p.len ≤ offset
    · have within : offset - p.len < totLen rest := by
        unfold totLen len at *
        omega
      obtain ⟨q, tail, inner, found, bound, same⟩ := ih _ within
      refine ⟨q, tail, inner, ?_, bound, ?_⟩
      · rw [skip, if_pos beyond, found]
      · rw [same, bytes_cons, List.drop_append, List.drop_of_length_le beyond,
          List.nil_append]
        rfl
    · exact ⟨p, rest, offset, by rw [skip, if_neg beyond], Nat.lt_of_not_le beyond, rfl⟩

theorem getAt_inside {chain : List (Pbuf α)} {offset : Nat} (inside : offset < totLen chain) :
    getAt chain offset = (bytes chain).getD offset 0 := by
  obtain ⟨q, rest, inner, found, bound, same⟩ := skip_inside chain offset inside
  have front : (bytes chain)[offset]? = q.payload[inner]? := by
    rw [← List.head?_drop, ← same, List.head?_drop, bytes_cons, List.getElem?_append_left bound]
  simp only [getAt, found, List.getD_eq_getElem?_getD, front]

theorem copyPartial_eq (chain : List (Pbuf α)) :
    ∀ len offset, copyPartial chain len offset = ((bytes chain).drop offset).take len := by
  induction chain with
  | nil => intro len offset; simp [copyPartial]
  | cons p rest ih =>
    intro len offset
    rw [copyPartial]
    split
    · next none => simp [none]
    · split
      · next beyond =>
        rw [ih, bytes_cons, List.drop_append, List.drop_of_length_le beyond.2,
          List.nil_append]
        rfl
      · next inside =>
        have started : offset ≤ p.len := by
          by_contra further
          exact inside ⟨by omega, by omega⟩
        simp only [ih, List.drop_zero, bytes_cons]
        rw [List.drop_append_of_le_length started, List.take_append, List.length_drop]
        have cut : (p.payload.drop offset).take (min (p.len - offset) len) =
            (p.payload.drop offset).take len := by
          rw [List.take_eq_take_iff, List.length_drop]
          unfold Pbuf.len
          omega
        rw [cut]
        congr 2
        unfold Pbuf.len
        omega

/-- Bytes that lie in the chain are found, in one pbuf or in several. -/
theorem getContiguous_inside {chain : List (Pbuf α)} {size offset : Nat}
    (inside : offset < totLen chain) (fits : offset + size ≤ totLen chain) :
    getContiguous chain size size offset = some (((bytes chain).drop offset).take size) := by
  obtain ⟨q, rest, inner, found, bound, same⟩ := skip_inside chain offset inside
  simp only [getContiguous, Nat.lt_irrefl, if_false, found]
  by_cases one : inner + size ≤ q.len
  · have short : size ≤ (q.payload.drop inner).length := by
      rw [List.length_drop]
      unfold len at one
      omega
    rw [if_pos one, ← same, bytes_cons, List.drop_append_of_le_length (Nat.le_of_lt bound),
      List.take_append_of_le_length short]
  · have whole : (((bytes chain).drop offset).take size).length = size := by
      rw [List.length_take, List.length_drop]
      unfold totLen at fits
      omega
    rw [if_neg one, copyPartial_eq, same, if_neg (not_not_intro whole)]

/-- A request for no bytes finds none. -/
theorem getContiguous_zero (chain : List (Pbuf α)) (offset : Nat) :
    getContiguous chain 0 0 offset = none ∨ getContiguous chain 0 0 offset = some [] := by
  simp only [getContiguous, Nat.lt_irrefl, if_false]
  rcases skip chain offset with ⟨_ | ⟨q, rest⟩, inner⟩
  · exact .inl rfl
  · right
    simp [copyPartial_eq]

end Pbuf
end Esp8266.Source
