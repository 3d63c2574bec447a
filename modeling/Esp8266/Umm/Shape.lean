import Mathlib.Logic.Function.Basic
import Esp8266.Lib.LinkedRing
import Esp8266.Lib.Segments
import Esp8266.Source.UmmMalloc

/-!
# The shape of the heap

A block number and the mark of a free block share a word. The headers divide the heap into segments,
and the free ones are linked in a ring whose root is block 0. Segments are replaced by others in
their place; what one function of the allocator changes is stated once, with the words it leaves and
the user's bytes it keeps.
-/
set_option autoImplicit false

namespace Esp8266.Umm
open Esp8266.Lib Esp8266.Lib.ByteMemory Esp8266.Source.UmmMalloc

/-! ## Words -/

theorem Field.offset_le (f : Field) : f.offset ≤ 6 := by
  cases f <;> decide

theorem Field.offset_even (f : Field) : f.offset % 2 = 0 := by
  cases f <;> rfl

theorem Field.offset_injective {f g : Field} (same : f.offset = g.offset) : f = g := by
  cases f <;> cases g <;> first | rfl | exact absurd same (by decide)

theorem field_lt (f : Field) (m : Ram) (b : Nat) : field f m b < 2 ^ 16 := half_lt _ _

theorem field_setField_self (f : Field) (c value : Nat) (m : Ram) :
    field f (setField f c value m) = Function.update (field f m) c (value % 2 ^ 16) := by
  funext b
  rcases eq_or_ne b c with rfl | different
  · rw [Function.update_self]
    exact half_setHalf _ _ _
  · rw [Function.update_of_ne different]
    exact half_setHalf_other _ _ (by omega)

theorem field_setField_ne {f g : Field} (different : f ≠ g) (c value : Nat) (m : Ram) :
    field f (setField g c value m) = field f m := by
  funext b
  refine half_setHalf_other _ _ ?_
  have apart : f.offset ≠ g.offset := fun same => different (Field.offset_injective same)
  have f_le := Field.offset_le f
  have g_le := Field.offset_le g
  have f_even := Field.offset_even f
  have g_even := Field.offset_even g
  omega

/-! ## Marks -/

/-- A block number with the mark of a free block. -/
def tag (free : Bool) (b : Nat) : Nat := if free then b + 2 ^ 15 else b

theorem tag_lt {b : Nat} (free : Bool) (small : b < 2 ^ 15) : tag free b < 2 ^ 16 := by
  unfold tag
  split <;> omega

theorem and_blocknoMask (n : Nat) : n &&& blocknoMask = n % 2 ^ 15 :=
  Nat.and_two_pow_sub_one_eq_mod n 15

theorem or_freelistMask {b : Nat} (small : b < 2 ^ 15) : b ||| freelistMask = b + 2 ^ 15 := by
  have disjoint := Nat.two_pow_add_eq_or_of_lt small 1
  rw [Nat.mul_one] at disjoint
  rw [Nat.add_comm, disjoint, Nat.or_comm]
  rfl

theorem and_freelistMask_tag {b : Nat} (free : Bool) (small : b < 2 ^ 15) :
    tag free b &&& freelistMask = if free then freelistMask else 0 := by
  have clear : b &&& freelistMask = 0 := by
    have bits : b &&& freelistMask = (b / 2 ^ 15 * 2 ^ 15) &&& freelistMask := by
      apply Nat.eq_of_testBit_eq
      intro i
      have mask : freelistMask = 2 ^ 15 := rfl
      rw [Nat.testBit_and, Nat.testBit_and, mask, Nat.testBit_two_pow, Nat.testBit_mul_two_pow,
        Nat.testBit_div_two_pow]
      by_cases here : 15 = i
      · subst here
        simp
      · simp [here]
    rw [bits, Nat.div_eq_of_lt small, Nat.zero_mul, Nat.zero_and]
  cases free with
  | false => exact clear
  | true =>
    have mask : freelistMask &&& freelistMask = freelistMask := Nat.and_self _
    change (b + 2 ^ 15) &&& freelistMask = freelistMask
    rw [← or_freelistMask small, Nat.and_or_distrib_right, clear, mask, Nat.zero_or]

theorem following_eq {m : Ram} {b c : Nat} {free : Bool} (stored : nblock m b = tag free c)
    (small : c < 2 ^ 15) : following m b = c := by
  rw [following, stored, and_blocknoMask, tag]
  split <;> omega

theorem marked_eq {m : Ram} {b c : Nat} {free : Bool} (stored : nblock m b = tag free c)
    (small : c < 2 ^ 15) : marked m b = free := by
  rw [marked, stored, and_freelistMask_tag free small]
  cases free <;> rfl

theorem sub16_of_le {a b : Nat} (le : b ≤ a) (small : a < 2 ^ 16) : sub16 a b = a - b := by
  unfold sub16
  omega

theorem blockOf_data {b : Nat} (small : b < 2 ^ 15) : blockOf (data b) = b := by
  unfold blockOf data
  omega

/-! ## Bytes of a block -/

/-- The bytes that belong to the user of a block are the same. -/
def Keeps (s : Segment) (m m' : Ram) : Prop :=
  ∀ x, data s.start ≤ x → x < 8 * s.stop → m'.byte x = m.byte x

theorem Keeps.refl (s : Segment) (m : Ram) : Keeps s m m := fun _ _ _ => rfl

theorem Keeps.trans {s : Segment} {m m' m'' : Ram} (first : Keeps s m m')
    (second : Keeps s m' m'') : Keeps s m m'' :=
  fun x low high => (second x low high).trans (first x low high)

/-- Part of a block is kept with the block. -/
theorem Keeps.mono {s t : Segment} {m m' : Ram} (keeps : Keeps s m m')
    (low : s.start ≤ t.start) (high : t.stop ≤ s.stop) : Keeps t m m' := by
  intro x above below
  unfold data at above
  exact keeps x (by unfold data; omega) (by omega)

/-- A word of another block, or of the header, is written. -/
theorem keeps_setField {s : Segment} {f : Field} {b : Nat} (value : Nat) (m : Ram)
    (apart : b < s.start ∨ s.stop ≤ b ∨ b = s.start ∧ f.offset ≤ 2) :
    Keeps s m (setField f b value m) := by
  intro x above below
  have offset := Field.offset_le f
  unfold data at above
  refine setHalf_outside _ _ ?_
  omega

/-! ## Headers and the free list -/

/-- Block 0, which is never free. -/
def root : Segment := ⟨0, 1, false⟩

/-- The headers of the segments up to the last block. -/
structure Headers (m : Ram) (last : Nat) (segs : List Segment) : Prop where
  tiles : Tiles 0 segs last
  small : last < 2 ^ 15
  root_mem : root ∈ segs
  nblock_eq : ∀ s ∈ segs, nblock m s.start = tag s.free s.stop
  pblock_eq : ∀ s ∈ segs, pblock m s.stop = s.start
  closed : nblock m last = 0

namespace Headers

variable {m m' : Ram} {last lo hi : Nat} {segs pre old new post : List Segment} {s t : Segment}

theorem stop_le (h : Headers m last segs) (member : s ∈ segs) : s.stop ≤ last :=
  (h.tiles.bounds member).2.2

theorem size_pos (h : Headers m last segs) (member : s ∈ segs) : 0 < s.size :=
  (h.tiles.bounds member).2.1

theorem start_lt (h : Headers m last segs) (member : s ∈ segs) : s.start < last := by
  have size := h.size_pos member
  have stop := h.stop_le member
  unfold Segment.stop at stop
  omega

theorem following_eq (h : Headers m last segs) (member : s ∈ segs) :
    following m s.start = s.stop :=
  Umm.following_eq (h.nblock_eq s member) (Nat.lt_of_le_of_lt (h.stop_le member) h.small)

theorem marked_eq (h : Headers m last segs) (member : s ∈ segs) : marked m s.start = s.free :=
  Umm.marked_eq (h.nblock_eq s member) (Nat.lt_of_le_of_lt (h.stop_le member) h.small)

theorem nblock_used (h : Headers m last segs) (member : s ∈ segs) (used : s.free = false) :
    nblock m s.start = s.stop := by
  rw [h.nblock_eq s member, used]
  rfl

theorem marked_last (h : Headers m last segs) : marked m last = false := by
  rw [marked, h.closed]
  rfl

theorem congr (h : Headers m last segs) (nblock_eq : nblock m' = nblock m)
    (pblock_eq : pblock m' = pblock m) : Headers m' last segs :=
  { h with
    nblock_eq := fun s member => nblock_eq ▸ h.nblock_eq s member
    pblock_eq := fun s member => pblock_eq ▸ h.pblock_eq s member
    closed := nblock_eq ▸ h.closed }

/-- Segments may be replaced in their place. -/
theorem splice (h : Headers m last (pre ++ (old ++ post))) (front : Tiles 0 pre lo)
    (filled : Tiles lo new hi) (behind : Tiles hi post last) (later : 0 < lo)
    (nblock_same : ∀ b, b < lo ∨ hi ≤ b → nblock m' b = nblock m b)
    (pblock_same : ∀ b, b ≤ lo ∨ hi < b → pblock m' b = pblock m b)
    (stored : ∀ s ∈ new, nblock m' s.start = tag s.free s.stop ∧ pblock m' s.stop = s.start) :
    Headers m' last (pre ++ (new ++ post)) := by
  have tiles : Tiles 0 (pre ++ (new ++ post)) last :=
    Tiles.append_iff.2 ⟨lo, front, Tiles.append_iff.2 ⟨hi, filled, behind⟩⟩
  have in_front : ∀ s ∈ pre, s ∈ pre ++ (old ++ post) := fun s => List.mem_append_left _
  have in_back : ∀ s ∈ post, s ∈ pre ++ (old ++ post) := fun s member =>
    List.mem_append_right pre (List.mem_append_right old member)
  have root_front : root ∈ pre := by
    cases pre with
    | nil => exact absurd front (by unfold Tiles; omega)
    | cons s pre =>
      have first : s = root := h.tiles.eq_of_start List.mem_cons_self h.root_mem front.1
      rw [first]
      exact List.mem_cons_self
  refine ⟨tiles, h.small, List.mem_append_left _ root_front, fun s member => ?_,
    fun s member => ?_, ?_⟩
  · rcases List.mem_append.1 member with before | inside
    · obtain ⟨-, size, stop⟩ := front.bounds before
      unfold Segment.stop at stop
      rw [nblock_same _ (.inl (by omega)), h.nblock_eq s (in_front s before)]
    · rcases List.mem_append.1 inside with fresh | after
      · exact (stored s fresh).1
      · rw [nblock_same _ (.inr (behind.bounds after).1), h.nblock_eq s (in_back s after)]
  · rcases List.mem_append.1 member with before | inside
    · rw [pblock_same _ (.inl (front.bounds before).2.2), h.pblock_eq s (in_front s before)]
    · rcases List.mem_append.1 inside with fresh | after
      · exact (stored s fresh).2
      · obtain ⟨start, size, -⟩ := behind.bounds after
        rw [pblock_same _ (.inr (by unfold Segment.stop; omega)),
          h.pblock_eq s (in_back s after)]
  · rw [nblock_same _ (.inr behind.le), h.closed]

end Headers

/-- The headers, and the ring of the free segments. -/
structure Shape (m : Ram) (last : Nat) (segs : List Segment) (frees : List Nat) : Prop
    extends Headers m last segs where
  ring : LinkedRing (nfree m) (pfree m) 0 frees
  listed : frees.Perm (freeStarts segs)

namespace Shape

variable {m m' : Ram} {last : Nat} {segs pre post : List Segment} {s t : Segment}
  {frees xs ys : List Nat}

/-- A node of the ring is the root or a free segment. -/
theorem node (shape : Shape m last segs frees) {b : Nat} (member : b ∈ 0 :: frees) :
    b = 0 ∨ ∃ s ∈ segs, s.free = true ∧ s.start = b := by
  rcases List.mem_cons.1 member with rfl | listed
  · exact .inl rfl
  · exact .inr (mem_freeStarts.1 (shape.listed.subset listed))

/-- A node of the ring does not touch a block in use. -/
theorem node_apart (shape : Shape m last segs frees) {b : Nat} (member : b ∈ 0 :: frees)
    (inside : t ∈ segs) (used : t.free = false) (other : t.start ≠ 0) :
    b < t.start ∨ t.stop ≤ b := by
  rcases shape.node member with rfl | ⟨s, free_mem, free, rfl⟩
  · exact .inl (Nat.pos_of_ne_zero other)
  · have size := shape.size_pos free_mem
    rcases shape.tiles.apart free_mem inside with rfl | before | after
    · rw [free] at used
      cases used
    · unfold Segment.stop at before
      exact .inl (by omega)
    · exact .inr after

/-- The neighbours in the ring are nodes. -/
theorem neighbours (shape : Shape m last segs (xs ++ s.start :: ys)) :
    pfree m s.start ∈ 0 :: (xs ++ s.start :: ys) ∧ nfree m s.start ∈ 0 :: (xs ++ s.start :: ys) := by
  obtain ⟨before, after⟩ := shape.ring.around
  rw [before, after]
  constructor
  · exact (List.sublist_append_left (0 :: xs) _).subset List.getLastD_mem_cons
  · cases ys with
    | nil => exact List.mem_cons_self
    | cons y ys => simp

/-- A segment that is not the root begins behind it. -/
theorem start_pos (shape : Headers m last segs) (member : s ∈ segs) (other : s ≠ root) :
    0 < s.start := by
  rcases Nat.eq_zero_or_pos s.start with zero | pos
  · exact absurd (shape.tiles.eq_of_start member shape.root_mem zero) other
  · exact pos

end Shape

/-! ## umm_disconnect_from_free_list -/

section
variable (c : Nat) (m : Ram)

/-- What a node's word points to, after that of another node may have got the same value. -/
theorem update_self_value (f : Nat → Nat) (b : Nat) : Function.update f b (f c) c = f c := by
  rw [Function.update_apply]
  split <;> rfl

theorem nblock_disconnect : nblock (disconnectFromFreeList c m) =
    Function.update (nblock m) c (following m c) := by
  have small : following m c < 2 ^ 16 := by
    rw [following, and_blocknoMask]
    omega
  simp only [disconnectFromFreeList, field_setField_self, field_setField_ne, ne_eq, reduceCtorEq,
    not_false_eq_true]
  rw [← following, Nat.mod_eq_of_lt small]

theorem pblock_disconnect : pblock (disconnectFromFreeList c m) = pblock m := by
  simp only [disconnectFromFreeList, field_setField_ne, ne_eq, reduceCtorEq, not_false_eq_true]

theorem nfree_disconnect : nfree (disconnectFromFreeList c m) =
    Function.update (nfree m) (pfree m c) (nfree m c) := by
  simp only [disconnectFromFreeList, field_setField_self, field_setField_ne, ne_eq, reduceCtorEq,
    not_false_eq_true]
  rw [Nat.mod_eq_of_lt (field_lt _ _ _)]

theorem pfree_disconnect : pfree (disconnectFromFreeList c m) =
    Function.update (pfree m) (nfree m c) (pfree m c) := by
  simp only [disconnectFromFreeList, field_setField_self, field_setField_ne, ne_eq, reduceCtorEq,
    not_false_eq_true]
  rw [Nat.mod_eq_of_lt (field_lt _ _ _), Nat.mod_eq_of_lt (field_lt _ _ _), update_self_value]

/-- Only the links of the neighbours and the header of the block are written. -/
theorem keeps_disconnect {s : Segment} (before : pfree m c < s.start ∨ s.stop ≤ pfree m c)
    (after : nfree m c < s.start ∨ s.stop ≤ nfree m c) (here : c < s.start ∨ s.stop ≤ c) :
    Keeps s m (disconnectFromFreeList c m) := by
  have target : nfree (setField .nfree (pfree m c) (nfree m c) m) c = nfree m c := by
    simp only [field_setField_self]
    rw [Nat.mod_eq_of_lt (field_lt _ _ _), update_self_value]
  unfold disconnectFromFreeList
  dsimp only
  rw [target]
  refine ((keeps_setField _ _ ?_).trans (keeps_setField _ _ ?_)).trans (keeps_setField _ _ ?_)
  · exact before.imp_right .inl
  · exact after.imp_right .inl
  · exact here.imp_right .inl

end

namespace Shape

variable {m : Ram} {last : Nat} {segs pre post : List Segment} {s t : Segment}
  {frees xs ys : List Nat}

/-- A free segment is taken from the ring. -/
theorem take (shape : Shape m last (pre ++ s :: post) (xs ++ s.start :: ys))
    (free : s.free = true) :
    Shape (disconnectFromFreeList s.start m) last (pre ++ s.mark false :: post) (xs ++ ys) := by
  have inside : s ∈ pre ++ s :: post := List.mem_append_right pre List.mem_cons_self
  obtain ⟨front, size, behind⟩ := shape.tiles.around
  have pos : 0 < s.start := start_pos shape.toHeaders inside fun same => by
    rw [same] at free
    cases free
  have headers : Headers (disconnectFromFreeList s.start m) last
      (pre ++ ([s.mark false] ++ post)) := by
    have filled : Tiles s.start [s.mark false] s.stop := ⟨rfl, size, rfl⟩
    refine @Headers.splice _ _ _ _ _ pre [s] [s.mark false] post shape.toHeaders front
      filled behind pos (fun b outside => ?_) (fun b _ => ?_) fun t single => ?_
    · rw [nblock_disconnect]
      refine Function.update_of_ne ?_ _ _
      rintro rfl
      unfold Segment.stop at outside
      omega
    · rw [pblock_disconnect]
    · rw [List.mem_singleton.1 single, nblock_disconnect, pblock_disconnect, Segment.mark_start,
        Function.update_self, shape.following_eq inside]
      exact ⟨rfl, shape.pblock_eq s inside⟩
  refine ⟨headers, ?_, ?_⟩
  · rw [nfree_disconnect, pfree_disconnect]
    exact shape.ring.unlink
  · have listed := shape.listed
    rw [freeStarts_append, freeStarts_cons_free free] at listed
    rw [freeStarts_append, freeStarts_cons_used rfl]
    exact (List.perm_middle.symm.trans (listed.trans List.perm_middle)).cons_inv

/-- Taking a free segment keeps the bytes of those in use. -/
theorem take_keeps (shape : Shape m last segs (xs ++ s.start :: ys)) (inside : t ∈ segs)
    (used : t.free = false) (other : t.start ≠ 0) :
    Keeps t m (disconnectFromFreeList s.start m) := by
  obtain ⟨before, after⟩ := shape.neighbours
  have self : s.start ∈ 0 :: (xs ++ s.start :: ys) := by simp
  exact keeps_disconnect _ _ (shape.node_apart before inside used other)
    (shape.node_apart after inside used other) (shape.node_apart self inside used other)

end Shape

/-! ## umm_split_block -/

/-- The mark that is put on the rest of a block. -/
def maskOf (free : Bool) : Nat := if free then freelistMask else 0

theorem or_maskOf {e : Nat} (free : Bool) (small : e < 2 ^ 15) : e ||| maskOf free = tag free e := by
  cases free with
  | false => exact Nat.or_zero e
  | true => exact or_freelistMask small

section
variable {m : Ram} {c k e : Nat}

theorem nblock_split (free : Bool) (small : c + k < 2 ^ 15) (next : following m c = e)
    (small' : e < 2 ^ 15) : nblock (splitBlock c k (maskOf free) m) =
      Function.update (Function.update (nblock m) (c + k) (tag free e)) c (c + k) := by
  simp only [splitBlock, field_setField_self, field_setField_ne, ne_eq, reduceCtorEq,
    not_false_eq_true]
  rw [next, or_maskOf free small', Nat.mod_eq_of_lt (tag_lt free small'),
    Nat.mod_eq_of_lt (by omega : c + k < 2 ^ 16)]

/-- The header of the block itself is read after that of its rest was written. -/
theorem following_rest (positive : 0 < k) (next : following m c = e) (value value' : Nat) :
    following (setField .pblock (c + k) value' (setField .nblock (c + k) value m)) c = e := by
  have apart : c ≠ c + k := by omega
  simp only [following, field_setField_self, field_setField_ne, ne_eq, reduceCtorEq,
    not_false_eq_true, Function.update_of_ne apart]
  exact next

theorem pblock_split (free : Bool) (positive : 0 < k) (small : c + k < 2 ^ 15)
    (next : following m c = e) : pblock (splitBlock c k (maskOf free) m) =
      Function.update (Function.update (pblock m) (c + k) c) e (c + k) := by
  simp only [splitBlock]
  rw [following_rest positive next]
  simp only [field_setField_self, field_setField_ne, ne_eq, reduceCtorEq, not_false_eq_true]
  rw [Nat.mod_eq_of_lt (by omega : c + k < 2 ^ 16), Nat.mod_eq_of_lt (by omega : c < 2 ^ 16)]

/-- The header of a block is no byte of a user. -/
theorem keeps_header {t : Segment} {f : Field} {b : Nat} (value : Nat) (m : Ram)
    (header : f.offset ≤ 2) (place : b ≤ t.start ∨ t.stop ≤ b) :
    Keeps t m (setField f b value m) := keeps_setField _ _ (by omega)

theorem keeps_split {t : Segment} (mask : Nat) (positive : 0 < k) (next : following m c = e)
    (here : c ≤ t.start ∨ t.stop ≤ c) (seam : c + k ≤ t.start ∨ t.stop ≤ c + k)
    (behind : e ≤ t.start ∨ t.stop ≤ e) : Keeps t m (splitBlock c k mask m) := by
  simp only [splitBlock]
  rw [following_rest positive next]
  exact (((keeps_header _ _ (by decide) seam).trans (keeps_header _ _ (by decide) seam)).trans
    (keeps_header _ _ (by decide) behind)).trans (keeps_header _ _ (by decide) here)

end

theorem nfree_split (c k mask : Nat) (m : Ram) : nfree (splitBlock c k mask m) = nfree m := by
  simp only [splitBlock, field_setField_ne, ne_eq, reduceCtorEq, not_false_eq_true]

theorem pfree_split (c k mask : Nat) (m : Ram) : pfree (splitBlock c k mask m) = pfree m := by
  simp only [splitBlock, field_setField_ne, ne_eq, reduceCtorEq, not_false_eq_true]

namespace Headers

variable {m m' : Ram} {last k : Nat} {pre post : List Segment} {a b s t : Segment}

/-- A segment is cut in two. -/
theorem split (h : Headers m last (pre ++ s :: post)) (later : 0 < s.start) (positive : 0 < k)
    (shorter : k < s.size) (free : Bool) :
    Headers (splitBlock s.start k (maskOf free) m) last
      (pre ++ ⟨s.start, k, false⟩ :: ⟨s.start + k, s.size - k, free⟩ :: post) := by
  have inside : s ∈ pre ++ s :: post := List.mem_append_right pre List.mem_cons_self
  obtain ⟨front, size, behind⟩ := h.tiles.around
  have stop := h.stop_le inside
  have small := h.small
  have next := h.following_eq inside
  have stop_eq : s.stop = s.start + s.size := rfl
  have bound : s.start + k < 2 ^ 15 := by omega
  have filled : Tiles s.start [⟨s.start, k, false⟩, ⟨s.start + k, s.size - k, free⟩] s.stop := by
    refine ⟨rfl, positive, rfl, Nat.sub_pos_of_lt shorter, ?_⟩
    change s.start + k + (s.size - k) = s.stop
    omega
  have nblock_eq := nblock_split free bound next (Nat.lt_of_le_of_lt stop small)
  have pblock_eq := pblock_split free positive bound next
  refine @splice _ _ _ _ _ pre [s] _ post h front filled behind later (fun b outside => ?_)
    (fun b outside => ?_) fun t member => ?_
  · rw [nblock_eq, Function.update_of_ne (by omega), Function.update_of_ne (by omega)]
  · rw [pblock_eq, Function.update_of_ne (by omega), Function.update_of_ne (by omega)]
  · rw [nblock_eq, pblock_eq]
    have apart : s.start + k ≠ s.start := by omega
    have apart' : s.start + k ≠ s.stop := by omega
    rcases List.mem_cons.1 member with rfl | single
    · have end_eq : Segment.stop ⟨s.start, k, false⟩ = s.start + k := rfl
      rw [end_eq]
      exact ⟨Function.update_self _ _ _, by rw [Function.update_of_ne apart', Function.update_self]⟩
    · rw [List.mem_singleton.1 single]
      have end_eq : Segment.stop ⟨s.start + k, s.size - k, free⟩ = s.stop := by
        change s.start + k + (s.size - k) = s.stop
        omega
      rw [end_eq]
      exact ⟨by rw [Function.update_of_ne apart, Function.update_self], Function.update_self _ _ _⟩

/-- Two segments become one. -/
theorem merge (h : Headers m last (pre ++ a :: b :: post)) (later : 0 < a.start) (free : Bool)
    (nblock_eq : nblock m' = Function.update (nblock m) a.start (tag free b.stop))
    (pblock_eq : pblock m' = Function.update (pblock m) b.stop a.start) :
    Headers m' last (pre ++ ⟨a.start, a.size + b.size, free⟩ :: post) := by
  obtain ⟨front, size, rest⟩ := h.tiles.around
  obtain ⟨start, size', behind⟩ := rest
  have stop : a.stop = a.start + a.size := rfl
  have stop' : b.stop = b.start + b.size := rfl
  have end_eq : Segment.stop ⟨a.start, a.size + b.size, free⟩ = b.stop := by
    change a.start + (a.size + b.size) = b.stop
    omega
  have filled : Tiles a.start [⟨a.start, a.size + b.size, free⟩] b.stop :=
    ⟨rfl, Nat.add_pos_left size _, end_eq⟩
  refine @splice _ _ _ _ _ pre [a, b] _ post h front filled behind later (fun c outside => ?_)
    (fun c outside => ?_) fun t member => ?_
  · rw [nblock_eq, Function.update_of_ne (by omega)]
  · rw [pblock_eq, Function.update_of_ne (by omega)]
  · rw [List.mem_singleton.1 member, end_eq, nblock_eq, pblock_eq]
    exact ⟨Function.update_self _ _ _, Function.update_self _ _ _⟩

end Headers

/-! ## Segments that become one -/

namespace Shape

variable {m : Ram} {last k : Nat} {segs pre post : List Segment} {a b s t : Segment}
  {frees xs ys : List Nat}

theorem adjacent (h : Headers m last (pre ++ a :: b :: post)) : a.stop = b.start :=
  h.tiles.around.2.2.1.symm

/-- The next block, taken from the ring. -/
theorem take_next (shape : Shape m last (pre ++ a :: b :: post) (xs ++ b.start :: ys))
    (free : b.free = true) :
    Shape (disconnectFromFreeList b.start m) last (pre ++ a :: b.mark false :: post) (xs ++ ys) := by
  have whole : pre ++ a :: b :: post = (pre ++ [a]) ++ b :: post := by simp
  have taken := @take m last (pre ++ [a]) post b xs ys (whole ▸ shape) free
  rwa [List.append_assoc] at taken

/-- `umm_assimilate_up` takes the next block from the ring and writes two headers. -/
theorem assimilateUp_eq (shape : Shape m last (pre ++ a :: b :: post) (xs ++ b.start :: ys))
    (used : a.free = false) (free : b.free = true) :
    assimilateUp a.start m = setField .nblock a.start b.stop
      (setField .pblock b.stop a.start (disconnectFromFreeList b.start m)) := by
  have a_mem : a ∈ pre ++ a :: b :: post := List.mem_append_right pre List.mem_cons_self
  have b_mem : b ∈ pre ++ a :: b :: post :=
    List.mem_append_right pre (List.mem_cons_of_mem a List.mem_cons_self)
  have next : nblock m a.start = b.start := by
    rw [shape.nblock_used a_mem used, adjacent shape.toHeaders]
  have marked_next : marked m (nblock m a.start) = true := by
    rw [next, shape.marked_eq b_mem, free]
  have taken := shape.take_next free
  have a_mem' : a ∈ pre ++ a :: b.mark false :: post :=
    List.mem_append_right pre List.mem_cons_self
  have b_mem' : b.mark false ∈ pre ++ a :: b.mark false :: post :=
    List.mem_append_right pre (List.mem_cons_of_mem a List.mem_cons_self)
  have next' : nblock (disconnectFromFreeList b.start m) a.start = b.start := by
    rw [taken.nblock_used a_mem' used, adjacent shape.toHeaders]
  have end_eq : following (disconnectFromFreeList b.start m) b.start = b.stop :=
    @Headers.following_eq _ _ _ (b.mark false) taken.toHeaders b_mem'
  have next_kept : nblock (setField .pblock b.stop a.start (disconnectFromFreeList b.start m))
      a.start = b.start := by
    simp only [field_setField_ne, ne_eq, reduceCtorEq, not_false_eq_true]
    exact next'
  have end_kept : following (setField .pblock b.stop a.start
      (disconnectFromFreeList b.start m)) b.start = b.stop := by
    simp only [following, field_setField_ne, ne_eq, reduceCtorEq, not_false_eq_true]
    exact end_eq
  rw [assimilateUp, if_pos marked_next]
  dsimp only
  rw [next, next', end_eq, next_kept, end_kept]

/-- `umm_assimilate_up` where the next block is free. -/
theorem absorb (shape : Shape m last (pre ++ a :: b :: post) (xs ++ b.start :: ys))
    (used : a.free = false) (later : 0 < a.start) (free : b.free = true) :
    Shape (assimilateUp a.start m) last (pre ++ ⟨a.start, a.size + b.size, false⟩ :: post)
      (xs ++ ys) := by
  have a_mem : a ∈ pre ++ a :: b :: post := List.mem_append_right pre List.mem_cons_self
  have b_mem : b ∈ pre ++ a :: b :: post :=
    List.mem_append_right pre (List.mem_cons_of_mem a List.mem_cons_self)
  have taken := shape.take_next free
  have written := shape.assimilateUp_eq used free
  have end_lt : b.stop < 2 ^ 15 := Nat.lt_of_le_of_lt (shape.stop_le b_mem) shape.small
  have start_lt : a.start < 2 ^ 15 := Nat.lt_trans (shape.start_lt a_mem) shape.small
  have nblock_eq : nblock (assimilateUp a.start m) =
      Function.update (nblock (disconnectFromFreeList b.start m)) a.start (tag false b.stop) := by
    rw [written]
    simp only [field_setField_self, field_setField_ne, ne_eq, reduceCtorEq, not_false_eq_true]
    rw [Nat.mod_eq_of_lt (by omega)]
    rfl
  have pblock_eq : pblock (assimilateUp a.start m) =
      Function.update (pblock (disconnectFromFreeList b.start m)) b.stop a.start := by
    rw [written]
    simp only [field_setField_self, field_setField_ne, ne_eq, reduceCtorEq, not_false_eq_true]
    rw [Nat.mod_eq_of_lt (by omega)]
  refine ⟨taken.merge later false nblock_eq pblock_eq, ?_, ?_⟩
  · rw [written]
    simp only [field_setField_ne, ne_eq, reduceCtorEq, not_false_eq_true]
    exact taken.ring
  · have listed := taken.listed
    rw [freeStarts_append, freeStarts_cons_used used, freeStarts_cons_used rfl] at listed
    rwa [freeStarts_append, freeStarts_cons_used rfl]

/-- An end of a segment lies at a side of each other one. -/
theorem side (h : Headers m last segs) (inside : s ∈ segs) (inside' : t ∈ segs) :
    (s.start ≤ t.start ∨ t.stop ≤ s.start) ∧ (s.stop ≤ t.start ∨ t.stop ≤ s.stop) := by
  rcases h.tiles.apart inside inside' with rfl | before | after
  · exact ⟨.inl (Nat.le_refl _), .inr (Nat.le_refl _)⟩
  · exact ⟨.inl (Nat.le_trans (Nat.le_add_right _ _) before), .inl before⟩
  · exact ⟨.inr after, .inr (Nat.le_trans after (Nat.le_add_right _ _))⟩

theorem absorb_keeps (shape : Shape m last (pre ++ a :: b :: post) (xs ++ b.start :: ys))
    (used : a.free = false) (free : b.free = true) (inside : t ∈ pre ++ a :: b :: post)
    (used' : t.free = false) (other : t.start ≠ 0) : Keeps t m (assimilateUp a.start m) := by
  have a_mem : a ∈ pre ++ a :: b :: post := List.mem_append_right pre List.mem_cons_self
  have b_mem : b ∈ pre ++ a :: b :: post :=
    List.mem_append_right pre (List.mem_cons_of_mem a List.mem_cons_self)
  rw [shape.assimilateUp_eq used free]
  exact ((shape.take_keeps inside used' other).trans
    (keeps_header _ _ (by decide) (side shape.toHeaders b_mem inside).2)).trans
    (keeps_header _ _ (by decide) (side shape.toHeaders a_mem inside).1)

/-- `umm_assimilate_up` where the next block is in use or the last one. -/
theorem assimilateUp_used (h : Headers m last (pre ++ a :: post)) (used : a.free = false)
    (next : ∀ b ∈ post.head?, b.free = false) : assimilateUp a.start m = m := by
  have a_mem : a ∈ pre ++ a :: post := List.mem_append_right pre List.mem_cons_self
  have unmarked : marked m (nblock m a.start) = false := by
    rw [h.nblock_used a_mem used]
    cases post with
    | nil =>
      obtain ⟨-, -, behind⟩ := h.tiles.around
      have final : a.stop = last := behind
      rw [final, h.marked_last]
    | cons b post =>
      rw [adjacent h, h.marked_eq (List.mem_append_right pre
        (List.mem_cons_of_mem a List.mem_cons_self)), next b rfl]
  rw [assimilateUp, unmarked]
  rfl

/-- `umm_assimilate_down`, for a previous block that is to be in use or free. -/
theorem assimilateDown_eq (h : Headers m last (pre ++ a :: b :: post)) (used : b.free = false)
    (free : Bool) : assimilateDown b.start (maskOf free) m = (a.start,
      setField .pblock b.stop a.start (setField .nblock a.start (tag free b.stop) m)) := by
  have a_mem : a ∈ pre ++ a :: b :: post := List.mem_append_right pre List.mem_cons_self
  have b_mem : b ∈ pre ++ a :: b :: post :=
    List.mem_append_right pre (List.mem_cons_of_mem a List.mem_cons_self)
  have previous : field .pblock m b.start = a.start := by
    rw [← adjacent h]
    exact h.pblock_eq a a_mem
  have next : field .nblock m b.start = b.stop := h.nblock_used b_mem used
  have size := h.size_pos a_mem
  have size' := h.size_pos b_mem
  have stop : a.stop = a.start + a.size := rfl
  have stop' : b.stop = b.start + b.size := rfl
  have seam := adjacent h
  have small : b.stop < 2 ^ 15 := Nat.lt_of_le_of_lt (h.stop_le b_mem) h.small
  have below : b.start ≠ a.start := by omega
  have above : b.start ≠ b.stop := by omega
  simp only [assimilateDown, nblock, pblock, field_setField_self, field_setField_ne, ne_eq,
    reduceCtorEq, not_false_eq_true]
  rw [next, previous, or_maskOf free small, Function.update_of_ne below, next,
    Function.update_of_ne above, previous]

/-- `umm_assimilate_down` makes one segment of the previous block and a block in use. -/
theorem descend (shape : Shape m last (pre ++ a :: b :: post) frees) (used : b.free = false)
    (later : 0 < a.start) :
    Shape (assimilateDown b.start (maskOf a.free) m).2 last
      (pre ++ ⟨a.start, a.size + b.size, a.free⟩ :: post) frees := by
  have a_mem : a ∈ pre ++ a :: b :: post := List.mem_append_right pre List.mem_cons_self
  have b_mem : b ∈ pre ++ a :: b :: post :=
    List.mem_append_right pre (List.mem_cons_of_mem a List.mem_cons_self)
  have end_lt : b.stop < 2 ^ 15 := Nat.lt_of_le_of_lt (shape.stop_le b_mem) shape.small
  have start_lt : a.start < 2 ^ 15 := Nat.lt_trans (shape.start_lt a_mem) shape.small
  rw [assimilateDown_eq shape.toHeaders used]
  refine ⟨shape.merge later a.free ?_ ?_, ?_, ?_⟩
  · simp only [field_setField_self, field_setField_ne, ne_eq, reduceCtorEq, not_false_eq_true]
    rw [Nat.mod_eq_of_lt (tag_lt a.free end_lt)]
  · simp only [field_setField_self, field_setField_ne, ne_eq, reduceCtorEq, not_false_eq_true]
    rw [Nat.mod_eq_of_lt (by omega)]
  · simp only [field_setField_ne, ne_eq, reduceCtorEq, not_false_eq_true]
    exact shape.ring
  · have listed := shape.listed
    rw [freeStarts_append] at listed ⊢
    cases free : a.free with
    | true =>
      rw [freeStarts_cons_free free, freeStarts_cons_used used] at listed
      rwa [freeStarts_cons_free rfl]
    | false =>
      rw [freeStarts_cons_used free, freeStarts_cons_used used] at listed
      rwa [freeStarts_cons_used rfl]

theorem descend_keeps (h : Headers m last (pre ++ a :: b :: post)) (used : b.free = false)
    (free : Bool) (inside : t ∈ pre ++ a :: b :: post) :
    Keeps t m (assimilateDown b.start (maskOf free) m).2 := by
  have a_mem : a ∈ pre ++ a :: b :: post := List.mem_append_right pre List.mem_cons_self
  have b_mem : b ∈ pre ++ a :: b :: post :=
    List.mem_append_right pre (List.mem_cons_of_mem a List.mem_cons_self)
  rw [assimilateDown_eq h used]
  exact (keeps_header _ _ (by decide) (side h a_mem inside).1).trans
    (keeps_header _ _ (by decide) (side h b_mem inside).2)

end Shape

/-! ## The head of the free list -/

section
variable {m : Ram} {c : Nat} (small : c < 2 ^ 16)

theorem nblock_pushFree : nblock (pushFree c m) =
    Function.update (nblock m) c ((nblock m c ||| freelistMask) % 2 ^ 16) := by
  simp only [pushFree, nblock, field_setField_self, field_setField_ne, ne_eq, reduceCtorEq,
    not_false_eq_true]

theorem pblock_pushFree : pblock (pushFree c m) = pblock m := by
  simp only [pushFree, field_setField_ne, ne_eq, reduceCtorEq, not_false_eq_true]

include small

theorem nfree_pushFree : nfree (pushFree c m) =
    Function.update (Function.update (nfree m) c (nfree m 0)) 0 c := by
  simp only [pushFree, nfree, field_setField_self, field_setField_ne, ne_eq, reduceCtorEq,
    not_false_eq_true]
  rw [Nat.mod_eq_of_lt (field_lt _ _ _), Nat.mod_eq_of_lt small]

theorem pfree_pushFree : pfree (pushFree c m) =
    Function.update (Function.update (pfree m) (nfree m 0) c) c 0 := by
  simp only [pushFree, nfree, pfree, field_setField_self, field_setField_ne, ne_eq, reduceCtorEq,
    not_false_eq_true]
  rw [Nat.mod_eq_of_lt small, Nat.zero_mod]

end

theorem keeps_pushFree {m : Ram} {c : Nat} {t : Segment}
    (first : nfree m 0 < t.start ∨ t.stop ≤ nfree m 0) (here : c < t.start ∨ t.stop ≤ c)
    (later : 0 < t.start) : Keeps t m (pushFree c m) := by
  have head : nfree (setField .pfree (nfree m 0) c m) 0 = nfree m 0 := by
    simp only [field_setField_ne, ne_eq, reduceCtorEq, not_false_eq_true]
  have here' : c < t.start ∨ t.stop ≤ c ∨ c = t.start ∧ Field.nfree.offset ≤ 2 :=
    here.imp_right .inl
  unfold pushFree
  dsimp only
  rw [head]
  refine ((((keeps_setField _ _ ?_).trans (keeps_setField _ _ ?_)).trans
    (keeps_setField _ _ ?_)).trans (keeps_setField _ _ ?_)).trans (keeps_setField _ _ ?_)
  · exact first.imp_right .inl
  · exact here.imp_right .inl
  · exact here.imp_right .inl
  · exact .inl later
  · exact here.imp_right .inl

/-! ## The front of a free block -/

section
variable {m : Ram} {c k : Nat}

/-- The links that are read while the rest of a block replaces it in the ring. -/
theorem takeFront_eq (other : pfree m c ≠ c) (positive : 0 < k) :
    takeFront c k m = setField .nfree (c + k) (nfree m c) (setField .pfree (nfree m c) (c + k)
      (setField .pfree (c + k) (pfree m c) (setField .nfree (pfree m c) (c + k)
        (splitBlock c k freelistMask m)))) := by
  have apart : c ≠ c + k := by omega
  simp only [takeFront, nfree, pfree, field_setField_self, field_setField_ne, ne_eq, reduceCtorEq,
    not_false_eq_true]
  have links : field .pfree (splitBlock c k freelistMask m) = field .pfree m := pfree_split _ _ _ _
  have links' : field .nfree (splitBlock c k freelistMask m) = field .nfree m := nfree_split _ _ _ _
  rw [links, links', Function.update_of_ne other.symm]

end

namespace Shape

variable {m : Ram} {last k : Nat} {segs pre post : List Segment} {a b s t : Segment}
  {frees xs ys : List Nat}

/-- A block in use becomes the head of the free list. -/
theorem release (shape : Shape m last (pre ++ s :: post) frees) (used : s.free = false)
    (later : 0 < s.start) :
    Shape (pushFree s.start m) last (pre ++ s.mark true :: post) (s.start :: frees) := by
  have inside : s ∈ pre ++ s :: post := List.mem_append_right pre List.mem_cons_self
  obtain ⟨front, size, behind⟩ := shape.tiles.around
  have end_lt : s.stop < 2 ^ 15 := Nat.lt_of_le_of_lt (shape.stop_le inside) shape.small
  have start_lt : s.start < 2 ^ 16 :=
    Nat.lt_trans (Nat.lt_trans (shape.start_lt inside) shape.small) (by decide)
  have word : (nblock m s.start ||| freelistMask) % 2 ^ 16 = tag true s.stop := by
    rw [shape.nblock_used inside used, or_freelistMask end_lt]
    exact Nat.mod_eq_of_lt (by omega)
  refine ⟨?_, ?_, ?_⟩
  · have filled : Tiles s.start [s.mark true] s.stop := ⟨rfl, size, rfl⟩
    refine @Headers.splice _ _ _ _ _ pre [s] [s.mark true] post shape.toHeaders front
      filled behind later (fun b outside => ?_) (fun b _ => ?_) fun t single => ?_
    · rw [nblock_pushFree]
      refine Function.update_of_ne ?_ _ _
      rintro rfl
      unfold Segment.stop at outside
      omega
    · rw [pblock_pushFree]
    · rw [List.mem_singleton.1 single, nblock_pushFree, pblock_pushFree, word]
      exact ⟨Function.update_self _ _ _, shape.pblock_eq s inside⟩
  · rw [nfree_pushFree start_lt, pfree_pushFree start_lt]
    refine shape.ring.pushFront fun member => ?_
    have node := shape.node_apart member inside used (Nat.ne_of_gt later)
    unfold Segment.stop at node
    omega
  · have listed := shape.listed
    rw [freeStarts_append, freeStarts_cons_used used] at listed
    rw [freeStarts_append, freeStarts_cons_free rfl]
    exact (listed.cons s.start).trans List.perm_middle.symm

theorem release_keeps (shape : Shape m last segs frees) (inside : s ∈ segs)
    (inside' : t ∈ segs) (used : t.free = false) (other : t.start ≠ 0) (different : s ≠ t) :
    Keeps t m (pushFree s.start m) := by
  have head : nfree m 0 ∈ 0 :: frees := by
    rw [shape.ring.next_root]
    cases frees with
    | nil => exact List.mem_cons_self
    | cons b frees => exact List.mem_cons_of_mem 0 List.mem_cons_self
  refine keeps_pushFree (shape.node_apart head inside' used other) ?_ (Nat.pos_of_ne_zero other)
  have size := shape.size_pos inside
  rcases shape.tiles.apart inside inside' with same | before | after
  · exact absurd same different
  · unfold Segment.stop at before
    exact .inl (by omega)
  · exact .inr after

theorem prev_ne_self (shape : Shape m last segs (xs ++ s.start :: ys)) :
    pfree m s.start ≠ s.start := by
  rw [shape.ring.around.1]
  exact (LinkedRing.ne_last shape.ring.nodup List.mem_cons_self).symm

/-- The front of a free block is taken; what is left replaces the block in the free list. -/
theorem cut (shape : Shape m last (pre ++ s :: post) (xs ++ s.start :: ys))
    (free : s.free = true) (positive : 0 < k) (shorter : k < s.size) :
    Shape (takeFront s.start k m) last
      (pre ++ ⟨s.start, k, false⟩ :: ⟨s.start + k, s.size - k, true⟩ :: post)
      (xs ++ (s.start + k) :: ys) := by
  have inside : s ∈ pre ++ s :: post := List.mem_append_right pre List.mem_cons_self
  have later : 0 < s.start := start_pos shape.toHeaders inside fun same => by
    rw [same] at free
    cases free
  have stop := shape.stop_le inside
  have small := shape.small
  have stop_eq : s.stop = s.start + s.size := rfl
  have written := takeFront_eq shape.prev_ne_self positive
  refine ⟨?_, ?_, ?_⟩
  · refine (shape.split later positive shorter true).congr ?_ ?_
    · rw [written]
      simp only [field_setField_ne, ne_eq, reduceCtorEq, not_false_eq_true]
      rfl
    · rw [written]
      simp only [field_setField_ne, ne_eq, reduceCtorEq, not_false_eq_true]
      rfl
  · have ring := @LinkedRing.replace _ _ _ _ _ (s.start + k) _ _ _ shape.ring fun member => by
      have listed : s.start + k ∈ 0 :: (xs ++ s.start :: ys) := by
        rcases List.mem_cons.1 member with zero | other
        · exact zero ▸ List.mem_cons_self
        · exact List.mem_cons_of_mem 0 (((List.sublist_cons_self _ _).append_left xs).subset other)
      rcases shape.node listed with zero | ⟨t, inside', -, start⟩
      · omega
      · have size := shape.size_pos inside'
        rcases shape.tiles.apart inside inside' with rfl | before | after
        · omega
        · omega
        · unfold Segment.stop at after
          omega
    rw [written]
    simp only [nfree, pfree, field_setField_self, field_setField_ne, ne_eq, reduceCtorEq,
      not_false_eq_true]
    have links : field .pfree (splitBlock s.start k freelistMask m) = field .pfree m :=
      pfree_split _ _ _ _
    have links' : field .nfree (splitBlock s.start k freelistMask m) = field .nfree m :=
      nfree_split _ _ _ _
    rw [links, links', Nat.mod_eq_of_lt (field_lt _ _ _), Nat.mod_eq_of_lt (field_lt _ _ _),
      Nat.mod_eq_of_lt (by omega : s.start + k < 2 ^ 16)]
    exact ring
  · have listed := shape.listed
    rw [freeStarts_append, freeStarts_cons_free free] at listed
    rw [freeStarts_append, freeStarts_cons_used rfl, freeStarts_cons_free rfl]
    have others := (List.perm_middle.symm.trans (listed.trans List.perm_middle)).cons_inv
    exact List.perm_middle.trans ((others.cons _).trans List.perm_middle.symm)

theorem cut_keeps (shape : Shape m last (pre ++ s :: post) (xs ++ s.start :: ys))
    (positive : 0 < k) (shorter : k < s.size) (inside : t ∈ pre ++ s :: post)
    (used : t.free = false) (other : t.start ≠ 0) (different : s ≠ t) :
    Keeps t m (takeFront s.start k m) := by
  have here : s ∈ pre ++ s :: post := List.mem_append_right pre List.mem_cons_self
  have stop_eq : s.stop = s.start + s.size := rfl
  obtain ⟨before, after⟩ := shape.neighbours
  have rest : s.start + k < t.start ∨ t.stop ≤ s.start + k := by
    rcases shape.tiles.apart here inside with same | low | high
    · exact absurd same different
    · exact .inl (by omega)
    · exact .inr (by omega)
  have sides := side shape.toHeaders here inside
  rw [takeFront_eq shape.prev_ne_self positive]
  refine ((((keeps_split _ positive (shape.following_eq here) sides.1 (rest.imp_left Nat.le_of_lt)
    sides.2).trans (keeps_setField _ _ ?_)).trans (keeps_setField _ _ ?_)).trans
    (keeps_setField _ _ ?_)).trans (keeps_setField _ _ ?_)
  · exact (shape.node_apart before inside used other).imp_right .inl
  · exact rest.imp_right .inl
  · exact (shape.node_apart after inside used other).imp_right .inl
  · exact rest.imp_right .inl

end Shape

end Esp8266.Umm
