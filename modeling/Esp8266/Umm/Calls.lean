import Esp8266.Umm.Shape

/-!
# The calls of the allocator

What `umm_init`, `umm_free_core`, `umm_malloc_core`, a store of the user and the end of
`umm_realloc` make of the segments: the ones in use before and after, the number of free blocks, and
the user's bytes. `umm_malloc_core` goes over the free list once and takes the front of the smallest
block that is large enough.
-/
set_option autoImplicit false

namespace Esp8266.Umm
open Esp8266.Lib Esp8266.Lib.ByteMemory Esp8266.Lib.Word32 Esp8266.Source.UmmMalloc

/-- A heap that is divided into segments, with the number of its free blocks. -/
structure Divided (h : Heap) (segs : List Segment) : Prop where
  ready : h.ready = true
  blocks_pos : 0 < h.numblocks
  shape : ∃ frees, Shape h.memory (h.numblocks - 1) segs frees
  coalesced : Coalesced segs
  counted : h.freeBlocks = freeSize segs

namespace Divided

variable {h : Heap} {segs : List Segment}

theorem headers (d : Divided h segs) : Headers h.memory (h.numblocks - 1) segs := by
  obtain ⟨frees, shape⟩ := d.shape
  exact shape.toHeaders

theorem freeSize_lt (d : Divided h segs) : freeSize segs < 2 ^ 15 := by
  have bound := d.headers.tiles.freeSize_le
  have small := d.headers.small
  omega

end Divided

/-! ## The neighbours of a block -/

/-- The size of a free segment in front of the others, as `nextBlockSize`. -/
def nextFree : List Segment → Nat
  | [] => 0
  | b :: _ => if b.free then b.size else 0

section
variable {m : Ram} {last : Nat} {segs pre post : List Segment} {s t : Segment}
  {frees : List Nat}

theorem nextBlockSize_eq (h : Headers m last (pre ++ s :: post)) (used : s.free = false) :
    (if marked m (nblock m s.start) then sub16 (following m (nblock m s.start)) (nblock m s.start)
      else 0) = nextFree post := by
  have inside : s ∈ pre ++ s :: post := List.mem_append_right pre List.mem_cons_self
  rw [h.nblock_used inside used]
  cases post with
  | nil =>
    obtain ⟨-, -, behind⟩ := h.tiles.around
    have final : s.stop = last := behind
    rw [final, h.marked_last]
    rfl
  | cons b post =>
    have b_mem : b ∈ pre ++ s :: b :: post :=
      List.mem_append_right pre (List.mem_cons_of_mem s List.mem_cons_self)
    have stop := h.stop_le b_mem
    have small := h.small
    have stop_eq : b.stop = b.start + b.size := rfl
    rw [Shape.adjacent h, h.marked_eq b_mem, h.following_eq b_mem, nextFree,
      sub16_of_le (by omega) (by omega), stop_eq, Nat.add_sub_cancel_left]

/-- `umm_assimilate_up`, whatever comes next. -/
theorem assimilateUp_spec (shape : Shape m last (pre ++ s :: post) frees) (used : s.free = false)
    (later : 0 < s.start) (coalesced : Coalesced (pre ++ s :: post)) :
    ∃ post' frees', Shape (assimilateUp s.start m) last
        (pre ++ ⟨s.start, s.size + nextFree post, false⟩ :: post') frees' ∧
      Coalesced (pre ++ ⟨s.start, s.size + nextFree post, false⟩ :: post') ∧
      (∀ b ∈ post'.head?, b.free = false) ∧ usedOf post' = usedOf post ∧
      freeSize post' + nextFree post = freeSize post ∧
      ∀ t ∈ pre ++ s :: post, t.free = false → t.start ≠ 0 → Keeps t m (assimilateUp s.start m) := by
  obtain ⟨front, behind, -, -⟩ := coalesced_around.1 coalesced
  have unchanged : (∀ b ∈ post.head?, b.free = false) → nextFree post = 0 →
      ∃ post' frees', Shape (assimilateUp s.start m) last
        (pre ++ ⟨s.start, s.size + nextFree post, false⟩ :: post') frees' ∧
      Coalesced (pre ++ ⟨s.start, s.size + nextFree post, false⟩ :: post') ∧
      (∀ b ∈ post'.head?, b.free = false) ∧ usedOf post' = usedOf post ∧
      freeSize post' + nextFree post = freeSize post ∧
      ∀ t ∈ pre ++ s :: post, t.free = false → t.start ≠ 0 →
        Keeps t m (assimilateUp s.start m) := by
    intro next none
    have same : (⟨s.start, s.size + nextFree post, false⟩ : Segment) = s := by
      rw [none, ← used]
      rfl
    rw [same, none, Shape.assimilateUp_used shape.toHeaders used next]
    exact ⟨post, frees, shape, coalesced, next, rfl, rfl, fun t _ _ _ => Keeps.refl t m⟩
  cases post with
  | nil => exact unchanged (fun b member => by cases member) rfl
  | cons b post =>
    cases free : b.free with
    | false =>
      refine unchanged (fun c member => ?_) (by rw [nextFree, free]; rfl)
      obtain rfl : b = c := by simpa using member
      exact free
    | true =>
      have listed : b.start ∈ frees := shape.listed.symm.subset (mem_freeStarts.2
        ⟨b, List.mem_append_right pre (List.mem_cons_of_mem s List.mem_cons_self), free, rfl⟩)
      obtain ⟨xs, ys, rfl⟩ := List.append_of_mem listed
      have next : nextFree (b :: post) = b.size := by rw [nextFree, free]; rfl
      obtain ⟨-, rest⟩ := List.isChain_cons.1 behind
      have after : ∀ c ∈ post.head?, c.free = false := by
        intro c member
        have pair := (List.isChain_cons.1 behind).1 c member
        cases other : c.free with
        | false => rfl
        | true => exact absurd ⟨free, other⟩ pair
      rw [next]
      refine ⟨post, xs ++ ys, shape.absorb used later free, ?_, after, ?_, ?_,
        fun t inside used' other => shape.absorb_keeps used free inside used' other⟩
      · refine coalesced_around.2 ⟨front, rest, ?_, ?_⟩
        · rintro a - ⟨-, impossible⟩
          cases impossible
        · rintro c - ⟨impossible, -⟩
          cases impossible
      · rw [usedOf_cons_free free]
      · rw [freeSize_cons_free free, Nat.add_comm]

end

/-! ## umm_free_core -/

section
variable {m : Ram} {last : Nat} {segs pre post : List Segment} {a s t : Segment}
  {frees : List Nat}

theorem freeSize_mem (inside : s ∈ segs) (free : s.free = true) : s.size ≤ freeSize segs := by
  obtain ⟨pre, post, rfl⟩ := List.append_of_mem inside
  rw [freeSize_append, freeSize_cons_free free]
  omega

/-- What stands in front of a block that is not the first. -/
theorem previous (h : Headers m last (pre ++ s :: post)) (later : 0 < s.start) :
    ∃ pre' a, pre = pre' ++ [a] ∧ a.stop = s.start ∧ pblock m s.start = a.start ∧
      marked m (pblock m s.start) = a.free := by
  obtain ⟨pre', a, rfl, stop⟩ := h.tiles.exists_before (Nat.ne_of_lt later)
  have inside : a ∈ (pre' ++ [a]) ++ s :: post := by simp
  have back : pblock m s.start = a.start := by rw [← stop, h.pblock_eq a inside]
  exact ⟨pre', a, rfl, stop, back, by rw [back, h.marked_eq inside]⟩

/-- The rest of `umm_free_core`, once the block was joined with the next one. -/
theorem release_spec (shape : Shape m last (pre ++ s :: post) frees) (used : s.free = false)
    (later : 0 < s.start) (coalesced : Coalesced (pre ++ s :: post))
    (next : ∀ b ∈ post.head?, b.free = false) :
    ∃ segs' frees', Shape (if marked m (pblock m s.start)
        then (assimilateDown s.start freelistMask m).2 else pushFree s.start m) last segs' frees' ∧
      Coalesced segs' ∧ (usedOf segs').Perm (usedOf pre ++ usedOf post) ∧
      freeSize segs' = freeSize (pre ++ s :: post) + s.size ∧
      ∀ t ∈ usedOf segs', t.start ≠ 0 → Keeps t m (if marked m (pblock m s.start)
        then (assimilateDown s.start freelistMask m).2 else pushFree s.start m) := by
  obtain ⟨front, behind, -, -⟩ := coalesced_around.1 coalesced
  obtain ⟨pre', a, rfl, stop, -, mark⟩ := previous shape.toHeaders later
  rw [mark]
  have whole : (pre' ++ [a]) ++ s :: post = pre' ++ a :: s :: post := by simp
  cases free : a.free with
  | true =>
    rw [if_pos rfl]
    rw [whole] at shape coalesced ⊢
    have mask : freelistMask = maskOf a.free := by rw [free]; rfl
    have a_later : 0 < a.start := Shape.start_pos shape.toHeaders
      (List.mem_append_right pre' List.mem_cons_self) fun same => by
        rw [same] at free
        cases free
    obtain ⟨front', -, before, -⟩ := coalesced_around.1 coalesced
    rw [mask]
    refine ⟨_, _, shape.descend used a_later, ?_, ?_, ?_, fun t inside _ => ?_⟩
    · refine coalesced_around.2 ⟨front', behind, fun c member both => ?_, fun c member both => ?_⟩
      · exact before c member ⟨both.1, free⟩
      · rw [next c member] at both
        cases both.2
    · rw [usedOf_append, usedOf_append, usedOf_cons_free free,
        @usedOf_cons_free ⟨a.start, a.size + s.size, a.free⟩ post free]
      exact List.Perm.of_eq (by simp [usedOf])
    · rw [freeSize_around_free free, freeSize_cons_used used,
        @freeSize_around_free ⟨a.start, a.size + s.size, a.free⟩ pre' post free]
      dsimp only
      omega
    · refine Shape.descend_keeps shape.toHeaders used a.free ?_
      obtain ⟨member, used'⟩ := mem_usedOf.1 inside
      rcases List.mem_append.1 member with before | here
      · exact List.mem_append_left _ before
      · rcases List.mem_cons.1 here with rfl | after
        · rw [free] at used'
          cases used'
        · exact List.mem_append_right pre' (List.mem_cons_of_mem _ (List.mem_cons_of_mem _ after))
  | false =>
    rw [if_neg Bool.false_ne_true]
    have s_mem : s ∈ (pre' ++ [a]) ++ s :: post := List.mem_append_right _ List.mem_cons_self
    refine ⟨_, _, shape.release used later, ?_, ?_, ?_, fun t inside other => ?_⟩
    · refine coalesced_around.2 ⟨front, behind, fun c member both => ?_, fun c member both => ?_⟩
      · obtain rfl : a = c := by simpa using member
        rw [free] at both
        cases both.1
      · rw [next c member] at both
        cases both.2
    · rw [usedOf_append, usedOf_cons_free rfl]
    · rw [@freeSize_around_used s (pre' ++ [a]) post used,
        @freeSize_around_free (s.mark true) (pre' ++ [a]) post rfl, Segment.mark_size]
      omega
    · obtain ⟨member, used'⟩ := mem_usedOf.1 inside
      have different : s ≠ t ∧ t ∈ (pre' ++ [a]) ++ s :: post := by
        obtain ⟨before, -, after⟩ := shape.tiles.around
        rcases List.mem_append.1 member with ahead | here
        · refine ⟨fun same => ?_, List.mem_append_left _ ahead⟩
          have bound := before.bounds ahead
          rw [← same] at bound
          unfold Segment.stop at bound
          omega
        · rcases List.mem_cons.1 here with rfl | tail
          · cases used'
          · refine ⟨fun same => ?_, List.mem_append_right _ (List.mem_cons_of_mem _ tail)⟩
            have bound := after.bounds tail
            rw [← same] at bound
            unfold Segment.stop at bound
            omega
      exact shape.release_keeps s_mem different.2 used' other different.1

end

/-- `umm_free_core` gives the block back, joined with its free neighbours. -/
theorem Divided.free {h : Heap} {segs : List Segment} {s : Segment} (d : Divided h segs)
    (inside : s ∈ usedOf segs) (later : 0 < s.start) :
    ∃ segs', Divided (freeCore (data s.start) h) segs' ∧ (usedOf segs).Perm (s :: usedOf segs') ∧
      freeSize segs' = freeSize segs + s.size ∧
      (freeCore (data s.start) h).numblocks = h.numblocks ∧
      (freeCore (data s.start) h).oomCount = h.oomCount ∧
      ∀ t ∈ usedOf segs', t.start ≠ 0 → Keeps t h.memory (freeCore (data s.start) h).memory := by
  obtain ⟨member, used⟩ := mem_usedOf.1 inside
  obtain ⟨frees, shape⟩ := d.shape
  have headers := shape.toHeaders
  have small := headers.small
  have stop := headers.stop_le member
  have start_lt := headers.start_lt member
  have stop_eq : s.stop = s.start + s.size := rfl
  have block : blockOf (data s.start) = s.start := blockOf_data (by omega)
  obtain ⟨pre, post, rfl⟩ := List.append_of_mem member
  obtain ⟨post', frees', shape', coalesced', next, used_eq, size_eq, keeps⟩ :=
    assimilateUp_spec shape used later d.coalesced
  obtain ⟨segs', frees'', shape'', coalesced'', perm, freed, keeps'⟩ :=
    release_spec shape' rfl later coalesced' next
  have counted : freeSize segs' = freeSize (pre ++ s :: post) + s.size := by
    rw [freed, freeSize_around_used used, freeSize_around_used rfl]
    dsimp only
    omega
  have total := shape''.tiles.freeSize_le
  have memory : (freeCore (data s.start) h).memory =
      if marked (assimilateUp s.start h.memory) (pblock (assimilateUp s.start h.memory) s.start)
      then (assimilateDown s.start freelistMask (assimilateUp s.start h.memory)).2
      else pushFree s.start (assimilateUp s.start h.memory) := by
    rw [freeCore, block]
  refine ⟨segs', ⟨d.ready, d.blocks_pos, ⟨frees'', ?_⟩, coalesced'', ?_⟩, ?_, counted, rfl, rfl,
    fun t inside' other => ?_⟩
  · rw [memory]
    exact shape''
  · have word : nblock h.memory s.start = s.stop := headers.nblock_used member used
    have freed_blocks : (freeCore (data s.start) h).freeBlocks =
        add32 h.freeBlocks (sub32 (nblock h.memory s.start) s.start) := by
      rw [freeCore, block]
    rw [freed_blocks, word, sub32_of_le (by omega) (by omega), d.counted,
      add32_of_lt (by omega), counted]
    omega
  · rw [usedOf_append, usedOf_cons_used used]
    refine List.perm_middle.trans (List.Perm.cons s ?_)
    rw [← used_eq]
    exact perm.symm
  · rw [memory]
    have origin : t ∈ pre ++ s :: post ∧ t.free = false := by
      have member' : t ∈ usedOf pre ++ usedOf post := by
        rw [← used_eq]
        exact perm.subset inside'
      rcases List.mem_append.1 member' with before | after
      · obtain ⟨found, used'⟩ := mem_usedOf.1 before
        exact ⟨List.mem_append_left _ found, used'⟩
      · obtain ⟨found, used'⟩ := mem_usedOf.1 after
        exact ⟨List.mem_append_right _ (List.mem_cons_of_mem s found), used'⟩
    exact (keeps t origin.1 origin.2 other).trans (keeps' t inside' other)

/-! ## The number of blocks -/

/-- The largest size whose number of blocks fits into 16 bits. -/
def sizeLimit : Nat := 2 ^ 19 - 12

theorem ummBlocks_pos {size : Nat} (limited : size ≤ sizeLimit) : 0 < ummBlocks size := by
  unfold ummBlocks sizeLimit at *
  split <;> omega

/-- The blocks hold the bytes besides the header. -/
theorem le_ummBlocks {size : Nat} (limited : size ≤ sizeLimit) : size + 4 ≤ 8 * ummBlocks size := by
  unfold ummBlocks sizeLimit at *
  split <;> omega

/-- The size of a free block, as the loop computes it. -/
def sizeAt (m : Ram) (b : Nat) : Nat := sub16 (following m b) b

/-- What a search over `xs` ends with. -/
structure Searched (m : Ram) (blocks : Nat) (xs : List Nat) (s r : Scan) : Prop where
  finished : r.cf = 0
  best : r.bestSize = s.bestSize ∧ r.bestBlock = s.bestBlock ∨
    r.bestBlock ∈ xs ∧ r.bestSize = sizeAt m r.bestBlock ∧ blocks ≤ r.bestSize ∧
      r.bestSize < s.bestSize
  smallest : ∀ x ∈ xs, blocks ≤ sizeAt m x → r.bestSize ≤ sizeAt m x
  final : r.blockSize = s.blockSize ∨ ∃ x ∈ xs, r.blockSize = sizeAt m x

theorem scanFreeList_spec {m : Ram} (blocks : Nat) {xs : List Nat} : ∀ {fuel a : Nat} {s : Scan},
    Linked (nfree m) (pfree m) a xs 0 → 0 ∉ xs → xs.length ≤ fuel → s.cf = xs.headD 0 →
      Searched m blocks xs s (scanFreeList m blocks fuel s) := by
  induction xs with
  | nil =>
    intro fuel a s _ _ _ start
    have same : scanFreeList m blocks fuel s = s := by
      cases fuel with
      | zero => rfl
      | succ fuel => exact if_pos start
    rw [same]
    exact ⟨start, .inl ⟨rfl, rfl⟩, fun x member => absurd member List.not_mem_nil, .inl rfl⟩
  | cons x xs ih =>
    intro fuel a s linked outside enough start
    obtain ⟨fuel, rfl⟩ : ∃ n, fuel = n + 1 :=
      Nat.exists_eq_add_one_of_ne_zero (Nat.ne_of_gt (Nat.lt_of_lt_of_le (Nat.succ_pos _) enough))
    obtain ⟨cf, blockSize, bestBlock, bestSize⟩ := s
    obtain rfl : cf = x := start
    have not_zero : cf ≠ 0 := fun zero => outside (zero ▸ List.mem_cons_self)
    have outside' : 0 ∉ xs := fun member => outside (List.mem_cons_of_mem cf member)
    have next := linked.2.2.next_start
    rw [scanFreeList, if_neg not_zero]
    dsimp only
    have enough' : xs.length ≤ fuel := Nat.le_of_succ_le_succ enough
    by_cases better : blocks ≤ sub16 (following m cf) cf ∧ sub16 (following m cf) cf < bestSize
    · rw [if_pos better]
      obtain ⟨finished, best, smallest, final⟩ := @ih fuel cf
        ⟨nfree m cf, sizeAt m cf, cf, sizeAt m cf⟩ linked.2.2 outside' enough' next
      have not_larger : (scanFreeList m blocks fuel
          ⟨nfree m cf, sizeAt m cf, cf, sizeAt m cf⟩).bestSize ≤ sizeAt m cf := by
        rcases best with ⟨same, -⟩ | ⟨-, -, -, less⟩
        · exact Nat.le_of_eq same
        · exact Nat.le_of_lt less
      refine ⟨finished, .inr ?_, fun y member => ?_, ?_⟩
      · rcases best with ⟨same, block⟩ | ⟨member, size, fits, less⟩
        · exact ⟨List.mem_cons.2 (.inl block), same.trans (congrArg (sizeAt m) block).symm,
            same.symm ▸ better.1, same.symm ▸ better.2⟩
        · exact ⟨List.mem_cons_of_mem cf member, size, fits, Nat.lt_trans less better.2⟩
      · intro fits
        rcases List.mem_cons.1 member with rfl | later
        · exact not_larger
        · exact smallest y later fits
      · rcases final with same | ⟨y, member, same⟩
        · exact .inr ⟨cf, List.mem_cons_self, same⟩
        · exact .inr ⟨y, List.mem_cons_of_mem cf member, same⟩
    · rw [if_neg better]
      obtain ⟨finished, best, smallest, final⟩ := @ih fuel cf
        ⟨nfree m cf, sizeAt m cf, bestBlock, bestSize⟩ linked.2.2 outside' enough' next
      have not_larger : (scanFreeList m blocks fuel
          ⟨nfree m cf, sizeAt m cf, bestBlock, bestSize⟩).bestSize ≤ bestSize := by
        rcases best with ⟨same, -⟩ | ⟨-, -, -, less⟩
        · exact Nat.le_of_eq same
        · exact Nat.le_of_lt less
      refine ⟨finished, ?_, fun y member => ?_, ?_⟩
      · rcases best with same | ⟨member, size, fits, less⟩
        · exact .inl same
        · exact .inr ⟨List.mem_cons_of_mem cf member, size, fits, less⟩
      · intro fits
        rcases List.mem_cons.1 member with rfl | later
        · have not_less : ¬ sizeAt m y < bestSize := fun less => better ⟨fits, less⟩
          exact Nat.le_trans not_larger (Nat.le_of_not_lt not_less)
        · exact smallest y later fits
      · rcases final with same | ⟨y, member, same⟩
        · exact .inr ⟨cf, List.mem_cons_self, same⟩
        · exact .inr ⟨y, List.mem_cons_of_mem cf member, same⟩

/-! ## umm_malloc_core -/

section
variable {h : Heap} {segs : List Segment} {s t : Segment} {frees : List Nat} {blocks : Nat}

/-- A free segment is smaller than the largest number of blocks. -/
theorem Divided.size_lt (d : Divided h segs) (inside : s ∈ segs) (free : s.free = true) :
    s.size < 0x7fff := by
  have later : 0 < s.start := Shape.start_pos d.headers inside fun same => by
    rw [same] at free
    cases free
  have stop := d.headers.stop_le inside
  have small := d.headers.small
  unfold Segment.stop at stop
  omega

theorem sizeAt_eq {m : Ram} {last : Nat} (headers : Headers m last segs) (inside : s ∈ segs) :
    sizeAt m s.start = s.size := by
  have stop := headers.stop_le inside
  have small := headers.small
  have stop_eq : s.stop = s.start + s.size := rfl
  rw [sizeAt, headers.following_eq inside, sub16_of_le (by omega) (by omega), stop_eq,
    Nat.add_sub_cancel_left]

/-- A free segment that is no smaller than asked, and no larger than another such. -/
structure BestFit (segs : List Segment) (blocks : Nat) (s : Segment) : Prop where
  inside : s ∈ segs
  free : s.free = true
  fits : blocks ≤ s.size
  smallest : ∀ t ∈ segs, t.free = true → blocks ≤ t.size → s.size ≤ t.size

/-- The block that the search picks. -/
def picked (h : Heap) (blocks : Nat) : Nat × Nat :=
  let m := h.memory
  let s := scanFreeList m blocks h.numblocks ⟨nfree m 0, 0, nfree m 0, 0x7fff⟩
  if s.bestSize ≠ 0x7fff then (s.bestBlock, s.bestSize) else (s.cf, s.blockSize)

theorem picked_spec (d : Divided h segs) (positive : 0 < blocks) :
    (∃ s, BestFit segs blocks s ∧ picked h blocks = (s.start, s.size)) ∨
      (∀ s ∈ segs, s.free = true → s.size < blocks) ∧ (picked h blocks).2 < blocks := by
  obtain ⟨frees, shape⟩ := d.shape
  have enough : frees.length ≤ h.numblocks := by
    have count := shape.listed.length_eq
    have short := shape.tiles.length_freeStarts_le
    have total := shape.tiles.freeSize_le
    omega
  have outside : 0 ∉ frees := (List.nodup_cons.1 shape.ring.nodup).1
  obtain ⟨finished, best, smallest, final⟩ := @scanFreeList_spec h.memory blocks frees h.numblocks 0
    ⟨nfree h.memory 0, 0, nfree h.memory 0, 0x7fff⟩ shape.ring.linked outside enough
    shape.ring.next_root
  have listed : ∀ s ∈ segs, s.free = true → s.start ∈ frees := fun s inside free =>
    shape.listed.symm.subset (mem_freeStarts.2 ⟨s, inside, free, rfl⟩)
  have sized : ∀ x ∈ frees, ∃ s ∈ segs, s.free = true ∧ s.start = x ∧
      sizeAt h.memory x = s.size := by
    intro x member
    obtain ⟨s, inside, free, rfl⟩ := mem_freeStarts.1 (shape.listed.subset member)
    exact ⟨s, inside, free, rfl, sizeAt_eq shape.toHeaders inside⟩
  unfold picked
  dsimp only
  rcases best with ⟨none, -⟩ | ⟨member, size, fits, less⟩
  · refine .inr ?_
    have short : ∀ s ∈ segs, s.free = true → s.size < blocks := by
      intro s inside free
      by_contra large
      have bound := smallest s.start (listed s inside free) (by
        rw [sizeAt_eq shape.toHeaders inside]
        omega)
      rw [none, sizeAt_eq shape.toHeaders inside] at bound
      exact absurd (d.size_lt inside free) (Nat.not_lt_of_ge bound)
    refine ⟨short, ?_⟩
    rw [if_neg (fun other => other none)]
    rcases final with zero | ⟨x, member, same⟩
    · rw [zero]
      exact positive
    · obtain ⟨s, inside, free, -, size⟩ := sized x member
      rw [same, size]
      exact short s inside free
  · refine .inl ?_
    obtain ⟨s, inside, free, start, size'⟩ := sized _ member
    rw [if_pos (Nat.ne_of_lt less)]
    refine ⟨s, ⟨inside, free, by omega, fun t inside' free' fits' => ?_⟩, ?_⟩
    · have bound := smallest t.start (listed t inside' free') (by
        rw [sizeAt_eq shape.toHeaders inside']
        exact fits')
      rw [sizeAt_eq shape.toHeaders inside'] at bound
      omega
    · rw [start, size, size']

end

/-- `umm_malloc_core` takes the smallest free block that is large enough, and its front only; it
gives up where no free block is. -/
theorem Divided.malloc {h : Heap} {segs : List Segment} (d : Divided h segs) {size : Nat}
    (positive : 0 < ummBlocks size) :
    (mallocCore size h = (none, { h with oomCount := add32 h.oomCount 1 }) ∧
        ∀ s ∈ segs, s.free = true → s.size < ummBlocks size) ∨
      ∃ s h' segs', BestFit segs (ummBlocks size) s ∧
        mallocCore size h = (some (data s.start), h') ∧ Divided h' segs' ∧
        (usedOf segs').Perm (⟨s.start, ummBlocks size, false⟩ :: usedOf segs) ∧
        freeSize segs' + ummBlocks size = freeSize segs ∧ h'.numblocks = h.numblocks ∧
        h'.oomCount = h.oomCount ∧
        ∀ t ∈ usedOf segs, t.start ≠ 0 → Keeps t h.memory h'.memory := by
  have spec := picked_spec d positive
  have unfolded : mallocCore size h =
      if following h.memory (picked h (ummBlocks size)).1 ≠ 0 ∧
          ummBlocks size ≤ (picked h (ummBlocks size)).2 then
        (some (data (picked h (ummBlocks size)).1), { h with
          memory := if (picked h (ummBlocks size)).2 = ummBlocks size
            then disconnectFromFreeList (picked h (ummBlocks size)).1 h.memory
            else takeFront (picked h (ummBlocks size)).1 (ummBlocks size) h.memory
          freeBlocks := sub32 h.freeBlocks (ummBlocks size) })
      else (none, { h with oomCount := add32 h.oomCount 1 }) := rfl
  generalize ummBlocks size = blocks at *
  rcases spec with ⟨s, fit, pick⟩ | ⟨short, small⟩
  · refine .inr ?_
    have inside := fit.inside
    obtain ⟨frees, shape⟩ := d.shape
    have later : 0 < s.start := Shape.start_pos shape.toHeaders inside fun same => by
      have free := fit.free
      rw [same] at free
      cases free
    have found : following h.memory s.start ≠ 0 := by
      rw [shape.following_eq inside]
      unfold Segment.stop
      omega
    rw [pick, if_pos ⟨found, fit.fits⟩] at unfolded
    have listed : s.start ∈ frees :=
      shape.listed.symm.subset (mem_freeStarts.2 ⟨s, inside, fit.free, rfl⟩)
    have total := freeSize_mem inside fit.free
    have counted : sub32 h.freeBlocks blocks = freeSize segs - blocks := by
      have small := d.freeSize_lt
      have fits := fit.fits
      rw [d.counted]
      exact sub32_of_le (by omega) (by omega)
    obtain ⟨pre, post, rfl⟩ := List.append_of_mem inside
    obtain ⟨xs, ys, rfl⟩ := List.append_of_mem listed
    obtain ⟨front, behind, before, after⟩ := coalesced_around.1 d.coalesced
    have free_eq := @freeSize_around_free s pre post fit.free
    have fits := fit.fits
    by_cases exact_fit : s.size = blocks
    · rw [if_pos exact_fit] at unfolded
      refine ⟨s, _, pre ++ s.mark false :: post, fit, unfolded, ⟨d.ready, d.blocks_pos,
        ⟨_, shape.take fit.free⟩, ?_, ?_⟩, ?_, ?_, rfl, rfl, fun t member other => ?_⟩
      · exact coalesced_around.2 ⟨front, behind, fun a _ both => Bool.false_ne_true both.2,
          fun b _ both => Bool.false_ne_true both.1⟩
      · rw [freeSize_around_used rfl]
        change sub32 h.freeBlocks blocks = _
        omega
      · rw [usedOf_append, usedOf_append, usedOf_cons_free fit.free, usedOf_cons_used rfl]
        refine List.perm_middle.trans (List.Perm.of_eq ?_)
        rw [← exact_fit]
        rfl
      · rw [freeSize_around_used rfl]
        omega
      · obtain ⟨member', used⟩ := mem_usedOf.1 member
        exact shape.take_keeps member' used other
    · have shorter : blocks < s.size := Nat.lt_of_le_of_ne fits (Ne.symm exact_fit)
      rw [if_neg exact_fit] at unfolded
      refine ⟨s, _, pre ++ ⟨s.start, blocks, false⟩ ::
        ⟨s.start + blocks, s.size - blocks, true⟩ :: post, fit, unfolded, ⟨d.ready, d.blocks_pos,
        ⟨_, shape.cut fit.free positive shorter⟩, ?_, ?_⟩, ?_, ?_, rfl, rfl,
        fun t member other => ?_⟩
      · refine coalesced_around.2 ⟨front, List.isChain_cons.2 ⟨fun b member both => ?_, behind⟩,
          fun a _ both => Bool.false_ne_true both.2, fun b _ both => Bool.false_ne_true both.1⟩
        exact after b member ⟨fit.free, both.2⟩
      · rw [freeSize_around_used rfl, freeSize_cons_free rfl]
        change sub32 h.freeBlocks blocks = _ + (s.size - blocks + _)
        omega
      · rw [usedOf_append, usedOf_append, usedOf_cons_free fit.free, usedOf_cons_used rfl,
          usedOf_cons_free rfl]
        exact List.perm_middle
      · rw [freeSize_around_used rfl, freeSize_cons_free rfl]
        change _ + (s.size - blocks + _) + _ = _
        omega
      · obtain ⟨member', used⟩ := mem_usedOf.1 member
        refine shape.cut_keeps positive shorter member' used other ?_
        rintro rfl
        rw [fit.free] at used
        cases used
  · refine .inl ⟨?_, short⟩
    rw [unfolded, if_neg (fun both => absurd both.2 (Nat.not_le_of_gt small))]

/-! ## Stores -/

/-- Only bytes of the user of a block are different. -/
def StoresInto (s : Segment) (m m' : Ram) : Prop :=
  ∀ x, x < data s.start ∨ 8 * s.stop ≤ x → m'.byte x = m.byte x

section
variable {m m' : Ram} {last : Nat} {segs : List Segment} {s t : Segment} {frees : List Nat}

theorem StoresInto.field_eq (stores : StoresInto s m m') (f : Field) {b : Nat}
    (apart : b < s.start ∨ s.stop ≤ b ∨ b = s.start ∧ f.offset ≤ 2) : field f m' b = field f m b := by
  have offset := Field.offset_le f
  refine half_congr (stores _ ?_) (stores _ ?_)
  · unfold data
    omega
  · unfold data
    omega

/-- The bytes of another block are the same. -/
theorem StoresInto.keeps (stores : StoresInto s m m') (headers : Headers m last segs)
    (inside : s ∈ segs) (inside' : t ∈ segs) (different : s ≠ t) : Keeps t m m' := by
  intro x low high
  refine stores x ?_
  unfold data at low ⊢
  rcases headers.tiles.apart inside inside' with same | before | after
  · exact absurd same different
  · exact .inr (by omega)
  · exact .inl (by omega)

/-- A store into a block in use leaves the heap in shape. -/
theorem Shape.store (shape : Shape m last segs frees) (inside : s ∈ segs) (used : s.free = false)
    (other : s.start ≠ 0) (stores : StoresInto s m m') : Shape m' last segs frees := by
  have start_eq : ∀ t ∈ segs, t.start < s.start ∨ s.stop ≤ t.start ∨ t.start = s.start := by
    intro t inside'
    have size := shape.size_pos inside'
    rcases shape.tiles.apart inside inside' with rfl | before | after
    · exact .inr (.inr rfl)
    · exact .inr (.inl before)
    · unfold Segment.stop at after
      exact .inl (by omega)
  have node_eq : ∀ f : Field, ∀ b ∈ 0 :: frees, field f m' b = field f m b := by
    intro f b member
    rcases shape.node_apart member inside used other with low | high
    · exact stores.field_eq f (.inl low)
    · exact stores.field_eq f (.inr (.inl high))
  refine ⟨⟨shape.tiles, shape.small, shape.root_mem, fun t inside' => ?_, fun t inside' => ?_, ?_⟩,
    ⟨shape.ring.linked.congr (fun b member => node_eq .nfree b member) (fun b member => ?_),
      shape.ring.nodup⟩, shape.listed⟩
  · refine Eq.trans (stores.field_eq .nblock ?_) (shape.nblock_eq t inside')
    rcases start_eq t inside' with low | high | same
    · exact .inl low
    · exact .inr (.inl high)
    · exact .inr (.inr ⟨same, by decide⟩)
  · refine Eq.trans (stores.field_eq .pblock ?_) (shape.pblock_eq t inside')
    have size := shape.size_pos inside'
    rcases shape.tiles.apart inside inside' with rfl | before | after
    · exact .inr (.inl (Nat.le_refl _))
    · have stop_eq : t.stop = t.start + t.size := rfl
      exact .inr (.inl (by omega))
    · rcases Nat.lt_or_eq_of_le after with less | same
      · exact .inl less
      · exact .inr (.inr ⟨same, by decide⟩)
  · exact Eq.trans (stores.field_eq .nblock (.inr (.inl (shape.stop_le inside)))) shape.closed
  · refine node_eq .pfree b ?_
    rcases List.mem_append.1 member with listed | zero
    · exact List.mem_cons_of_mem 0 listed
    · rw [List.mem_singleton.1 zero]
      exact List.mem_cons_self

end

theorem Divided.store {h : Heap} {segs : List Segment} {s : Segment} (d : Divided h segs)
    (inside : s ∈ usedOf segs) (other : s.start ≠ 0) {m' : Ram}
    (stores : StoresInto s h.memory m') : Divided { h with memory := m' } segs := by
  obtain ⟨member, used⟩ := mem_usedOf.1 inside
  obtain ⟨frees, shape⟩ := d.shape
  exact ⟨d.ready, d.blocks_pos, ⟨frees, shape.store member used other stores⟩, d.coalesced,
    d.counted⟩

/-! ## umm_init -/

theorem field_fill {size b : Nat} (f : Field) (m : Ram) (inside : 8 * b + 8 ≤ size) :
    field f (fill 0 size 0 m) b = 0 := by
  have offset := Field.offset_le f
  rw [field, half, fill_inside _ _ (by omega), fill_inside _ _ (by omega)]
  rfl

/-- The segments of the first heap. -/
def initial (numblocks : Nat) : List Segment := [root, ⟨1, numblocks - 2, true⟩]

theorem divided_init (space : HeapSpace) (h : Heap) :
    Divided (ummInit space h) (initial (space.size / 8)) := by
  have room := space.room
  have small := space.small
  obtain ⟨last, last_eq⟩ : ∃ last, space.size / 8 = last + 1 :=
    ⟨space.size / 8 - 1, by omega⟩
  have inside : 8 * last + 8 ≤ space.size := by omega
  have zero : ∀ f : Field, ∀ b ≤ last, field f (fill 0 space.size 0 h.memory) b = 0 :=
    fun f b bound => field_fill f h.memory (by omega)
  have count : (ummInit space h).numblocks - 1 = last := by
    change space.size / 8 - 1 = last
    omega
  have word : (last ||| freelistMask) % 2 ^ 16 = last + 2 ^ 15 := by
    rw [or_freelistMask (by omega), Nat.mod_eq_of_lt (by omega)]
  have one : 1 % 2 ^ 16 = 1 := rfl
  have nblock_eq : nblock (ummInit space h).memory = Function.update (Function.update
      (nblock (fill 0 space.size 0 h.memory)) 0 1) 1 (last + 2 ^ 15) := by
    simp only [ummInit, last_eq, nblock, field_setField_self, field_setField_ne, ne_eq,
      reduceCtorEq, not_false_eq_true, Nat.add_sub_cancel]
    rw [word, one]
  have pblock_eq : pblock (ummInit space h).memory =
      Function.update (pblock (fill 0 space.size 0 h.memory)) last 1 := by
    simp only [ummInit, last_eq, pblock, field_setField_self, field_setField_ne, ne_eq,
      reduceCtorEq, not_false_eq_true, Nat.add_sub_cancel]
    rw [one]
  have nfree_eq : nfree (ummInit space h).memory =
      Function.update (nfree (fill 0 space.size 0 h.memory)) 0 1 := by
    simp only [ummInit, nfree, field_setField_self, field_setField_ne, ne_eq, reduceCtorEq,
      not_false_eq_true]
    rw [one]
  have pfree_eq : pfree (ummInit space h).memory =
      Function.update (pfree (fill 0 space.size 0 h.memory)) 0 1 := by
    simp only [ummInit, pfree, field_setField_self, field_setField_ne, ne_eq, reduceCtorEq,
      not_false_eq_true]
    rw [one]
  have stop : Segment.stop ⟨1, last - 1, true⟩ = last := by
    change 1 + (last - 1) = last
    omega
  have segs_eq : initial (space.size / 8) = [root, ⟨1, last - 1, true⟩] := by
    rw [initial, last_eq]
    rfl
  rw [segs_eq]
  refine ⟨rfl, by change 0 < space.size / 8; omega, ⟨[1], ?_⟩, ?_, ?_⟩
  · rw [count]
    refine ⟨⟨⟨rfl, by decide, rfl, by change 0 < last - 1; omega, stop⟩, by omega,
      List.mem_cons_self, ?_, ?_, ?_⟩, ⟨⟨?_, ?_, ?_, ?_⟩, by decide⟩, List.Perm.refl _⟩
    · intro s member
      rw [nblock_eq]
      rcases List.mem_cons.1 member with rfl | single
      · rfl
      · rw [List.mem_singleton.1 single, stop]
        rfl
    · intro s member
      rw [pblock_eq]
      rcases List.mem_cons.1 member with rfl | single
      · rw [Function.update_of_ne (show root.stop ≠ last by change 1 ≠ last; omega)]
        exact zero .pblock 1 (by omega)
      · rw [List.mem_singleton.1 single, stop, Function.update_self]
    · rw [nblock_eq, Function.update_of_ne (by omega), Function.update_of_ne (by omega)]
      exact zero .nblock last (Nat.le_refl _)
    · rw [nfree_eq, Function.update_self]
    · rw [pfree_eq, Function.update_of_ne (by decide)]
      exact zero .pfree 1 (by omega)
    · rw [nfree_eq, Function.update_of_ne (by decide)]
      exact zero .nfree 1 (by omega)
    · rw [pfree_eq, Function.update_self]
  · exact List.isChain_cons.2 ⟨fun b _ both => Bool.false_ne_true both.1, List.isChain_singleton _⟩
  · change space.size / 8 - 2 = (last - 1) + 0
    omega

/-! ## The end of umm_realloc -/

/-- A block in use is cut into two. -/
theorem Divided.split {h : Heap} {pre post : List Segment} {s : Segment} {k : Nat}
    (d : Divided h (pre ++ s :: post)) (used : s.free = false) (later : 0 < s.start)
    (positive : 0 < k) (shorter : k < s.size) :
    Divided { h with memory := splitBlock s.start k 0 h.memory }
      (pre ++ ⟨s.start, k, false⟩ :: ⟨s.start + k, s.size - k, false⟩ :: post) := by
  obtain ⟨frees, shape⟩ := d.shape
  obtain ⟨front, behind, before, -⟩ := coalesced_around.1 d.coalesced
  refine ⟨d.ready, d.blocks_pos, ⟨frees, shape.split later positive shorter false, ?_, ?_⟩, ?_, ?_⟩
  · rw [nfree_split, pfree_split]
    exact shape.ring
  · have listed := shape.listed
    rw [freeStarts_append, freeStarts_cons_used used] at listed
    rwa [freeStarts_append, freeStarts_cons_used rfl, freeStarts_cons_used rfl]
  · refine coalesced_around.2 ⟨front, List.isChain_cons.2 ⟨fun b _ both => ?_, behind⟩,
      fun a _ both => Bool.false_ne_true both.2, fun b _ both => Bool.false_ne_true both.1⟩
    exact Bool.false_ne_true both.1
  · rw [freeSize_around_used rfl, freeSize_cons_used rfl, ← freeSize_around_used used]
    exact d.counted

/-- What is too much of a block in use is freed. -/
theorem Divided.trim {h : Heap} {segs : List Segment} {s : Segment} {k : Nat} (d : Divided h segs)
    (inside : s ∈ usedOf segs) (later : 0 < s.start) (positive : 0 < k) (fits : k ≤ s.size) :
    ∃ segs', Divided (Source.UmmMalloc.trim s.start s.size k h) segs' ∧
      (∀ rest, (usedOf segs).Perm (s :: rest) →
        (usedOf segs').Perm (⟨s.start, k, false⟩ :: rest)) ∧
      freeSize segs' + k = freeSize segs + s.size ∧
      (Source.UmmMalloc.trim s.start s.size k h).numblocks = h.numblocks ∧
      (Source.UmmMalloc.trim s.start s.size k h).oomCount = h.oomCount ∧
      ∀ t ∈ usedOf segs', t.start ≠ 0 →
        Keeps t h.memory (Source.UmmMalloc.trim s.start s.size k h).memory := by
  obtain ⟨member, used⟩ := mem_usedOf.1 inside
  rcases Nat.lt_or_eq_of_le fits with shorter | rfl
  · have unfolded : Source.UmmMalloc.trim s.start s.size k h =
        freeCore (data (s.start + k)) { h with memory := splitBlock s.start k 0 h.memory } :=
      if_pos shorter
    have headers := d.headers
    obtain ⟨pre, post, rfl⟩ := List.append_of_mem member
    have cut := d.split used later positive shorter
    have rest_mem : ⟨s.start + k, s.size - k, false⟩ ∈
        usedOf (pre ++ ⟨s.start, k, false⟩ :: ⟨s.start + k, s.size - k, false⟩ :: post) :=
      mem_usedOf.2 ⟨by simp, rfl⟩
    obtain ⟨segs', freed, perm, size, blocks, oom, keeps⟩ :=
      cut.free rest_mem (Nat.add_pos_left later k)
    rw [unfolded]
    have used_eq : usedOf (pre ++ s :: post) = usedOf pre ++ s :: usedOf post := by
      rw [usedOf_append, usedOf_cons_used used]
    rw [usedOf_append, usedOf_cons_used rfl, usedOf_cons_used rfl] at perm
    have perm' : (usedOf segs').Perm (⟨s.start, k, false⟩ :: (usedOf pre ++ usedOf post)) := by
      have both : (⟨s.start + k, s.size - k, false⟩ :: usedOf segs').Perm
          (⟨s.start + k, s.size - k, false⟩ :: ⟨s.start, k, false⟩ ::
            (usedOf pre ++ usedOf post)) :=
        perm.symm.trans (List.perm_middle.trans ((List.perm_middle.cons _).trans
          (List.Perm.swap _ _ _)))
      exact both.cons_inv
    refine ⟨segs', freed, fun rest others => ?_, ?_, blocks, oom, fun t listed other => ?_⟩
    · rw [used_eq] at others
      exact perm'.trans ((List.perm_middle.symm.trans others).cons_inv.cons _)
    · rw [freeSize_around_used used]
      rw [freeSize_around_used rfl, freeSize_cons_used rfl] at size
      change _ = _ + (s.size - k) at size
      omega
    · refine Keeps.trans ?_ (keeps t listed other)
      have stop_eq : s.stop = s.start + s.size := rfl
      have part : t = ⟨s.start, k, false⟩ ∨ t ∈ pre ++ s :: post ∧ s ≠ t := by
        rcases List.mem_cons.1 (perm'.subset listed) with same | outside
        · exact .inl same
        · refine .inr ?_
          obtain ⟨before, -, after⟩ := headers.tiles.around
          have size_pos := headers.size_pos member
          rcases List.mem_append.1 outside with ahead | behind
          · obtain ⟨ahead, -⟩ := mem_usedOf.1 ahead
            refine ⟨List.mem_append_left _ ahead, fun same => ?_⟩
            have bound := before.bounds ahead
            rw [← same] at bound
            omega
          · obtain ⟨behind, -⟩ := mem_usedOf.1 behind
            refine ⟨List.mem_append_right _ (List.mem_cons_of_mem s behind), fun same => ?_⟩
            have bound := after.bounds behind
            rw [← same] at bound
            omega
      refine keeps_split 0 positive (headers.following_eq member) ?_ ?_ ?_
      · rcases part with rfl | ⟨there, -⟩
        · exact .inl (Nat.le_refl _)
        · exact (Shape.side headers member there).1
      · rcases part with rfl | ⟨there, different⟩
        · exact .inr (Nat.le_refl _)
        · rcases headers.tiles.apart member there with same | low | high
          · exact absurd same different
          · exact .inl (by omega)
          · exact .inr (by omega)
      · rcases part with rfl | ⟨there, -⟩
        · refine .inr ?_
          change s.start + k ≤ s.stop
          omega
        · exact (Shape.side headers member there).2
  · have unfolded : Source.UmmMalloc.trim s.start s.size s.size h = h :=
      if_neg (Nat.lt_irrefl _)
    have same : (⟨s.start, s.size, false⟩ : Segment) = s := by
      rw [← used]
    rw [unfolded, same]
    exact ⟨segs, d, fun rest others => others, rfl, rfl, rfl, fun t _ _ => Keeps.refl t _⟩

end Esp8266.Umm
