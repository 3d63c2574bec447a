import Esp8266.Umm.Calls

/-!
# umm_realloc

A call exchanges segments in use for others and leaves those of everybody else alone, with their
bytes. `umm_realloc` is followed up to the place where it lets interrupts in and copies, and from
there to its end.
-/
set_option autoImplicit false

namespace Esp8266.Umm
open Esp8266.Lib Esp8266.Lib.ByteMemory Esp8266.Lib.Word32 Esp8266.Source.UmmMalloc

/-- The segments `old` in use become `new`; the others, and their bytes, stay. -/
structure Exchange (h : Heap) (segs old new : List Segment) (h' : Heap) (segs' : List Segment) :
    Prop where
  divided : Divided h' segs'
  numblocks : h'.numblocks = h.numblocks
  exchanged : ∀ rest, (usedOf segs).Perm (old ++ rest) → (usedOf segs').Perm (new ++ rest) ∧
    ∀ t ∈ rest, t.start ≠ 0 → Keeps t h.memory h'.memory

namespace Exchange

variable {h h' h'' : Heap} {segs segs' segs'' old mid new : List Segment}

theorem trans (first : Exchange h segs old mid h' segs')
    (second : Exchange h' segs' mid new h'' segs'') : Exchange h segs old new h'' segs'' := by
  refine ⟨second.divided, second.numblocks.trans first.numblocks, fun rest perm => ?_⟩
  obtain ⟨perm', keeps⟩ := first.exchanged rest perm
  obtain ⟨perm'', keeps'⟩ := second.exchanged rest perm'
  exact ⟨perm'', fun t member other => (keeps t member other).trans (keeps' t member other)⟩

/-- What holds for some segments holds with others beside them. -/
theorem frame (exchange : Exchange h segs old new h' segs') (others : List Segment) :
    Exchange h segs (old ++ others) (new ++ others) h' segs' := by
  refine ⟨exchange.divided, exchange.numblocks, fun rest perm => ?_⟩
  rw [List.append_assoc] at perm ⊢
  obtain ⟨perm', keeps⟩ := exchange.exchanged (others ++ rest) perm
  exact ⟨perm', fun t member other => keeps t (List.mem_append_right others member) other⟩

end Exchange

section
variable {h : Heap} {segs : List Segment} {s : Segment} {k : Nat}

/-- A segment in use, apart from the others. -/
theorem usedOf_split (inside : s ∈ usedOf segs) : ∃ rest, (usedOf segs).Perm (s :: rest) := by
  obtain ⟨pre, post, eq⟩ := List.append_of_mem inside
  exact ⟨pre ++ post, eq ▸ List.perm_middle⟩

theorem Divided.free_exchange (d : Divided h segs) (inside : s ∈ usedOf segs) (later : 0 < s.start) :
    ∃ segs', Exchange h segs [s] [] (freeCore (data s.start) h) segs' := by
  obtain ⟨segs', divided, perm, -, numblocks, -, keeps⟩ := d.free inside later
  refine ⟨segs', divided, numblocks, fun rest others => ?_⟩
  have same : (usedOf segs').Perm rest := (perm.symm.trans others).cons_inv
  exact ⟨same, fun t member other => keeps t (same.symm.subset member) other⟩

theorem Divided.trim_exchange (d : Divided h segs) (inside : s ∈ usedOf segs)
    (later : 0 < s.start) (positive : 0 < k) (fits : k ≤ s.size) :
    ∃ segs', Exchange h segs [s] [⟨s.start, k, false⟩]
        (Source.UmmMalloc.trim s.start s.size k h) segs' ∧
      Keeps ⟨s.start, k, false⟩ h.memory (Source.UmmMalloc.trim s.start s.size k h).memory := by
  obtain ⟨segs', divided, perm, -, numblocks, -, keeps⟩ := d.trim inside later positive fits
  obtain ⟨rest, split⟩ := usedOf_split inside
  refine ⟨segs', ⟨divided, numblocks, fun rest others => ?_⟩, ?_⟩
  · have same := perm rest others
    exact ⟨same, fun t member other =>
      keeps t (same.symm.subset (List.mem_cons_of_mem _ member)) other⟩
  · exact keeps _ ((perm rest split).symm.subset List.mem_cons_self) (Nat.ne_of_gt later)

/-- `umm_malloc_core`, as an exchange. -/
theorem Divided.malloc_exchange (d : Divided h segs) {size : Nat} (positive : 0 < ummBlocks size) :
    (mallocCore size h = (none, { h with oomCount := add32 h.oomCount 1 }) ∧
        ∀ s ∈ segs, s.free = true → s.size < ummBlocks size) ∨
      ∃ s h' segs', BestFit segs (ummBlocks size) s ∧ 0 < s.start ∧
        mallocCore size h = (some (data s.start), h') ∧
        Exchange h segs [] [⟨s.start, ummBlocks size, false⟩] h' segs' := by
  rcases d.malloc positive with failed | ⟨s, h', segs', fit, result, divided, perm, -, numblocks, -,
    keeps⟩
  · exact .inl failed
  · refine .inr ⟨s, h', segs', fit, ?_, result, divided, numblocks, fun rest others => ?_⟩
    · refine Shape.start_pos d.headers fit.inside fun same => ?_
      have free := fit.free
      rw [same] at free
      cases free
    · exact ⟨perm.trans (others.cons _),
        fun t member other => keeps t (others.symm.subset member) other⟩

end

/-! ## Joining with the neighbours -/

section
variable {h : Heap} {pre post : List Segment} {a s : Segment}

/-- The previous block, taken from the free list and joined with the block. -/
def downMemory (c : Nat) (m : Ram) : Ram :=
  (assimilateDown c 0 (disconnectFromFreeList (pblock m c) m)).2

theorem Divided.down (d : Divided h (pre ++ a :: s :: post)) (free : a.free = true)
    (used : s.free = false) :
    Exchange h (pre ++ a :: s :: post) [s] [⟨a.start, a.size + s.size, false⟩]
        { h with
          memory := downMemory s.start h.memory
          freeBlocks := sub32 h.freeBlocks a.size }
        (pre ++ ⟨a.start, a.size + s.size, false⟩ :: post) ∧
      (assimilateDown s.start 0 (disconnectFromFreeList (pblock h.memory s.start) h.memory)).1 =
        a.start ∧
      Keeps s h.memory (downMemory s.start h.memory) := by
  obtain ⟨frees, shape⟩ := d.shape
  have a_mem : a ∈ pre ++ a :: s :: post := List.mem_append_right pre List.mem_cons_self
  have s_mem : s ∈ pre ++ a :: s :: post :=
    List.mem_append_right pre (List.mem_cons_of_mem a List.mem_cons_self)
  have a_later : 0 < a.start := Shape.start_pos shape.toHeaders a_mem fun same => by
    rw [same] at free
    cases free
  have back : pblock h.memory s.start = a.start := by
    rw [← Shape.adjacent shape.toHeaders, shape.pblock_eq a a_mem]
  have listed : a.start ∈ frees :=
    shape.listed.symm.subset (mem_freeStarts.2 ⟨a, a_mem, free, rfl⟩)
  obtain ⟨xs, ys, rfl⟩ := List.append_of_mem listed
  have taken := shape.take free
  have joined := @Shape.descend _ _ pre post (a.mark false) s _ taken used a_later
  have down_eq := @Shape.assimilateDown_eq _ _ pre post (a.mark false) s taken.toHeaders used false
  have keeps : ∀ t ∈ pre ++ a :: s :: post, t.free = false → t.start ≠ 0 →
      Keeps t h.memory (downMemory s.start h.memory) := by
    intro t inside used' other
    rw [downMemory, back]
    refine (shape.take_keeps inside used' other).trans
      (@Shape.descend_keeps _ _ pre post (a.mark false) s t taken.toHeaders used false ?_)
    rcases List.mem_append.1 inside with before | here
    · exact List.mem_append_left _ before
    · rcases List.mem_cons.1 here with rfl | after
      · rw [free] at used'
        cases used'
      · exact List.mem_append_right pre (List.mem_cons_of_mem _ after)
  obtain ⟨front, behind, -, -⟩ := coalesced_around.1 d.coalesced
  obtain ⟨-, behind⟩ := List.isChain_cons.1 behind
  have size_eq := @freeSize_around_free a pre (s :: post) free
  rw [freeSize_cons_used used] at size_eq
  have bound := d.freeSize_lt
  refine ⟨⟨⟨d.ready, d.blocks_pos, ⟨xs ++ ys, ?_⟩, ?_, ?_⟩, rfl, fun rest perm => ?_⟩, ?_, ?_⟩
  · rw [downMemory, back]
    exact joined
  · exact coalesced_around.2 ⟨front, behind, fun b _ both => Bool.false_ne_true both.2,
      fun b _ both => Bool.false_ne_true both.1⟩
  · rw [freeSize_around_used rfl]
    change sub32 h.freeBlocks a.size = _
    rw [d.counted, sub32_of_le (by omega) (by omega)]
    omega
  · rw [usedOf_append, usedOf_cons_free free, usedOf_cons_used used] at perm
    have others : (usedOf pre ++ usedOf post).Perm rest :=
      (List.perm_middle.symm.trans perm).cons_inv
    rw [usedOf_append, usedOf_cons_used rfl]
    refine ⟨List.perm_middle.trans (others.cons _), fun t member other => ?_⟩
    have origin : t ∈ usedOf pre ++ usedOf post := others.symm.subset member
    rcases List.mem_append.1 origin with before | after
    · obtain ⟨found, used'⟩ := mem_usedOf.1 before
      exact keeps t (List.mem_append_left _ found) used' other
    · obtain ⟨found, used'⟩ := mem_usedOf.1 after
      have later := List.mem_cons_of_mem a (List.mem_cons_of_mem s found)
      exact keeps t (List.mem_append_right pre later) used' other
  · rw [back]
    exact congrArg Prod.fst down_eq
  · refine keeps s s_mem used ?_
    have seam := Shape.adjacent shape.toHeaders
    unfold Segment.stop at seam
    omega

/-- The next block, if it is free, joined with the block. -/
theorem Divided.up (d : Divided h (pre ++ s :: post)) (used : s.free = false)
    (later : 0 < s.start) :
    ∃ post', Exchange h (pre ++ s :: post) [s] [⟨s.start, s.size + nextFree post, false⟩]
        { h with
          memory := assimilateUp s.start h.memory
          freeBlocks := sub32 h.freeBlocks (nextFree post) }
        (pre ++ ⟨s.start, s.size + nextFree post, false⟩ :: post') ∧
      Keeps s h.memory (assimilateUp s.start h.memory) := by
  obtain ⟨frees, shape⟩ := d.shape
  obtain ⟨post', frees', shape', coalesced', -, used_eq, size_eq, keeps⟩ :=
    assimilateUp_spec shape used later d.coalesced
  have bound := d.freeSize_lt
  have total := @freeSize_around_used s pre post used
  have s_mem : s ∈ pre ++ s :: post := List.mem_append_right pre List.mem_cons_self
  refine ⟨post', ⟨⟨d.ready, d.blocks_pos, ⟨frees', shape'⟩, coalesced', ?_⟩, rfl,
    fun rest perm => ?_⟩, keeps s s_mem used (Nat.ne_of_gt later)⟩
  · rw [freeSize_around_used rfl]
    change sub32 h.freeBlocks (nextFree post) = _
    rw [d.counted, sub32_of_le (by omega) (by omega)]
    omega
  · rw [usedOf_append, usedOf_cons_used used] at perm
    have others : (usedOf pre ++ usedOf post).Perm rest :=
      (List.perm_middle.symm.trans perm).cons_inv
    rw [usedOf_append, usedOf_cons_used rfl, used_eq]
    refine ⟨List.perm_middle.trans (others.cons _), fun t member other => ?_⟩
    have origin : t ∈ usedOf pre ++ usedOf post := others.symm.subset member
    rcases List.mem_append.1 origin with before | after
    · obtain ⟨found, used'⟩ := mem_usedOf.1 before
      exact keeps t (List.mem_append_left _ found) used' other
    · obtain ⟨found, used'⟩ := mem_usedOf.1 after
      exact keeps t (List.mem_append_right pre (List.mem_cons_of_mem _ found)) used' other

end

/-! ## Up to the copy -/

/-- The free block in front of a block, as `prevBlockSize`. -/
theorem prevBlockSize_eq {m : Ram} {last : Nat} {pre post : List Segment} {a s : Segment}
    (headers : Headers m last (pre ++ a :: s :: post)) :
    (if marked m (pblock m s.start) then sub16 s.start (pblock m s.start) else 0) =
      if a.free then a.size else 0 := by
  have a_mem : a ∈ pre ++ a :: s :: post := List.mem_append_right pre List.mem_cons_self
  have back : pblock m s.start = a.start := by
    rw [← Shape.adjacent headers, headers.pblock_eq a a_mem]
  have stop := headers.stop_le a_mem
  have small := headers.small
  have seam := Shape.adjacent headers
  have stop_eq : a.stop = a.start + a.size := rfl
  rw [back, headers.marked_eq a_mem, ← seam, sub16_of_le (by omega) (by omega), stop_eq,
    Nat.add_sub_cancel_left]

theorem nextFree_le {m : Ram} {last : Nat} {pre post : List Segment} {s : Segment}
    (headers : Headers m last (pre ++ s :: post)) : s.stop + nextFree post ≤ last := by
  obtain ⟨-, -, behind⟩ := headers.tiles.around
  cases post with
  | nil => exact Nat.le_of_eq behind
  | cons b post =>
    have stop := (behind.bounds List.mem_cons_self).2.2
    have seam := Shape.adjacent headers
    have stop_eq : b.stop = b.start + b.size := rfl
    rw [nextFree]
    split <;> omega

/-- What `umm_realloc` of the block `s` ends with, or comes to the copy with. -/
inductive Reallocated (h : Heap) (segs : List Segment) (s : Segment) (k : Nat) :
    Reallocation × Heap → Prop where
  | inPlace {h' : Heap} {segs' : List Segment}
      (exchange : Exchange h segs [s] [⟨s.start, k, false⟩] h' segs')
      (keeps : Keeps ⟨s.start, min s.size k, false⟩ h.memory h'.memory) :
      Reallocated h segs s k (.done (some (data s.start)), h')
  | failed {oomCount : Nat} (full : ∀ t ∈ segs, t.free = true → t.size < k) :
      Reallocated h segs s k (.done none, { h with oomCount })
  | down {h' : Heap} {segs' : List Segment} {t : Segment} (later : 0 < t.start)
      (exchange : Exchange h segs [s] [t] h' segs') (used : t.free = false)
      (low : t.start ≤ s.start) (high : s.stop ≤ t.stop) (fits : k ≤ t.size)
      (keeps : Keeps s h.memory h'.memory) :
      Reallocated h segs s k (.copying
        ⟨data t.start, data s.start, 8 * s.size - 4, false, t.start, t.size, k⟩, h')
  | fresh {h' : Heap} {segs' : List Segment} {start : Nat} (later : 0 < start)
      (exchange : Exchange h segs [] [⟨start, k, false⟩] h' segs') (larger : s.size < k) :
      Reallocated h segs s k (.copying
        ⟨data start, data s.start, 8 * s.size - 4, true, s.start, k, k⟩, h')

section
variable {h : Heap} {segs : List Segment} {s : Segment} {k : Nat}

theorem Divided.reallocDown (d : Divided h segs) {pre post : List Segment} {a : Segment}
    (eq : segs = pre ++ a :: s :: post) (free : a.free = true) (used : s.free = false)
    (positive : 0 < k) (fits : k ≤ a.size + s.size + nextFree post) :
    Reallocated h segs s k (reallocDown s.start (data s.start) (8 * s.size - 4) k s.size a.size
      (nextFree post) h) := by
  subst eq
  have headers := d.headers
  have a_mem : a ∈ pre ++ a :: s :: post := List.mem_append_right pre List.mem_cons_self
  have a_later : 0 < a.start := Shape.start_pos headers a_mem fun same => by
    rw [same] at free
    cases free
  have s_mem : s ∈ pre ++ a :: s :: post :=
    List.mem_append_right pre (List.mem_cons_of_mem a List.mem_cons_self)
  have seam := Shape.adjacent headers
  have stop_a : a.stop = a.start + a.size := rfl
  have stop_s : s.stop = s.start + s.size := rfl
  have stop := headers.stop_le s_mem
  have small := headers.small
  obtain ⟨exchange, target, keeps⟩ := d.down free used
  have joined := exchange.divided
  have size_eq : (s.size + a.size) % 2 ^ 16 = a.size + s.size := by
    rw [Nat.mod_eq_of_lt (by omega)]
    omega
  unfold Source.UmmMalloc.reallocDown
  dsimp only
  rw [target, size_eq]
  by_cases enough : k ≤ a.size + s.size
  · rw [if_pos enough]
    refine @Reallocated.down h _ s k _ _ ⟨a.start, a.size + s.size, false⟩ a_later exchange rfl
      ?_ ?_ enough keeps
    · change a.start ≤ s.start
      omega
    · change s.stop ≤ a.start + (a.size + s.size)
      omega
  · rw [if_neg enough]
    obtain ⟨post', exchange', keeps'⟩ := joined.up rfl a_later
    have member : ⟨a.start, a.size + s.size + nextFree post, false⟩ ∈
        usedOf (pre ++ ⟨a.start, a.size + s.size + nextFree post, false⟩ :: post') :=
      mem_usedOf.2 ⟨List.mem_append_right pre List.mem_cons_self, rfl⟩
    obtain ⟨segs', exchange'', keeps''⟩ :=
      exchange'.divided.trim_exchange member a_later positive fits
    have whole := exchange'.divided.headers.stop_le
      (List.mem_append_right pre List.mem_cons_self)
    have count := exchange'.numblocks
    have size_eq' : (a.size + s.size + nextFree post) % 2 ^ 16 =
        a.size + s.size + nextFree post := by
      change a.start + (a.size + s.size + nextFree post) ≤ h.numblocks - 1 at whole
      exact Nat.mod_eq_of_lt (by omega)
    rw [size_eq']
    refine @Reallocated.down h _ s k _ _ ⟨a.start, k, false⟩ a_later
      (exchange.trans (exchange'.trans exchange'')) rfl ?_ ?_ (Nat.le_refl k) ?_
    · change a.start ≤ s.start
      omega
    · change s.stop ≤ a.start + k
      omega
    · -- the old bytes lie in front of what is cut off
      refine (keeps.trans (keeps'.mono ?_ ?_)).trans (keeps''.mono ?_ ?_)
      · change a.start ≤ s.start
        omega
      · change s.stop ≤ a.start + (a.size + s.size)
        omega
      · change a.start ≤ s.start
        omega
      · change s.stop ≤ a.start + k
        omega

/-- `umm_realloc`, up to the copy or to its end. -/
theorem Divided.reallocBegin (d : Divided h segs) (inside : s ∈ usedOf segs) (later : 0 < s.start)
    {size : Nat} (positive : 0 < ummBlocks size) :
    Reallocated h segs s (ummBlocks size) (reallocBegin (data s.start) size h) := by
  obtain ⟨member, used⟩ := mem_usedOf.1 inside
  have headers := d.headers
  have small := headers.small
  have stop := headers.stop_le member
  have start_lt := headers.start_lt member
  have size_pos := headers.size_pos member
  have stop_eq : s.stop = s.start + s.size := rfl
  have block : blockOf (data s.start) = s.start := blockOf_data (by omega)
  have size_eq : sub16 (nblock h.memory s.start) s.start = s.size := by
    rw [headers.nblock_used member used, sub16_of_le (by omega) (by omega)]
    omega
  have bytes_eq : sub32 (s.size * 8) 4 = 8 * s.size - 4 := by
    rw [sub32_of_le (by omega) (by omega)]
    omega
  obtain ⟨pre, post, rfl⟩ := List.append_of_mem member
  obtain ⟨pre', a, rfl, seam, -, -⟩ := previous headers later
  have whole : (pre' ++ [a]) ++ s :: post = pre' ++ a :: s :: post := by simp
  have next := nextBlockSize_eq headers used
  have prev := prevBlockSize_eq (whole ▸ headers)
  have total := @nextFree_le h.memory (h.numblocks - 1) (pre' ++ [a]) post s headers
  unfold Source.UmmMalloc.reallocBegin
  dsimp only
  rw [block, size_eq, bytes_eq, next, prev]
  by_cases lower : (if a.free = true then a.size else 0) ≠ 0 ∧
      ummBlocks size ≤ (if a.free = true then a.size else 0) + s.size + nextFree post
  · rw [if_pos lower]
    cases free : a.free with
    | false =>
      rw [free] at lower
      exact absurd rfl lower.1
    | true =>
      rw [free] at lower
      exact d.reallocDown whole free used positive lower.2
  · rw [if_neg lower]
    by_cases enough : ummBlocks size ≤ s.size
    · rw [if_pos enough]
      obtain ⟨segs', exchange, keeps⟩ := d.trim_exchange inside later positive enough
      refine .inPlace exchange ?_
      rw [Nat.min_eq_right enough]
      exact keeps
    · rw [if_neg enough]
      by_cases joined : ummBlocks size ≤ s.size + nextFree post
      · rw [if_pos joined]
        obtain ⟨post', exchange, keeps⟩ := d.up used later
        have member' : ⟨s.start, s.size + nextFree post, false⟩ ∈
            usedOf ((pre' ++ [a]) ++ ⟨s.start, s.size + nextFree post, false⟩ :: post') :=
          mem_usedOf.2 ⟨List.mem_append_right _ List.mem_cons_self, rfl⟩
        obtain ⟨segs', exchange', keeps'⟩ :=
          exchange.divided.trim_exchange member' later positive joined
        rw [Nat.mod_eq_of_lt (by omega)]
        refine .inPlace (exchange.trans exchange') ?_
        rw [Nat.min_eq_left (by omega)]
        refine Keeps.trans ?_ (keeps'.mono (Nat.le_refl _) ?_)
        · exact keeps.mono (Nat.le_refl _) (Nat.le_refl _)
        · change s.start + s.size ≤ s.start + ummBlocks size
          omega
      · rw [if_neg joined]
        rcases d.malloc_exchange positive with ⟨result, full⟩ | ⟨t, h', segs', -, later', result,
          exchange⟩
        · rw [result]
          exact .failed full
        · rw [result]
          exact .fresh later' exchange (by omega)

end

/-! ## From the copy on -/

section
variable {h : Heap} {segs : List Segment} {s t : Segment} {k n ptr : Nat}

theorem Divided.store_exchange (d : Divided h segs) (inside : s ∈ usedOf segs)
    (other : s.start ≠ 0) {m' : Ram} (stores : StoresInto s h.memory m') :
    Exchange h segs [s] [s] { h with memory := m' } segs := by
  refine ⟨d.store inside other stores, rfl, fun rest perm => ⟨perm, fun t member _ => ?_⟩⟩
  obtain ⟨member_s, -⟩ := mem_usedOf.1 inside
  obtain ⟨member_t, -⟩ := mem_usedOf.1 (perm.symm.subset (List.mem_cons_of_mem s member))
  refine stores.keeps d.headers member_s member_t ?_
  rintro rfl
  -- no segment is in use twice
  have nodup : (usedOf segs).Nodup := d.headers.tiles.nodup.filter _
  exact (List.nodup_cons.1 (perm.nodup nodup)).1 member

theorem move_storesInto {m : Ram} (bound : data t.start + n ≤ 8 * t.stop) :
    StoresInto t m (move (data t.start) ptr n m) :=
  fun x outside => move_outside m (by omega)

/-- The old bytes are moved down inside of the joined block, and what is too much is freed. -/
theorem Divided.reallocEnd_down (d : Divided h segs) (inside : t ∈ usedOf segs)
    (later : 0 < t.start) (positive : 0 < k) (fits : k ≤ t.size)
    (bound : data t.start + n ≤ 8 * t.stop) :
    ∃ h' segs', reallocEnd ⟨data t.start, ptr, n, false, t.start, t.size, k⟩ h =
        (some (data t.start), h') ∧
      Exchange h segs [t] [⟨t.start, k, false⟩] h' segs' ∧
      ∀ i, i < n → i + 4 < 8 * k →
        h'.memory.byte (data t.start + i) = h.memory.byte (ptr + i) := by
  have moved := d.store_exchange inside (Nat.ne_of_gt later) (@move_storesInto t n ptr h.memory bound)
  obtain ⟨segs', exchange, keeps⟩ := moved.divided.trim_exchange inside later positive fits
  refine ⟨_, segs', rfl, moved.trans exchange, fun i copied kept => ?_⟩
  have stop : Segment.stop ⟨t.start, k, false⟩ = t.start + k := rfl
  refine (keeps (data t.start + i) (Nat.le_add_right _ _) ?_).trans ?_
  · rw [stop]
    unfold data
    omega
  · have inside_move : data t.start ≤ data t.start + i ∧ data t.start + i < data t.start + n := by
      omega
    refine (move_inside h.memory inside_move).trans ?_
    rw [Nat.add_sub_cancel_left]

/-- The old bytes are copied to the new block, and the old block is freed. -/
theorem Divided.reallocEnd_fresh (d : Divided h segs) {rest : List Segment}
    (perm : (usedOf segs).Perm (t :: s :: rest)) (later : 0 < t.start) (later' : 0 < s.start)
    (bound : data t.start + n ≤ 8 * t.stop) :
    ∃ h' segs', reallocEnd ⟨data t.start, data s.start, n, true, s.start, k, k⟩ h =
        (some (data t.start), h') ∧
      Exchange h segs [t, s] [t] h' segs' ∧
      ∀ i < n, h'.memory.byte (data t.start + i) = h.memory.byte (data s.start + i) := by
  have inside : t ∈ usedOf segs := perm.symm.subset List.mem_cons_self
  have inside' : s ∈ usedOf segs :=
    perm.symm.subset (List.mem_cons_of_mem t List.mem_cons_self)
  have copied := d.store_exchange inside (Nat.ne_of_gt later)
    (@move_storesInto t n (data s.start) h.memory bound)
  obtain ⟨segs', freed⟩ := copied.divided.free_exchange inside' later'
  have swapped : Exchange { h with memory := move (data t.start) (data s.start) n h.memory } segs
      [t, s] [t] (freeCore (data s.start)
        { h with memory := move (data t.start) (data s.start) n h.memory }) segs' := by
    refine ⟨freed.divided, freed.numblocks, fun others perm' => ?_⟩
    obtain ⟨perm'', keeps⟩ :=
      freed.exchanged (t :: others) (perm'.trans (List.Perm.swap _ _ _))
    exact ⟨perm'', fun u member other => keeps u (List.mem_cons_of_mem t member) other⟩
  have unfolded : reallocEnd ⟨data t.start, data s.start, n, true, s.start, k, k⟩ h =
      (some (data t.start), freeCore (data s.start)
        { h with memory := move (data t.start) (data s.start) n h.memory }) :=
    congrArg (Prod.mk (some (data t.start))) (if_neg (Nat.lt_irrefl k))
  refine ⟨_, segs', unfolded, (copied.frame [s]).trans swapped, fun i inside_copy => ?_⟩
  obtain ⟨-, keeps⟩ := freed.exchanged (t :: rest) (perm.trans (List.Perm.swap _ _ _))
  refine (keeps t List.mem_cons_self (Nat.ne_of_gt later) _ (Nat.le_add_right _ i) (by omega)).trans
    ?_
  have inside_move : data t.start ≤ data t.start + i ∧ data t.start + i < data t.start + n := by
    omega
  refine (move_inside h.memory inside_move).trans ?_
  rw [Nat.add_sub_cancel_left]

end

end Esp8266.Umm
