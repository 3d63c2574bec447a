import Esp8266.Lib.Runs
import Esp8266.Umm.Realloc

/-!
# Users of the heap

A program that frees and writes what it holds, and no more, with interrupts that may use the heap
while `umm_realloc` copies. It sees objects: each has an address and bytes of its own, which stay as
they are until it writes them. Every block in use belongs to a pointer that the program holds or to
an interrupted call, and to one of them only.
-/
set_option autoImplicit false

namespace Esp8266.Umm
open Esp8266.Lib Esp8266.Lib.ByteMemory Esp8266.Lib.Word32 Esp8266.Source.UmmMalloc

/-! ## The program -/

/-- A pointer that the allocator has returned, and the size that was asked for. -/
structure Allocation where
  ptr : Nat
  size : Nat
  deriving DecidableEq, Repr

/-- A call of `umm_realloc` that was interrupted before its copy. -/
structure Suspended where
  rest : Copying
  oldSize : Nat
  size : Nat

/-- The heap, what the program holds, and the calls that have not returned, the last one first. -/
structure Client where
  heap : Heap
  live : List Allocation
  suspended : List Suspended

/-- What the program may do. A pointer is given by its place among those that it holds, and any
other place stands for the null pointer. -/
inductive Request where
  | malloc (size : Nat)
  | calloc (num itemSize : Nat)
  | free (i : Nat)
  | store (i offset : Nat) (byte : UInt8)
  | realloc (i size : Nat)
  | resume

inductive Reply where
  | pointer (ptr : Option Nat)
  | interrupted
  | nothing
  deriving DecidableEq, Repr

def hold (ptr : Option Nat) (size : Nat) (live : List Allocation) : List Allocation :=
  match ptr with
  | none => live
  | some ptr => ⟨ptr, size⟩ :: live

def setByte (a : Nat) (byte : UInt8) (m : Ram) : Ram where
  byte x := if x = a then byte else m.byte x

/-- What is held once `umm_realloc` has returned. -/
def holdInstead (i size : Nat) (ptr : Option Nat) (live : List Allocation) : List Allocation :=
  match ptr with
  | none => if size = 0 then live.eraseIdx i else live
  | some ptr => ⟨ptr, size⟩ :: live.eraseIdx i

def Request.serve (space : HeapSpace) : Request → Client → Reply × Client
  | .malloc size, c =>
    let (ptr, heap) := ummMalloc space size c.heap
    (.pointer ptr, { c with heap, live := hold ptr size c.live })
  | .calloc num itemSize, c =>
    let (ptr, heap) := ummCalloc space num itemSize c.heap
    (.pointer ptr, { c with heap, live := hold ptr (itemSize * num) c.live })
  | .free i, c =>
    let heap := ummFree space (c.live[i]?.map (·.ptr)) c.heap
    (.nothing, { c with heap, live := c.live.eraseIdx i })
  | .store i offset byte, c =>
    match c.live[i]? with
    | none => (.nothing, c)
    | some a =>
      if offset < a.size then
        (.nothing, { c with
          heap := { c.heap with memory := setByte (a.ptr + offset) byte c.heap.memory } })
      else (.nothing, c)
  | .realloc i size, c =>
    match ummReallocBegin space (c.live[i]?.map (·.ptr)) size c.heap with
    | (.done ptr, heap) =>
      (.pointer ptr, { c with heap, live := holdInstead i size ptr c.live })
    | (.copying rest, heap) =>
      (.interrupted, { heap, live := c.live.eraseIdx i, suspended :=
        ⟨rest, (c.live[i]?.map (·.size)).getD 0, size⟩ :: c.suspended })
  | .resume, c =>
    match c.suspended with
    | [] => (.nothing, c)
    | r :: suspended =>
      let (ptr, heap) := reallocEnd r.rest c.heap
      (.pointer ptr, { heap, live := hold ptr r.size c.live, suspended })

/-- No more bytes are asked for than the 16 bits of a number of blocks can count. -/
def Request.Sized : Request → Prop
  | .malloc size => size ≤ sizeLimit
  | .calloc num itemSize => itemSize * num ≤ sizeLimit
  | .realloc _ size => size ≤ sizeLimit
  | _ => True

instance (request : Request) : Decidable request.Sized :=
  match request with
  | .malloc size => inferInstanceAs (Decidable (size ≤ sizeLimit))
  | .calloc num itemSize => inferInstanceAs (Decidable (itemSize * num ≤ sizeLimit))
  | .realloc _ size => inferInstanceAs (Decidable (size ≤ sizeLimit))
  | .free _ => inferInstanceAs (Decidable True)
  | .store .. => inferInstanceAs (Decidable True)
  | .resume => inferInstanceAs (Decidable True)

/-! ## Objects -/

/-- What a pointer means to the program. -/
structure Object where
  ptr : Nat
  bytes : List UInt8

/-- The objects that are held, and those that are on the way to another size. -/
structure Objects where
  live : List Object
  moving : List (Object × Nat)

/-- The object has another size and maybe another address; the bytes that fit are the old ones. -/
structure Object.Resized (old : Object) (size : Nat) (new : Object) : Prop where
  length : new.bytes.length = size
  same : new.bytes.take old.bytes.length = old.bytes.take size

/-- What a heap may answer, and what becomes of the objects. -/
inductive Allowed : Request → Reply → Objects → Objects → Prop where
  | malloc {size : Nat} {new : Object} {o : Objects} (length : new.bytes.length = size) :
      Allowed (.malloc size) (.pointer (some new.ptr)) o { o with live := new :: o.live }
  | mallocNull {size : Nat} {o : Objects} : Allowed (.malloc size) (.pointer none) o o
  | calloc {num itemSize ptr : Nat} {o : Objects} :
      Allowed (.calloc num itemSize) (.pointer (some ptr)) o
        { o with live := ⟨ptr, List.replicate (itemSize * num) 0⟩ :: o.live }
  | callocNull {num itemSize : Nat} {o : Objects} :
      Allowed (.calloc num itemSize) (.pointer none) o o
  | free {i : Nat} {o : Objects} :
      Allowed (.free i) .nothing o { o with live := o.live.eraseIdx i }
  | store {i offset : Nat} {byte : UInt8} {old : Object} {o : Objects}
      (held : o.live[i]? = some old) :
      Allowed (.store i offset byte) .nothing o
        { o with live := o.live.set i { old with bytes := old.bytes.set offset byte } }
  | storeNull {i offset : Nat} {byte : UInt8} {o : Objects} (null : o.live.length ≤ i) :
      Allowed (.store i offset byte) .nothing o o
  | reallocNew {i size : Nat} {new : Object} {o : Objects} (null : o.live.length ≤ i)
      (length : new.bytes.length = size) :
      Allowed (.realloc i size) (.pointer (some new.ptr)) o { o with live := new :: o.live }
  | reallocNull {i size : Nat} {o : Objects} (real : size ≠ 0 ∨ o.live.length ≤ i) :
      Allowed (.realloc i size) (.pointer none) o o
  | reallocFree {i : Nat} {o : Objects} :
      Allowed (.realloc i 0) (.pointer none) o { o with live := o.live.eraseIdx i }
  | realloc {i size : Nat} {old new : Object} {o : Objects} (held : o.live[i]? = some old)
      (resized : old.Resized size new) :
      Allowed (.realloc i size) (.pointer (some new.ptr)) o
        { o with live := new :: o.live.eraseIdx i }
  | interrupted {i size : Nat} {old : Object} {o : Objects} (held : o.live[i]? = some old) :
      Allowed (.realloc i size) .interrupted o
        ⟨o.live.eraseIdx i, (old, size) :: o.moving⟩
  | resume {old new : Object} {size : Nat} {o : Objects} {moving : List (Object × Nat)}
      (first : o.moving = (old, size) :: moving) (resized : old.Resized size new) :
      Allowed .resume (.pointer (some new.ptr)) o ⟨new :: o.live, moving⟩
  | resumeNothing {o : Objects} (none : o.moving = []) : Allowed .resume .nothing o o

/-- Two objects have no byte in common. -/
def Object.Apart (a b : Object) : Prop :=
  a.ptr + a.bytes.length ≤ b.ptr ∨ b.ptr + b.bytes.length ≤ a.ptr

/-- All objects, in one list. -/
def Objects.all (o : Objects) : List Object := o.live ++ o.moving.map (·.1)

/-- The object of a pointer, as the memory has it. -/
def Allocation.object (m : Ram) (a : Allocation) : Object := ⟨a.ptr, slice m a.ptr a.size⟩

/-- The object that an interrupted call moves, where it was. -/
def Suspended.object (m : Ram) (r : Suspended) : Object :=
  ⟨r.rest.ptr, slice m r.rest.ptr r.oldSize⟩

def Client.objects (c : Client) : Objects where
  live := c.live.map (Allocation.object c.heap.memory)
  moving := c.suspended.map fun r => (r.object c.heap.memory, r.size)

/-! ## Whose the blocks are -/

/-- The blocks of a pointer. -/
def Allocation.segment (a : Allocation) : Segment := ⟨blockOf a.ptr, ummBlocks a.size, false⟩

/-- A pointer as the allocator returns it. -/
structure Allocation.Placed (a : Allocation) : Prop where
  later : 0 < blockOf a.ptr
  ptr_eq : a.ptr = data (blockOf a.ptr)
  limited : a.size ≤ sizeLimit

/-- The blocks of an interrupted call: the one around the old block, or the new one and the old
one. -/
inductive Pending : Suspended → List Segment → Prop where
  | down {t s : Segment} {oldSize size : Nat} (later : 0 < t.start) (used : t.free = false)
      (limited : size ≤ sizeLimit) (low : t.start ≤ s.start) (high : s.stop ≤ t.stop)
      (fits : ummBlocks size ≤ t.size) (held : oldSize + 4 ≤ 8 * s.size) :
      Pending ⟨⟨data t.start, data s.start, 8 * s.size - 4, false, t.start, t.size,
        ummBlocks size⟩, oldSize, size⟩ [t]
  | fresh {start : Nat} {s : Segment} {oldSize size : Nat} (later : 0 < start)
      (later' : 0 < s.start) (used : s.free = false) (limited : size ≤ sizeLimit)
      (larger : s.size < ummBlocks size) (held : oldSize + 4 ≤ 8 * s.size) :
      Pending ⟨⟨data start, data s.start, 8 * s.size - 4, true, s.start, ummBlocks size,
        ummBlocks size⟩, oldSize, size⟩ [⟨start, ummBlocks size, false⟩, s]

/-- The heap, and whose its blocks are. -/
structure Settled (space : HeapSpace) (c : Client) (segs : List Segment)
    (pending : List (List Segment)) : Prop where
  divided : Divided c.heap segs
  numblocks : c.heap.numblocks = space.size / 8
  placed : ∀ a ∈ c.live, a.Placed
  pends : List.Forall₂ Pending c.suspended pending
  used : (usedOf segs).Perm (root :: (c.live.map Allocation.segment ++ pending.flatten))

/-- Before the first call there is no heap, and nothing is held. -/
def Client.Sound (space : HeapSpace) (c : Client) : Prop :=
  (c.heap.ready = false ∧ c.live = [] ∧ c.suspended = []) ∨
    ∃ segs pending, Settled space c segs pending

/-! ## Objects that stay -/

section
variable {m m' : Ram} {a : Allocation} {r : Suspended} {parts : List Segment}

/-- The bytes of an object lie in its blocks. -/
theorem Allocation.Placed.bytes (placed : a.Placed) :
    data a.segment.start = a.ptr ∧ a.ptr + a.size ≤ 8 * a.segment.stop := by
  have fits := le_ummBlocks placed.limited
  have start : data a.segment.start = a.ptr := placed.ptr_eq.symm
  refine ⟨start, ?_⟩
  rw [← start]
  change data (blockOf a.ptr) + a.size ≤ 8 * (blockOf a.ptr + ummBlocks a.size)
  unfold data
  omega

theorem Allocation.Placed.object_eq (placed : a.Placed) (keeps : Keeps a.segment m m') :
    a.object m' = a.object m := by
  obtain ⟨start, stop⟩ := placed.bytes
  have same : slice m' a.ptr a.size = slice m a.ptr a.size :=
    slice_congr fun i inside => keeps _ (by omega) (by omega)
  rw [object, object, same]

theorem Pending.object_eq (pending : Pending r parts)
    (keeps : ∀ t ∈ parts, t.start ≠ 0 → Keeps t m m') : r.object m' = r.object m := by
  cases pending with
  | @down t s oldSize size later used limited low high fits held =>
    have kept := keeps t List.mem_cons_self (Nat.ne_of_gt later)
    have same : slice m' (data s.start) oldSize = slice m (data s.start) oldSize := by
      refine slice_congr fun i inside => (kept.mono low high) _ (Nat.le_add_right _ _) ?_
      unfold data Segment.stop
      omega
    exact congrArg (Object.mk _) same
  | @fresh start s oldSize size later later' used limited larger held =>
    have kept := keeps s (List.mem_cons_of_mem _ List.mem_cons_self) (Nat.ne_of_gt later')
    have same : slice m' (data s.start) oldSize = slice m (data s.start) oldSize := by
      refine slice_congr fun i inside => kept _ (Nat.le_add_right _ _) ?_
      unfold data Segment.stop
      omega
    exact congrArg (Object.mk _) same

theorem slice_setByte (ptr len offset : Nat) (byte : UInt8) :
    slice (setByte (ptr + offset) byte m) ptr len = (slice m ptr len).set offset byte := by
  refine List.ext_getElem (by simp) fun j bound bound' => ?_
  rw [List.getElem_set]
  by_cases here : offset = j
  · subst here
    simp [slice, setByte]
  · have other : ptr + j ≠ ptr + offset := by omega
    rw [if_neg here]
    simp [slice, setByte, Ne.symm here]

theorem live_eq {live : List Allocation} (placed : ∀ a ∈ live, a.Placed)
    (keeps : ∀ t ∈ live.map Allocation.segment, t.start ≠ 0 → Keeps t m m') :
    live.map (Allocation.object m') = live.map (Allocation.object m) := by
  refine List.map_congr_left fun a held => (placed a held).object_eq ?_
  exact keeps _ (List.mem_map_of_mem held) (Nat.ne_of_gt (placed a held).later)

theorem moving_eq {suspended : List Suspended} {pending : List (List Segment)}
    (pends : List.Forall₂ Pending suspended pending)
    (keeps : ∀ t ∈ pending.flatten, t.start ≠ 0 → Keeps t m m') :
    suspended.map (fun r => (r.object m', r.size)) =
      suspended.map (fun r => (r.object m, r.size)) := by
  induction pends with
  | nil => rfl
  | cons first _ ih =>
    rw [List.flatten_cons] at keeps
    rw [List.map_cons, List.map_cons,
      first.object_eq (fun t inside => keeps t (List.mem_append_left _ inside)),
      ih (fun t inside => keeps t (List.mem_append_right _ inside))]

end

/-! ## Exchanges -/

section
variable {space : HeapSpace} {c : Client} {h h' : Heap} {segs segs' old new rest : List Segment}
  {pending others parts : List (List Segment)} {a : Allocation} {start size i : Nat}

theorem Exchange.new_small (exchange : Exchange h segs old new h' segs')
    (before : (usedOf segs).Perm (old ++ rest)) {t : Segment} (member : t ∈ new) :
    t.start < 2 ^ 15 := by
  obtain ⟨perm, -⟩ := exchange.exchanged rest before
  obtain ⟨inside, -⟩ := mem_usedOf.1 (perm.symm.subset (List.mem_append_left rest member))
  exact Nat.lt_trans (exchange.divided.headers.start_lt inside) exchange.divided.headers.small

theorem segment_data (small : start < 2 ^ 15) :
    Allocation.segment ⟨data start, size⟩ = ⟨start, ummBlocks size, false⟩ := by
  change (⟨blockOf (data start), ummBlocks size, false⟩ : Segment) = _
  rw [blockOf_data small]

theorem placed_data (small : start < 2 ^ 15) (later : 0 < start) (limited : size ≤ sizeLimit) :
    Allocation.Placed ⟨data start, size⟩ := by
  have block : blockOf (data start) = start := blockOf_data small
  exact ⟨block.symm ▸ later, congrArg data block.symm, limited⟩

namespace Settled

/-- Blocks are exchanged, and with them what the program holds. -/
theorem exchange (settled : Settled space c segs pending) {live fresh : List Allocation}
    {suspended moved : List Suspended} (exchanged : Exchange c.heap segs old new h' segs')
    (before : (c.live.map Allocation.segment ++ pending.flatten).Perm
      (old ++ (live.map Allocation.segment ++ others.flatten)))
    (held : ∀ a ∈ live, a ∈ c.live) (pends : List.Forall₂ Pending suspended others)
    (placed : ∀ a ∈ fresh, a.Placed) (pends' : List.Forall₂ Pending moved parts)
    (after : (fresh.map Allocation.segment ++ parts.flatten).Perm new) :
    Settled space ⟨h', fresh ++ live, moved ++ suspended⟩ segs' (parts ++ others) ∧
      live.map (Allocation.object h'.memory) = live.map (Allocation.object c.heap.memory) ∧
      suspended.map (fun r => (r.object h'.memory, r.size)) =
        suspended.map (fun r => (r.object c.heap.memory, r.size)) := by
  have old_placed : ∀ a ∈ live, a.Placed := fun a member => settled.placed a (held a member)
  obtain ⟨perm, keeps⟩ := exchanged.exchanged
    (root :: (live.map Allocation.segment ++ others.flatten))
    (settled.used.trans ((before.cons root).trans List.perm_middle.symm))
  refine ⟨⟨exchanged.divided, exchanged.numblocks.trans settled.numblocks, fun a member => ?_,
    List.rel_append pends' pends, ?_⟩, live_eq old_placed fun t member => ?_,
    moving_eq pends fun t member => ?_⟩
  · rcases List.mem_append.1 member with first | kept
    · exact placed a first
    · exact old_placed a kept
  · refine perm.trans (List.perm_middle.trans (List.Perm.cons root ?_))
    rw [List.map_append, List.flatten_append]
    refine (after.symm.append_right _).trans ?_
    rw [List.append_assoc, List.append_assoc]
    refine List.Perm.append_left _ ?_
    rw [← List.append_assoc, ← List.append_assoc]
    exact List.perm_append_comm.append_right _
  · exact keeps t (List.mem_cons_of_mem root (List.mem_append_left _ member))
  · exact keeps t (List.mem_cons_of_mem root (List.mem_append_right _ member))

/-- What is held is in use. -/
theorem segment_used (settled : Settled space c segs pending) (held : a ∈ c.live) :
    a.segment ∈ usedOf segs :=
  settled.used.symm.subset (List.mem_cons_of_mem root
    (List.mem_append_left _ (List.mem_map_of_mem held)))

/-- One of the pointers, apart from the others. -/
theorem apart (held : c.live[i]? = some a) :
    (c.live.map Allocation.segment ++ pending.flatten).Perm
      ([a.segment] ++ ((c.live.eraseIdx i).map Allocation.segment ++ pending.flatten)) := by
  obtain ⟨bound, rfl⟩ := List.getElem?_eq_some_iff.1 held
  have first := ((List.getElem_cons_eraseIdx_perm bound).symm.map Allocation.segment)
  exact first.append_right pending.flatten

end Settled

end

/-! ## Requests -/

section
variable {space : HeapSpace} {c : Client} {h' : Heap} {segs segs' old : List Segment}
  {pending : List (List Segment)} {a : Allocation} {start size i : Nat}

theorem resized {m m' : Ram} {ptr ptr' oldSize : Nat}
    (same : ∀ j, j < oldSize → j < size → m'.byte (ptr' + j) = m.byte (ptr + j)) :
    Object.Resized ⟨ptr, slice m ptr oldSize⟩ size ⟨ptr', slice m' ptr' size⟩ := by
  refine ⟨length_slice _ _ _, ?_⟩
  change (slice m' ptr' size).take (slice m ptr oldSize).length = (slice m ptr oldSize).take size
  rw [length_slice, take_slice, take_slice, Nat.min_comm]
  exact slice_congr fun j inside => same j (by omega) (by omega)

theorem allowed_free {reply : Reply} {o o' : Objects} (allowed : Allowed (.free i) reply o o') :
    reply = .nothing ∧ o' = { o with live := o.live.eraseIdx i } := by
  cases allowed
  exact ⟨rfl, rfl⟩

/-- The object of an interrupted call is still the old one. -/
theorem interrupted_objects {rest : Copying} (placed : a.Placed) (ptr : rest.ptr = a.ptr)
    (keeps : Keeps a.segment c.heap.memory h'.memory)
    (live_same : (c.live.eraseIdx i).map (Allocation.object h'.memory) =
      (c.live.eraseIdx i).map (Allocation.object c.heap.memory))
    (moving_same : c.suspended.map (fun r => (r.object h'.memory, r.size)) =
      c.suspended.map (fun r => (r.object c.heap.memory, r.size))) :
    Client.objects ⟨h', c.live.eraseIdx i, ⟨rest, a.size, size⟩ :: c.suspended⟩ =
      ⟨c.objects.live.eraseIdx i, (a.object c.heap.memory, size) :: c.objects.moving⟩ := by
  have object_eq : Suspended.object h'.memory ⟨rest, a.size, size⟩ = a.object c.heap.memory := by
    rw [← placed.object_eq keeps, Suspended.object, ptr]
    rfl
  have live_eq : (c.live.eraseIdx i).map (Allocation.object h'.memory) =
      c.objects.live.eraseIdx i := live_same.trans (List.eraseIdx_map _ _ _).symm
  have moving_eq : (Suspended.object h'.memory ⟨rest, a.size, size⟩, size) ::
      c.suspended.map (fun r => (r.object h'.memory, r.size)) =
        (a.object c.heap.memory, size) :: c.objects.moving := by
    rw [object_eq, moving_same]
    rfl
  exact congrArg₂ Objects.mk live_eq moving_eq

/-- What a request may answer and leave. -/
def Serves (space : HeapSpace) (request : Request) (c : Client) (reply : Reply) (c' : Client) :
    Prop :=
  Allowed request reply c.objects c'.objects ∧ ∃ segs pending, Settled space c' segs pending

namespace Settled

theorem ensured (settled : Settled space c segs pending) : ensure space c.heap = c.heap :=
  if_pos settled.divided.ready

/-- A call that changes no more than the number of failures. -/
theorem failed (settled : Settled space c segs pending) (oomCount : Nat) :
    Settled space { c with heap := { c.heap with oomCount } } segs pending := by
  obtain ⟨divided, numblocks, placed, pends, used⟩ := settled
  exact ⟨⟨divided.ready, divided.blocks_pos, divided.shape, divided.coalesced, divided.counted⟩,
    numblocks, placed, pends, used⟩

/-- A new pointer, for blocks that were free or held before. -/
theorem put (settled : Settled space c segs pending) {live : List Allocation}
    {suspended : List Suspended} {others : List (List Segment)} (limited : size ≤ sizeLimit)
    (later : 0 < start)
    (exchanged : Exchange c.heap segs old [⟨start, ummBlocks size, false⟩] h' segs')
    (before : (c.live.map Allocation.segment ++ pending.flatten).Perm
      (old ++ (live.map Allocation.segment ++ others.flatten)))
    (held : ∀ a ∈ live, a ∈ c.live) (pends : List.Forall₂ Pending suspended others) :
    Settled space ⟨h', ⟨data start, size⟩ :: live, suspended⟩ segs' others ∧
      Client.objects ⟨h', ⟨data start, size⟩ :: live, suspended⟩ =
        ⟨Allocation.object h'.memory ⟨data start, size⟩ ::
          live.map (Allocation.object c.heap.memory),
          suspended.map fun r => (r.object c.heap.memory, r.size)⟩ := by
  have small := exchanged.new_small
    (settled.used.trans ((before.cons root).trans List.perm_middle.symm)) List.mem_cons_self
  obtain ⟨settled', live_same, moving_same⟩ := settled.exchange exchanged before held pends
    (fun a member => (List.mem_singleton.1 member).symm ▸ placed_data small later limited) .nil
    (List.Perm.of_eq (congrArg (fun s => [s]) (segment_data small)))
  exact ⟨settled', congrArg₂ (fun x y => Objects.mk (_ :: x) y) live_same moving_same⟩

/-- The bytes of an object are written. -/
theorem write (settled : Settled space c segs pending) (held : c.live[i]? = some a) {m' : Ram}
    (stores : StoresInto a.segment c.heap.memory m') :
    Settled space { c with heap := { c.heap with memory := m' } } segs pending ∧
      Client.objects { c with heap := { c.heap with memory := m' } } =
        { c.objects with live := c.objects.live.set i (a.object m') } := by
  have member : a ∈ c.live := List.mem_of_getElem? held
  have placed := settled.placed a member
  have exchanged := settled.divided.store_exchange (settled.segment_used member)
    (Nat.ne_of_gt placed.later) stores
  obtain ⟨-, live_same, moving_same⟩ := settled.exchange exchanged (apart held)
    (fun b => List.mem_of_mem_eraseIdx) settled.pends
    (fun b same => (List.mem_singleton.1 same).symm ▸ placed) .nil (List.Perm.refl _)
  refine ⟨⟨exchanged.divided, settled.numblocks, settled.placed, settled.pends, settled.used⟩, ?_⟩
  refine congrArg₂ Objects.mk (List.ext_getElem? fun j => ?_) moving_same
  change (c.live.map (Allocation.object m'))[j]? =
    ((c.live.map (Allocation.object c.heap.memory)).set i (a.object m'))[j]?
  obtain ⟨bound, -⟩ := List.getElem?_eq_some_iff.1 held
  rw [List.getElem?_set, List.length_map, if_pos bound, List.getElem?_map]
  by_cases here : i = j
  · rw [if_pos here, ← here, held]
    rfl
  · rw [if_neg here, List.getElem?_map]
    cases other : c.live[j]? with
    | none => rfl
    | some b =>
      have kept : b ∈ c.live.eraseIdx i :=
        List.mem_eraseIdx_iff_getElem?.2 ⟨j, fun same => here same.symm, other⟩
      exact congrArg some (List.map_inj_left.1 live_same b kept)

/-- `umm_malloc` fails, or exchanges nothing for a block. -/
theorem ummMalloc_spec (settled : Settled space c segs pending) (limited : size ≤ sizeLimit) :
    (∃ oomCount, ummMalloc space size c.heap = (none, { c.heap with oomCount })) ∨
      ∃ start h' segs', ummMalloc space size c.heap = (some (data start), h') ∧ 0 < start ∧
        Exchange c.heap segs [] [⟨start, ummBlocks size, false⟩] h' segs' := by
  rw [ummMalloc, settled.ensured]
  by_cases zero : size = 0
  · exact .inl ⟨c.heap.oomCount, if_pos zero⟩
  · rw [if_neg zero]
    rcases settled.divided.malloc_exchange (ummBlocks_pos limited) with
      ⟨result, -⟩ | ⟨s, h', segs', -, later, result, exchanged⟩
    · exact .inl ⟨_, result⟩
    · exact .inr ⟨s.start, h', segs', result, later, exchanged⟩

theorem malloc (settled : Settled space c segs pending) (limited : size ≤ sizeLimit) :
    Serves space (.malloc size) c ((Request.malloc size).serve space c).1
      ((Request.malloc size).serve space c).2 := by
  rcases settled.ummMalloc_spec limited with ⟨oomCount, result⟩ | ⟨start, h', segs', result,
    later, exchanged⟩
  · simp only [Request.serve, result, hold]
    exact ⟨.mallocNull, segs, pending, settled.failed oomCount⟩
  · simp only [Request.serve, result, hold]
    obtain ⟨settled', objects⟩ := settled.put limited later exchanged (List.Perm.refl _)
      (fun a held => held) settled.pends
    refine ⟨?_, segs', pending, settled'⟩
    rw [objects]
    exact @Allowed.malloc size (Allocation.object h'.memory ⟨data start, size⟩) c.objects
      (length_slice _ _ _)

theorem calloc (settled : Settled space c segs pending) {num itemSize : Nat}
    (limited : itemSize * num ≤ sizeLimit) :
    Serves space (.calloc num itemSize) c ((Request.calloc num itemSize).serve space c).1
      ((Request.calloc num itemSize).serve space c).2 := by
  have whole : itemSize * num % 2 ^ 32 = itemSize * num := by
    unfold sizeLimit at limited
    exact Nat.mod_eq_of_lt (by omega)
  rcases settled.ummMalloc_spec limited with ⟨oomCount, result⟩ | ⟨start, h', segs', result,
    later, exchanged⟩
  · simp only [Request.serve, ummCalloc, whole, result, hold]
    exact ⟨.callocNull, segs, pending, settled.failed oomCount⟩
  · simp only [Request.serve, ummCalloc, whole, result, hold]
    obtain ⟨settled', objects⟩ := settled.put limited later exchanged (List.Perm.refl _)
      (fun a held => held) settled.pends
    obtain ⟨base, stop⟩ := (settled'.placed _ List.mem_cons_self).bytes
    have stores : StoresInto (Allocation.segment ⟨data start, itemSize * num⟩) h'.memory
        (fill (data start) (itemSize * num) 0 h'.memory) :=
      fun x outside => fill_outside 0 _ (by dsimp only at *; omega)
    obtain ⟨settled'', objects'⟩ := @write space _ segs' pending _ 0 settled' rfl _ stores
    refine ⟨?_, segs', pending, settled''⟩
    rw [objects', objects]
    have bytes : Allocation.object (fill (data start) (itemSize * num) 0 h'.memory)
        ⟨data start, itemSize * num⟩ = ⟨data start, List.replicate (itemSize * num) 0⟩ :=
      congrArg (Object.mk _) (slice_fill _ _ _)
    rw [bytes]
    exact .calloc

theorem free (settled : Settled space c segs pending) (i : Nat) :
    Serves space (.free i) c ((Request.free i).serve space c).1
      ((Request.free i).serve space c).2 := by
  have erased : c.objects.live.eraseIdx i =
      (c.live.eraseIdx i).map (Allocation.object c.heap.memory) := List.eraseIdx_map _ _ _
  have allowed := @Allowed.free i c.objects
  rw [erased] at allowed
  cases held : c.live[i]? with
  | none =>
    have same : c.live.eraseIdx i = c.live :=
      List.eraseIdx_of_length_le (List.getElem?_eq_none_iff.1 held)
    simp only [Request.serve, held, Option.map_none, ummFree, settled.ensured, same]
    rw [same] at allowed
    exact ⟨allowed, segs, pending, settled⟩
  | some a =>
    have member : a ∈ c.live := List.mem_of_getElem? held
    have placed := settled.placed a member
    obtain ⟨segs', exchanged⟩ :=
      settled.divided.free_exchange (settled.segment_used member) placed.later
    obtain ⟨settled', live_same, moving_same⟩ := settled.exchange exchanged (apart held)
      (fun b => List.mem_of_mem_eraseIdx) settled.pends
      (fun b none => absurd none List.not_mem_nil) .nil (List.Perm.refl _)
    have start : data a.segment.start = a.ptr := placed.bytes.1
    rw [start] at settled' live_same moving_same
    simp only [Request.serve, held, Option.map_some, ummFree, settled.ensured]
    refine ⟨?_, segs', pending, settled'⟩
    rw [← live_same] at allowed
    unfold Client.objects at allowed ⊢
    rw [moving_same]
    exact allowed

theorem store (settled : Settled space c segs pending) (i offset : Nat) (byte : UInt8) :
    Serves space (.store i offset byte) c ((Request.store i offset byte).serve space c).1
      ((Request.store i offset byte).serve space c).2 := by
  cases held : c.live[i]? with
  | none =>
    simp only [Request.serve, held]
    refine ⟨.storeNull ?_, segs, pending, settled⟩
    exact (List.length_map _).trans_le (List.getElem?_eq_none_iff.1 held)
  | some a =>
    have placed := settled.placed a (List.mem_of_getElem? held)
    obtain ⟨start, stop⟩ := placed.bytes
    have object_held : c.objects.live[i]? = some (a.object c.heap.memory) := by
      change (c.live.map _)[i]? = _
      rw [List.getElem?_map, held]
      rfl
    have allowed := @Allowed.store i offset byte _ c.objects object_held
    by_cases inside : offset < a.size
    · simp only [Request.serve, held, if_pos inside]
      have stores : StoresInto a.segment c.heap.memory
          (setByte (a.ptr + offset) byte c.heap.memory) :=
        fun x outside => if_neg (by omega)
      obtain ⟨settled', objects⟩ := settled.write held stores
      refine ⟨?_, segs, pending, settled'⟩
      rw [objects]
      have bytes : slice (setByte (a.ptr + offset) byte c.heap.memory) a.ptr a.size =
          (slice c.heap.memory a.ptr a.size).set offset byte :=
        slice_setByte _ _ _ _
      rw [Allocation.object, bytes]
      exact allowed
    · simp only [Request.serve, held, if_neg inside]
      refine ⟨?_, segs, pending, settled⟩
      have unchanged : (slice c.heap.memory a.ptr a.size).set offset byte =
          slice c.heap.memory a.ptr a.size :=
        List.set_eq_of_length_le ((length_slice _ _ _).trans_le (Nat.le_of_not_lt inside))
      obtain ⟨bound, here⟩ := List.getElem?_eq_some_iff.1 object_held
      have same : c.objects.live.set i (a.object c.heap.memory) = c.objects.live := by
        rw [← here, List.set_getElem_self]
      change Allowed _ _ _ (Objects.mk (c.objects.live.set i
        ⟨a.ptr, (slice c.heap.memory a.ptr a.size).set offset byte⟩) c.objects.moving) at allowed
      rw [unchanged] at allowed
      change Allowed _ _ _ (Objects.mk (c.objects.live.set i (a.object c.heap.memory))
        c.objects.moving) at allowed
      rw [same] at allowed
      exact allowed

theorem realloc (settled : Settled space c segs pending) (i : Nat) (limited : size ≤ sizeLimit) :
    Serves space (.realloc i size) c ((Request.realloc i size).serve space c).1
      ((Request.realloc i size).serve space c).2 := by
  cases held : c.live[i]? with
  | none =>
    have past := List.getElem?_eq_none_iff.1 held
    have null : c.objects.live.length ≤ i := (List.length_map _).trans_le past
    have same : c.live.eraseIdx i = c.live := List.eraseIdx_of_length_le past
    rcases settled.ummMalloc_spec limited with ⟨oomCount, result⟩ | ⟨start, h', segs', result,
      later, exchanged⟩
    · simp only [Request.serve, held, Option.map_none, ummReallocBegin, settled.ensured, result,
        holdInstead, same, ite_self]
      exact ⟨.reallocNull (.inr null), segs, pending, settled.failed oomCount⟩
    · simp only [Request.serve, held, Option.map_none, ummReallocBegin, settled.ensured, result,
        holdInstead, same]
      obtain ⟨settled', objects⟩ := settled.put limited later exchanged (List.Perm.refl _)
        (fun a member => member) settled.pends
      refine ⟨?_, segs', pending, settled'⟩
      rw [objects]
      exact @Allowed.reallocNew i size (Allocation.object h'.memory ⟨data start, size⟩) c.objects
        null (length_slice _ _ _)
  | some a =>
    have member := List.mem_of_getElem? held
    have placed := settled.placed a member
    have base : data a.segment.start = a.ptr := placed.bytes.1
    have object_held : c.objects.live[i]? = some (a.object c.heap.memory) := by
      change (c.live.map _)[i]? = _
      rw [List.getElem?_map, held]
      rfl
    have erased : c.objects.live.eraseIdx i =
        (c.live.eraseIdx i).map (Allocation.object c.heap.memory) := List.eraseIdx_map _ _ _
    by_cases zero : size = 0
    · subst zero
      obtain ⟨allowed, sound⟩ := settled.free i
      simp only [Request.serve, held, Option.map_some] at allowed sound
      simp only [Request.serve, held, Option.map_some, ummReallocBegin, settled.ensured, if_true,
        holdInstead]
      refine ⟨?_, sound⟩
      rw [(allowed_free allowed).2]
      exact .reallocFree
    · have inside := settled.segment_used member
      have later : 0 < a.segment.start := placed.later
      have result := settled.divided.reallocBegin inside later (ummBlocks_pos limited)
      rw [base] at result
      have old_fits : a.size + 4 ≤ 8 * a.segment.size := le_ummBlocks placed.limited
      have new_fits := le_ummBlocks limited
      have start_eq : data a.segment.start = 8 * a.segment.start + 4 := rfl
      have stop_eq : a.segment.stop = a.segment.start + a.segment.size := rfl
      simp only [Request.serve, held, Option.map_some, Option.getD_some, ummReallocBegin,
        settled.ensured, if_neg zero]
      generalize reallocBegin a.ptr size c.heap = answer at result
      cases result with
      | @inPlace h' segs' exchanged keeps =>
        obtain ⟨settled', objects⟩ := settled.put limited later exchanged (apart held)
          (fun b => List.mem_of_mem_eraseIdx) settled.pends
        refine ⟨?_, segs', pending, settled'⟩
        dsimp only [holdInstead]
        rw [objects, ← erased]
        refine @Allowed.realloc i size _ (Allocation.object h'.memory ⟨_, size⟩) c.objects
          object_held (resized fun j before after => ?_)
        change h'.memory.byte (data a.segment.start + j) = _
        rw [base]
        refine keeps _ ?_ ?_
        · change data a.segment.start ≤ a.ptr + j
          omega
        · change a.ptr + j < 8 * (a.segment.start + min a.segment.size (ummBlocks size))
          omega
      | @failed oomCount full =>
        simp only [holdInstead, if_neg zero]
        exact ⟨.reallocNull (.inl zero), segs, pending, settled.failed oomCount⟩
      | @down h' segs' t later' exchanged used low high fits keeps =>
        obtain ⟨settled', live_same, moving_same⟩ := settled.exchange exchanged (apart held)
          (fun b => List.mem_of_mem_eraseIdx) settled.pends
          (fun b none => absurd none List.not_mem_nil)
          (.cons (.down later' used limited low high fits old_fits) .nil) (List.Perm.refl _)
        refine ⟨?_, segs', _, settled'⟩
        dsimp only
        rw [interrupted_objects placed ?_ keeps live_same moving_same]
        · exact .interrupted object_held
        · exact base
      | @fresh h' segs' start later' exchanged larger =>
        obtain ⟨settled', live_same, moving_same⟩ := settled.exchange
          (exchanged.frame [a.segment]) (apart held) (fun b => List.mem_of_mem_eraseIdx)
          settled.pends (fun b none => absurd none List.not_mem_nil)
          (.cons (.fresh later' later rfl limited larger old_fits) .nil) (List.Perm.refl _)
        obtain ⟨rest, split⟩ := usedOf_split inside
        have keeps : Keeps a.segment c.heap.memory h'.memory :=
          (exchanged.exchanged _ split).2 _ List.mem_cons_self (Nat.ne_of_gt later)
        refine ⟨?_, segs', _, settled'⟩
        dsimp only
        rw [interrupted_objects placed ?_ keeps live_same moving_same]
        · exact .interrupted object_held
        · exact base

/-- The copy of the call that was interrupted last, and the rest of it. -/
theorem resume (settled : Settled space c segs pending) :
    Serves space .resume c (Request.resume.serve space c).1 (Request.resume.serve space c).2 := by
  obtain ⟨heap, live, suspended⟩ := c
  cases suspended with
  | nil => exact ⟨.resumeNothing rfl, segs, pending, settled⟩
  | cons r suspended =>
    have divided : Divided heap segs := settled.divided
    have used := settled.used
    obtain ⟨parts, others, first, pends, rfl⟩ :
        ∃ parts others, Pending r parts ∧ List.Forall₂ Pending suspended others ∧
          pending = parts :: others := by
      cases settled.pends with
      | @cons _ parts _ others first pends => exact ⟨parts, others, first, pends, rfl⟩
    have before : (live.map Allocation.segment ++ (parts :: others).flatten).Perm
        (parts ++ (live.map Allocation.segment ++ others.flatten)) := by
      rw [List.flatten_cons]
      exact List.perm_append_comm_assoc _ _ _
    have split : (usedOf segs).Perm
        (parts ++ (root :: (live.map Allocation.segment ++ others.flatten))) :=
      used.trans ((before.cons root).trans List.perm_middle.symm)
    cases first with
    | @down t s oldSize size later free limited low high fits held =>
      have new_fits := le_ummBlocks limited
      have inside : t ∈ usedOf segs := split.symm.subset List.mem_cons_self
      have bound : data t.start + (8 * s.size - 4) ≤ 8 * t.stop := by
        unfold Segment.stop data at *
        omega
      obtain ⟨h', segs', result, exchanged, bytes⟩ := @Divided.reallocEnd_down _ _ t _ _
        (data s.start) divided inside later (ummBlocks_pos limited) fits bound
      obtain ⟨settled', objects⟩ := settled.put limited later exchanged before
        (fun b member => member) pends
      simp only [Request.serve, result, hold]
      refine ⟨?_, segs', others, settled'⟩
      rw [objects]
      refine @Allowed.resume _ (Allocation.object h'.memory ⟨data t.start, size⟩) size _ _ rfl
        (resized fun j before after => bytes j ?_ (by omega))
      exact Nat.lt_of_lt_of_le before (by dsimp only; omega)
    | @fresh start s oldSize size later later' free limited larger held =>
      have new_fits := le_ummBlocks limited
      have bound : data start + (8 * s.size - 4) ≤
          8 * Segment.stop ⟨start, ummBlocks size, false⟩ := by
        change 8 * start + 4 + (8 * s.size - 4) ≤ 8 * (start + ummBlocks size)
        omega
      obtain ⟨h', segs', result, exchanged, bytes⟩ :=
        @Divided.reallocEnd_fresh _ _ s ⟨start, ummBlocks size, false⟩ (ummBlocks size) _ divided
          _ split later later' bound
      obtain ⟨settled', objects⟩ := settled.put limited later exchanged before
        (fun b member => member) pends
      simp only [Request.serve, result, hold]
      refine ⟨?_, segs', others, settled'⟩
      rw [objects]
      refine @Allowed.resume _ (Allocation.object h'.memory ⟨data start, size⟩) size _ _ rfl
        (resized fun j before after => bytes j ?_)
      exact Nat.lt_of_lt_of_le before (by dsimp only; omega)

end Settled

end

end Esp8266.Umm
