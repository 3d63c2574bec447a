import Esp8266.Umm.Clients

/-!
# The heap keeps the objects of a program

Over every run of `malloc`, `calloc`, `realloc`, `free` and stores, with interrupts that use the
heap between the two halves of `umm_realloc`: each object keeps its bytes until the program writes
or frees it, and no two objects overlap.
-/
set_option autoImplicit false

namespace Esp8266.Umm
open Esp8266.Lib Esp8266.Lib.ByteMemory Esp8266.Lib.Runs Esp8266.Source.UmmMalloc

/-! ## Any reachable heap -/

section
variable {space : HeapSpace} {c : Client}

theorem ensure_ensure (space : HeapSpace) (h : Heap) :
    ensure space (ensure space h) = ensure space h := by
  cases ready : h.ready with
  | true =>
    have same : ensure space h = h := if_pos ready
    rw [same, same]
  | false =>
    have init : ensure space h = ummInit space h := if_neg (ready ▸ Bool.false_ne_true)
    rw [init]
    exact if_pos rfl

/-- The first call makes the heap. -/
theorem Client.Sound.ensured (sound : c.Sound space) :
    ∃ segs pending, Settled space { c with heap := ensure space c.heap } segs pending ∧
      Client.objects { c with heap := ensure space c.heap } = c.objects := by
  obtain ⟨heap, live, suspended⟩ := c
  rcases sound with ⟨fresh, rfl, rfl⟩ | ⟨segs, pending, settled⟩
  · have init : ensure space heap = ummInit space heap := if_neg (fresh ▸ Bool.false_ne_true)
    refine ⟨initial (space.size / 8), [], ⟨?_, ?_, ?_, .nil, ?_⟩, rfl⟩
    · exact init ▸ divided_init space heap
    · exact init ▸ rfl
    · intro a held
      exact absurd held List.not_mem_nil
    · exact List.Perm.refl [root]
  · have same : ensure space heap = heap := settled.ensured
    rw [same]
    exact ⟨segs, pending, settled, rfl⟩

theorem serve_ensured (request : Request) (client : Client) (calls : ∀ i offset byte,
    request ≠ .store i offset byte) (calls' : request ≠ .resume) :
    request.serve space { client with heap := ensure space client.heap } =
      request.serve space client := by
  cases request with
  | malloc size => simp only [Request.serve, ummMalloc, ensure_ensure]
  | calloc num itemSize => simp only [Request.serve, ummCalloc, ummMalloc, ensure_ensure]
  | free i => simp only [Request.serve, ummFree, ensure_ensure]
  | store i offset byte => exact absurd rfl (calls i offset byte)
  | realloc i size =>
    simp only [Request.serve, ummReallocBegin, ummMalloc, ummFree, ensure_ensure]
  | resume => exact absurd rfl calls'

theorem Settled.serve {segs : List Segment} {pending : List (List Segment)}
    (settled : Settled space c segs pending) {request : Request} (sized : request.Sized) :
    Serves space request c (request.serve space c).1 (request.serve space c).2 := by
  cases request with
  | malloc size => exact settled.malloc sized
  | calloc num itemSize => exact settled.calloc sized
  | free i => exact settled.free i
  | store i offset byte => exact settled.store i offset byte
  | realloc i size => exact settled.realloc i sized
  | resume => exact settled.resume

/-- One request. -/
theorem Client.Sound.serve (sound : c.Sound space) {request : Request} (sized : request.Sized) :
    Allowed request (request.serve space c).1 c.objects (request.serve space c).2.objects ∧
      (request.serve space c).2.Sound space := by
  obtain ⟨segs, pending, settled, objects⟩ := sound.ensured
  have call : (∀ i offset byte, request ≠ .store i offset byte) → request ≠ .resume →
      Allowed request (request.serve space c).1 c.objects (request.serve space c).2.objects ∧
        (request.serve space c).2.Sound space := by
    intro calls calls'
    obtain ⟨allowed, sound'⟩ := settled.serve sized
    rw [serve_ensured request c calls calls', objects] at allowed
    rw [serve_ensured request c calls calls'] at sound'
    exact ⟨allowed, .inr sound'⟩
  rcases sound with ⟨fresh, none, none'⟩ | ⟨segs, pending, settled⟩
  · obtain ⟨heap, live, suspended⟩ := c
    obtain rfl : live = [] := none
    obtain rfl : suspended = [] := none'
    cases request with
    | malloc size => exact call (fun _ _ _ => nofun) nofun
    | calloc num itemSize => exact call (fun _ _ _ => nofun) nofun
    | free i => exact call (fun _ _ _ => nofun) nofun
    | store i offset byte =>
      exact ⟨.storeNull (Nat.zero_le i), .inl ⟨fresh, rfl, rfl⟩⟩
    | realloc i size => exact call (fun _ _ _ => nofun) nofun
    | resume => exact ⟨.resumeNothing rfl, .inl ⟨fresh, rfl, rfl⟩⟩
  · obtain ⟨allowed, sound'⟩ := settled.serve sized
    exact ⟨allowed, .inr sound'⟩

end

/-! ## Objects are apart -/

/-- The bytes of an object lie in a block. -/
def Object.Within (o : Object) (s : Segment) : Prop :=
  data s.start ≤ o.ptr ∧ o.ptr + o.bytes.length ≤ 8 * s.stop

theorem Pending.home {r : Suspended} {parts : List Segment} (pending : Pending r parts)
    (m : Ram) : ∃ s, [s].Sublist parts ∧ (r.object m).Within s := by
  cases pending with
  | @down t s oldSize size later used limited low high fits held =>
    refine ⟨t, List.Sublist.refl _, ?_, ?_⟩
    · change data t.start ≤ data s.start
      unfold data
      omega
    · rw [Suspended.object, length_slice]
      unfold data Segment.stop at *
      dsimp only
      omega
  | @fresh start s oldSize size later later' used limited larger held =>
    refine ⟨s, List.sublist_cons_self _ _, Nat.le_refl _, ?_⟩
    rw [Suspended.object, length_slice]
    unfold data Segment.stop
    dsimp only
    omega

theorem homes_of_pending {suspended : List Suspended} {pending : List (List Segment)}
    (pends : List.Forall₂ Pending suspended pending) (m : Ram) :
    ∃ homes, homes.Sublist pending.flatten ∧
      List.Forall₂ Object.Within (suspended.map (Suspended.object m)) homes := by
  induction pends with
  | nil => exact ⟨[], List.Sublist.refl _, .nil⟩
  | cons first _ ih =>
    obtain ⟨s, part, within⟩ := first.home m
    obtain ⟨homes, sublist, others⟩ := ih
    exact ⟨s :: homes, List.flatten_cons ▸ part.append sublist, .cons within others⟩

theorem homes_of_live {live : List Allocation} (placed : ∀ a ∈ live, a.Placed) (m : Ram) :
    List.Forall₂ Object.Within (live.map (Allocation.object m)) (live.map Allocation.segment) := by
  rw [List.forall₂_map_left_iff, List.forall₂_map_right_iff, List.forall₂_same]
  intro a held
  obtain ⟨start, stop⟩ := (placed a held).bytes
  refine ⟨Nat.le_of_eq start, ?_⟩
  rw [Allocation.object, length_slice]
  exact stop

/-- Every object lies in a block of its own. -/
theorem Settled.homes {space : HeapSpace} {c : Client} {segs : List Segment}
    {pending : List (List Segment)} (settled : Settled space c segs pending) :
    ∃ homes, List.Forall₂ Object.Within c.objects.all homes ∧ (root :: homes).Nodup ∧
      ∀ s ∈ homes, s ∈ segs := by
  obtain ⟨parked, sublist, moving⟩ := homes_of_pending settled.pends c.heap.memory
  have part : (root :: (c.live.map Allocation.segment ++ parked)).Sublist
      (root :: (c.live.map Allocation.segment ++ pending.flatten)) :=
    (sublist.append_left _).cons_cons root
  have nodup : (usedOf segs).Nodup := settled.divided.headers.tiles.nodup.filter _
  refine ⟨c.live.map Allocation.segment ++ parked, ?_,
    (settled.used.nodup_iff.1 nodup).sublist part, fun s member => ?_⟩
  · have first : c.objects.moving.map (·.1) =
        c.suspended.map (Suspended.object c.heap.memory) := List.map_map
    rw [Objects.all, first]
    exact List.rel_append (homes_of_live settled.placed c.heap.memory) moving
  · exact (mem_usedOf.1 (settled.used.symm.subset
      (part.subset (List.mem_cons_of_mem root member)))).1

/-- A client that holds nothing, before the first call. -/
def Client.starting (h : Heap) : Client := ⟨h, [], []⟩

end Esp8266.Umm
