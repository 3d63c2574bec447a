import Mathlib.Data.List.Basic

/-!
# The queue of DMA buffers

cores/esp8266/core_esp8266_i2s.cpp:31-72 and :131-154. The eight buffers of a channel are named by
their place in the ring; the queue is an array of them with a count of eight bits.
-/
set_option autoImplicit false

namespace Esp8266.Source.I2s

def slcBufCnt : Nat := 8
def slcBufLen : Nat := 64

abbrev Buf := Nat

structure Queue where
  slcQueue : Nat → Buf
  slcQueueLen : Nat

namespace Queue

def set (i : Nat) (item : Buf) (slcQueue : Nat → Buf) : Nat → Buf :=
  fun j => if j = i then item else slcQueue j

/-- `i2s_slc_queue_next_item` -/
def nextItem (ch : Queue) : Buf × Queue :=
  let len := (ch.slcQueueLen + 255) % 256
  (ch.slcQueue 0,
    { slcQueue := (List.range len).foldl (fun q i => set i (q (i + 1)) q) ch.slcQueue
      slcQueueLen := len })

/-- `ch->slc_queue[ch->slc_queue_len++] = item` -/
def push (item : Buf) (ch : Queue) : Queue :=
  { slcQueue := set ch.slcQueueLen item ch.slcQueue
    slcQueueLen := (ch.slcQueueLen + 1) % 256 }

/-- The loop that leaves out an item, with the place where the next one goes. -/
def leaveOut (item : Buf) (ch : Queue) : (Nat → Buf) × Nat :=
  (List.range ch.slcQueueLen).foldl
    (fun (q, dest) i => if q i ≠ item then (set dest (q i) q, dest + 1) else (q, dest))
    (ch.slcQueue, 0)

/-- `i2s_slc_queue_append_item` -/
def appendItem (item : Buf) (ch : Queue) : Queue :=
  let ch := { ch with slcQueue := (ch.leaveOut item).1 }
  if ch.slcQueueLen < slcBufCnt - 1 then ch.push item
  else { ch with slcQueue := set ch.slcQueueLen item ch.slcQueue }

/-- The queue from its front on. -/
def entries (ch : Queue) : List Buf := (List.range ch.slcQueueLen).map ch.slcQueue

theorem length_entries (ch : Queue) : ch.entries.length = ch.slcQueueLen := by
  rw [entries, List.length_map, List.length_range]

/-! ## What the operations do to the entries -/

/-- The loop moves the first items by one place. -/
theorem shift_apply (q : Nat → Buf) (len j : Nat) :
    (List.range len).foldl (fun q i => set i (q (i + 1)) q) q j =
      if j < len then q (j + 1) else q j := by
  induction len generalizing j with
  | zero => rfl
  | succ len ih =>
    rw [List.range_succ, List.foldl_append, List.foldl_cons, List.foldl_nil, set]
    by_cases last : j = len
    · subst last
      rw [if_pos rfl, ih, if_neg (by omega), if_pos (by omega)]
    · rw [if_neg last, ih]
      refine if_congr ?_ rfl rfl
      omega

theorem nextItem_entries {ch : Queue} (some : 0 < ch.slcQueueLen) (few : ch.slcQueueLen < 256) :
    ch.entries = ch.nextItem.1 :: ch.nextItem.2.entries ∧
      ch.nextItem.2.slcQueueLen + 1 = ch.slcQueueLen := by
  have len : (ch.slcQueueLen + 255) % 256 = ch.slcQueueLen - 1 := by omega
  obtain ⟨n, count⟩ : ∃ n, ch.slcQueueLen = n + 1 := ⟨ch.slcQueueLen - 1, by omega⟩
  rw [count, Nat.add_sub_cancel] at len
  constructor
  · rw [entries, entries, nextItem]
    dsimp only
    rw [count, len, List.range_succ_eq_map, List.map_cons, List.map_map]
    congr 1
    apply List.map_congr_left
    intro i member
    rw [shift_apply, if_pos (List.mem_range.1 member)]
    rfl
  · rw [nextItem, count]
    exact congrArg (· + 1) len

theorem push_entries {ch : Queue} (few : ch.slcQueueLen < 255) (item : Buf) :
    (ch.push item).entries = ch.entries ++ [item] := by
  have len : (ch.slcQueueLen + 1) % 256 = ch.slcQueueLen + 1 := Nat.mod_eq_of_lt (by omega)
  rw [entries, push]
  dsimp only
  rw [len, List.range_succ, List.map_append, List.map_singleton]
  congr 1
  · apply List.map_congr_left
    intro i member
    exact if_neg (Nat.ne_of_lt (List.mem_range.1 member))
  · exact congrArg (fun x => [x]) (if_pos rfl)

/-- Nothing is left out of a queue without the item. -/
theorem leaveOut_absent {ch : Queue} {item : Buf} (absent : item ∉ ch.entries) :
    (ch.leaveOut item).1 = ch.slcQueue := by
  have each : ∀ i, i < ch.slcQueueLen → ch.slcQueue i ≠ item := by
    intro i inside same
    exact absent (same ▸ List.mem_map_of_mem (List.mem_range.2 inside))
  suffices first : ∀ n, n ≤ ch.slcQueueLen → (List.range n).foldl
      (fun (x : (Nat → Buf) × Nat) i => if x.1 i ≠ item then (set x.2 (x.1 i) x.1, x.2 + 1)
        else (x.1, x.2)) (ch.slcQueue, 0) = (ch.slcQueue, n) by
    exact congrArg Prod.fst (first _ (Nat.le_refl _))
  intro n
  induction n with
  | zero => intro _; rfl
  | succ n ih =>
    intro inside
    have self : set n (ch.slcQueue n) ch.slcQueue = ch.slcQueue := by
      funext j
      rw [set]
      split
      · rename_i same
        rw [same]
      · rfl
    rw [List.range_succ, List.foldl_append, ih (Nat.le_of_succ_le inside), List.foldl_cons,
      List.foldl_nil, if_pos (each n inside), self]

/-- An item that is not in the queue becomes its last one, unless the queue is full. -/
theorem appendItem_room {ch : Queue} {item : Buf} (absent : item ∉ ch.entries)
    (room : ch.slcQueueLen < slcBufCnt - 1) : ch.appendItem item = ch.push item := by
  rw [appendItem]
  dsimp only
  rw [if_pos room, leaveOut_absent absent]

theorem appendItem_full {ch : Queue} {item : Buf} (absent : item ∉ ch.entries)
    (full : ¬ch.slcQueueLen < slcBufCnt - 1) : (ch.appendItem item).entries = ch.entries := by
  rw [appendItem]
  dsimp only
  rw [if_neg full, leaveOut_absent absent, entries]
  apply List.map_congr_left
  intro i member
  exact if_neg (Nat.ne_of_lt (List.mem_range.1 member))

end Queue

/-! ## The ring -/

/-- The last `len` of the first `n` buffers that a DMA engine comes through. -/
def recent (n len : Nat) : List Buf := (List.range len).map fun i => (n - len + i) % slcBufCnt

theorem recent_succ {n len : Nat} (past : len ≤ n) :
    recent (n + 1) (len + 1) = recent n len ++ [n % slcBufCnt] := by
  rw [recent, recent, List.range_succ, List.map_append, List.map_singleton, Nat.add_sub_add_right,
    Nat.sub_add_cancel past]

theorem recent_cons {n len : Nat} (past : len + 1 ≤ n) :
    recent n (len + 1) = (n - (len + 1)) % slcBufCnt :: recent n len := by
  rw [recent, recent, List.range_succ_eq_map, List.map_cons, List.map_map]
  congr 1
  apply List.map_congr_left
  intro i _
  change (n - (len + 1) + (i + 1)) % slcBufCnt = _
  congr 1
  omega

/-- The buffer that the engine is at is not one of the last seven. -/
theorem not_mem_recent {n len : Nat} (past : len ≤ n) (few : len < slcBufCnt) :
    n % slcBufCnt ∉ recent n len := by
  intro member
  obtain ⟨i, inside, same⟩ := List.mem_map.1 member
  have less := List.mem_range.1 inside
  unfold slcBufCnt at *
  omega

end Esp8266.Source.I2s
