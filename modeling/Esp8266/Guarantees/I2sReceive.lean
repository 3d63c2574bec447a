import Esp8266.Lib.Runs
import Esp8266.Source.I2sReceive

/-!
# The order of received blocks

As long as every completion finds room, the queue holds the blocks completed last, in order. A
completion that finds it full is not appended: the new entry lies behind the count.
-/
set_option autoImplicit false

namespace Esp8266.Source.I2s
open Esp8266.Lib

/-- The last one of the completions of a buffer, when it was among the last eight. -/
theorem latest_recent (n k : Nat) (before : k < n) (recent : n ≤ k + slcBufCnt) :
    latest n (k % slcBufCnt) = k + 1 := by
  induction n with
  | zero => exact absurd before (Nat.not_lt_zero k)
  | succ n ih =>
    rw [latest]
    unfold slcBufCnt at *
    split
    · omega
    · exact ih (by omega) (by omega)

namespace Rx

/-- The entries are distinct, in the order of their completion, and the last one is the block
completed last; and so are the delivered blocks in the order of completion, each once. -/
structure Ordered (s : Rx) : Prop where
  distinct : s.queue.entries.Nodup
  order : s.queue.entries.Pairwise fun a b => latest s.completed a < latest s.completed b
  last : ∀ b, s.queue.entries.getLast? = some b → latest s.completed b = s.completed
  delivered : s.delivered.Pairwise (· < ·)

structure Inv (s : Rx) : Prop where
  entries : s.queue.entries = recent s.completed s.queue.slcQueueLen
  most : s.queue.slcQueueLen ≤ slcBufCnt - 1
  past : s.queue.slcQueueLen ≤ s.completed
  delivered : s.delivered.Pairwise (· < ·)
  taken : ∀ k ∈ s.delivered, k + s.queue.slcQueueLen ≤ s.completed
  ready : s.reader = .take → 0 < s.queue.slcQueueLen

/-- What the entries say of themselves. -/
theorem Inv.ordered {s : Rx} (inv : s.Inv) : s.Ordered := by
  have order : s.queue.entries.Pairwise fun a b =>
      latest s.completed a < latest s.completed b := by
    rw [inv.entries, recent, List.pairwise_map]
    refine List.pairwise_lt_range.imp_of_mem ?_
    intro i j insideI insideJ less
    have i' := List.mem_range.1 insideI
    have j' := List.mem_range.1 insideJ
    have past := inv.past
    have most := inv.most
    rw [latest_recent _ _ (by omega) (by omega), latest_recent _ _ (by omega) (by omega)]
    omega
  refine ⟨order.imp fun less same => ?_, order, fun b last => ?_, inv.delivered⟩
  · rw [same] at less
    exact absurd less (Nat.lt_irrefl _)
  · rw [inv.entries] at last
    have past := inv.past
    cases len : s.queue.slcQueueLen with
    | zero =>
      rw [len] at last
      exact absurd last (by simp [recent])
    | succ len' =>
      rw [len] at last past
      obtain ⟨n, count⟩ : ∃ n, s.completed = n + 1 := ⟨s.completed - 1, by omega⟩
      rw [count] at last past ⊢
      rw [recent_succ (Nat.le_of_succ_le_succ past), List.getLast?_concat] at last
      rw [← Option.some.inj last]
      exact if_pos rfl

/-- A completion finds room in the queue. -/
def KeepsUp (action : RxAction) (s : Rx) : Prop :=
  match action with
  | .complete _ => s.queue.slcQueueLen < slcBufCnt - 1
  | .advance _ => True

theorem Inv.absent {s : Rx} (inv : s.Inv) : s.completed % slcBufCnt ∉ s.queue.entries := by
  have most := inv.most
  rw [inv.entries]
  exact not_mem_recent inv.past (by unfold slcBufCnt at *; omega)

theorem slcIsr_inv {s : Rx} (inv : s.Inv) (block : Nat → UInt32)
    (room : s.queue.slcQueueLen < slcBufCnt - 1) : (s.slcIsr block).Inv := by
  have few : s.queue.slcQueueLen < 255 := by unfold slcBufCnt at room; omega
  have appended := Queue.appendItem_room inv.absent room
  have entries := Queue.push_entries few (s.completed % slcBufCnt)
  have length := congrArg List.length entries
  rw [Queue.length_entries, List.length_append, Queue.length_entries, List.length_singleton]
    at length
  have past := inv.past
  rw [slcIsr]
  exact {
    entries := by
      dsimp only
      rw [appended, entries, length, inv.entries, recent_succ past]
    most := by
      dsimp only
      rw [appended, length]
      unfold slcBufCnt at *
      omega
    past := by
      dsimp only
      rw [appended, length]
      omega
    delivered := inv.delivered
    taken := by
      intro k member
      have before := inv.taken k member
      dsimp only
      rw [appended, length]
      omega
    ready := by
      intro _
      dsimp only
      rw [appended, length]
      exact Nat.succ_pos _ }

/-- The reader takes the block completed first of those in the queue. -/
theorem take_inv {s : Rx} (inv : s.Inv) (some' : 0 < s.queue.slcQueueLen) : Inv { s with
    queue := s.queue.nextItem.2, currSlcBuf := some s.queue.nextItem.1, reader := .rewind
    delivered := s.delivered ++ [latest s.completed s.queue.nextItem.1] } := by
  have most := inv.most
  have past := inv.past
  obtain ⟨entries, length⟩ := Queue.nextItem_entries some' (by unfold slcBufCnt at most; omega)
  have parts := inv.entries
  rw [entries, ← length, recent_cons (by omega)] at parts
  obtain ⟨first, rest⟩ := List.cons.inj parts
  have number : latest s.completed s.queue.nextItem.1 + s.queue.nextItem.2.slcQueueLen =
      s.completed := by
    rw [first, latest_recent _ _ (by omega) (by unfold slcBufCnt at *; omega)]
    omega
  exact {
    entries := rest
    most := by dsimp only; omega
    past := by dsimp only; omega
    delivered := by
      refine List.pairwise_append.2 ⟨inv.delivered, List.pairwise_singleton _ _, ?_⟩
      intro k member k' last
      have before := inv.taken k member
      rw [List.mem_singleton.1 last]
      omega
    taken := by
      intro k member
      dsimp only
      rcases List.mem_append.1 member with before | last
      · have before := inv.taken k before
        omega
      · rw [List.mem_singleton.1 last]
        exact Nat.le_of_eq number
    ready := fun reader => (nomatch reader) }

/-- A step of the reader that leaves the queue alone. -/
theorem Inv.reader {s s' : Rx} (inv : s.Inv) (queue : s'.queue = s.queue)
    (completed : s'.completed = s.completed) (delivered : s'.delivered = s.delivered)
    (ready : s'.reader = .take → 0 < s.queue.slcQueueLen) : s'.Inv where
  entries := by rw [queue, completed]; exact inv.entries
  most := by rw [queue]; exact inv.most
  past := by rw [queue, completed]; exact inv.past
  delivered := by rw [delivered]; exact inv.delivered
  taken := by rw [queue, completed, delivered]; exact inv.taken
  ready := by rw [queue]; exact ready

theorem readSample_inv {s : Rx} (inv : s.Inv) (blocking : Bool) :
    (s.readSample blocking).2.Inv := by
  rw [readSample]
  split
  · exact inv.reader rfl rfl rfl fun reader => (nomatch reader)
  · split
    · exact inv.reader rfl rfl rfl fun reader => (nomatch reader)
    · exact inv.reader rfl rfl rfl fun reader => (nomatch reader)
  · split
    · split
      · exact inv.reader rfl rfl rfl fun reader => (nomatch reader)
      · exact inv.reader rfl rfl rfl fun reader => (nomatch reader)
    · exact inv.reader rfl rfl rfl fun _ => Nat.pos_of_ne_zero ‹_›
  · split
    · exact inv.reader rfl rfl rfl fun _ => ‹_›
    · exact inv
  · rename_i reader
    exact take_inv inv (inv.ready reader)
  · exact inv.reader rfl rfl rfl fun reader => (nomatch reader)
  · split
    · exact inv
    · exact inv.reader rfl rfl rfl fun reader => (nomatch reader)

theorem step_inv (action : RxAction) (s : Rx) (keepsUp : KeepsUp action s) (inv : s.Inv) :
    (step action s).2.Inv := by
  cases action with
  | complete block => exact slcIsr_inv inv block keepsUp
  | advance blocking => exact readSample_inv inv blocking

/-- A completion that finds the queue full is not at its end afterwards. -/
theorem full_not_ordered (action : RxAction) (s : Rx) (late : ¬KeepsUp action s) (inv : s.Inv) :
    ¬(step action s).2.Ordered := by
  cases action with
  | advance blocking => exact absurd trivial late
  | complete block =>
    intro ordered
    have most := inv.most
    have past := inv.past
    have full : s.queue.slcQueueLen = slcBufCnt - 1 :=
      Nat.le_antisymm most (Nat.le_of_not_lt late)
    have kept : (s.slcIsr block).queue.entries = s.queue.entries :=
      Queue.appendItem_full inv.absent late
    obtain ⟨n, count⟩ : ∃ n, s.completed = n + 1 :=
      ⟨s.completed - 1, by unfold slcBufCnt at full; omega⟩
    have last : (s.slcIsr block).queue.entries.getLast? = some (n % slcBufCnt) := by
      rw [kept, inv.entries, full, count]
      unfold slcBufCnt at *
      rw [show 8 - 1 = 6 + 1 from rfl, recent_succ (by omega), List.getLast?_concat]
      rfl
    have most' : latest (s.completed + 1) (n % slcBufCnt) = s.completed + 1 :=
      ordered.last _ last
    rw [count, latest_recent (n + 1 + 1) n (by omega) (by unfold slcBufCnt; omega)] at most'
    omega

theorem start_inv : start.Inv where
  entries := rfl
  most := by decide
  past := Nat.le_refl 0
  delivered := List.Pairwise.nil
  taken := fun _ member => absurd member List.not_mem_nil
  ready := fun reader => (nomatch reader)

/-- The queue is in order after every step of a run exactly if no completion finds it full. -/
theorem received_in_order (actions : List RxAction) :
    (∀ front, front <+: actions → (Runs.after step front start).Ordered) ↔
      Runs.Admits step KeepsUp actions start :=
  Runs.always_iff_admits step_inv (fun _ => Inv.ordered) full_not_ordered actions start start_inv

/-- Eight completions without a reader: the eighth block is not in the queue. After the ninth one
the seventh is in it twice. -/
theorem received_out_of_order :
    ¬(Runs.after step (List.replicate 8 (.complete fun _ => 0)) start).Ordered ∧
      ¬(Runs.after step (List.replicate 9 (.complete fun _ => 0)) start).Ordered := by
  constructor
  · intro ordered
    exact absurd (ordered.last 6 (by decide)) (by decide)
  · intro ordered
    exact absurd ordered.distinct (by decide)

end Rx

end Esp8266.Source.I2s
