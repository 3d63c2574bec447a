import Esp8266.Lib.Runs
import Esp8266.Source.I2sTransmit

/-!
# What is played

The queue holds the buffers that the engine finished last, so the engine comes to them in order
after the one it plays. Sample `i` is stored in buffer `i / 64 % 8` at word `i % 64`, where the
engine plays it one round later, if it is there by then: the engine may come to the buffer that
the writer still fills.
-/
set_option autoImplicit false

namespace Esp8266.Source.I2s
open Esp8266.Lib

namespace Tx

/-! ## The queue -/

/-- How many buffers the engine goes on until it plays `b`. -/
def turn (current b : Buf) : Nat := (b + slcBufCnt - current) % slcBufCnt

/-- The entries are distinct buffers, not the one that is played, at most seven, and in the order
in which the engine comes to them. -/
structure Listed (s : Tx) : Prop where
  distinct : s.queue.entries.Nodup
  other : s.current ∉ s.queue.entries
  most : s.queue.slcQueueLen ≤ 7
  order : s.queue.entries.Pairwise fun a b => turn s.current a < turn s.current b

/-- The engine has finished `n` buffers. -/
structure Inv (s : Tx) (n : Nat) : Prop where
  current : s.current = n % slcBufCnt
  entries : s.queue.entries = recent n s.queue.slcQueueLen
  most : s.queue.slcQueueLen < slcBufCnt
  past : s.queue.slcQueueLen ≤ n
  position : s.position ≤ slcBufLen
  ready : ∀ job, s.writer = .take job → 0 < s.queue.slcQueueLen

theorem Inv.listed {s : Tx} {n : Nat} (inv : s.Inv n) : s.Listed := by
  have most := inv.most
  have past := inv.past
  have order : s.queue.entries.Pairwise fun a b => turn s.current a < turn s.current b := by
    rw [inv.entries, inv.current, recent, List.pairwise_map]
    refine List.pairwise_lt_range.imp_of_mem ?_
    intro i j insideI insideJ less
    have i' := List.mem_range.1 insideI
    have j' := List.mem_range.1 insideJ
    unfold turn slcBufCnt at *
    omega
  refine ⟨order.imp fun less same => ?_, ?_, Nat.le_of_lt_succ most, order⟩
  · rw [same] at less
    exact absurd less (Nat.lt_irrefl _)
  · rw [inv.entries, inv.current]
    exact not_mem_recent past most

theorem start_inv : start.Inv 0 where
  current := rfl
  entries := rfl
  most := by decide
  past := Nat.le_refl 0
  position := Nat.zero_le _
  ready := fun _ writer => (nomatch writer)

/-- What is left of the queue when its first entry is taken. -/
theorem nextItem_recent {s : Tx} {n : Nat} (inv : s.Inv n) (some : 0 < s.queue.slcQueueLen) :
    s.queue.nextItem.1 = (n - s.queue.slcQueueLen) % slcBufCnt ∧
      s.queue.nextItem.2.entries = recent n s.queue.nextItem.2.slcQueueLen ∧
      s.queue.nextItem.2.slcQueueLen + 1 = s.queue.slcQueueLen := by
  have most := inv.most
  have past := inv.past
  obtain ⟨entries, length⟩ := Queue.nextItem_entries some (by unfold slcBufCnt at most; omega)
  have parts := inv.entries
  rw [entries, ← length, recent_cons (by omega)] at parts
  obtain ⟨first, rest⟩ := List.cons.inj parts
  rw [← length]
  exact ⟨first, rest, rfl⟩

/-- The finished buffer is appended, where another one may have to make room. -/
theorem slcIsr_queue {s : Tx} {n : Nat} (inv : s.Inv n) :
    s.slcIsr.queue.entries = recent (n + 1) s.slcIsr.queue.slcQueueLen ∧
      s.slcIsr.queue.slcQueueLen = min (s.queue.slcQueueLen + 1) (slcBufCnt - 1) := by
  have most := inv.most
  have past := inv.past
  have pushed : ∀ queue : Queue, queue.entries = recent n queue.slcQueueLen →
      queue.slcQueueLen ≤ n → queue.slcQueueLen < slcBufCnt →
      (queue.push s.current).entries = recent (n + 1) (queue.slcQueueLen + 1) ∧
        (queue.push s.current).slcQueueLen = queue.slcQueueLen + 1 := by
    intro queue entries past most
    have few : queue.slcQueueLen < 255 := by unfold slcBufCnt at most; omega
    have appended := Queue.push_entries few s.current
    have length := congrArg List.length appended
    rw [Queue.length_entries, List.length_append, Queue.length_entries, List.length_singleton]
      at length
    rw [appended, entries, inv.current, recent_succ past]
    exact ⟨rfl, length⟩
  rw [slcIsr]
  dsimp only
  split
  · rename_i full
    obtain ⟨_, rest, length⟩ := nextItem_recent inv (by unfold slcBufCnt at full; omega)
    obtain ⟨entries, length'⟩ := pushed _ rest (by omega) (by omega)
    rw [entries, length']
    exact ⟨rfl, by unfold slcBufCnt at *; omega⟩
  · rename_i room
    obtain ⟨entries, length'⟩ := pushed _ inv.entries past most
    rw [entries, length']
    exact ⟨rfl, by unfold slcBufCnt at *; omega⟩

/-- The number of buffers that are finished after a step of the engine. -/
def finishedAfter (s : Tx) (n : Nat) : Nat := if s.position < slcBufLen then n else n + 1

theorem dma_inv {s : Tx} {n : Nat} (inv : s.Inv n) : s.dma.Inv (s.finishedAfter n) := by
  rw [dma, finishedAfter]
  split
  · exact { inv with position := ‹_› }
  · obtain ⟨entries, length⟩ := slcIsr_queue inv
    have past := inv.past
    exact {
      current := by
        change (s.current + 1) % slcBufCnt = _
        rw [inv.current, Nat.mod_add_mod]
      entries := entries
      most := by
        dsimp only
        rw [length]
        unfold slcBufCnt
        omega
      past := by
        dsimp only
        rw [length]
        omega
      position := Nat.zero_le _
      ready := by
        intro _ _
        dsimp only
        rw [length]
        unfold slcBufCnt
        omega }

/-- A step of the writer that leaves the queue and the engine alone. -/
theorem Inv.writer {s s' : Tx} {n : Nat} (inv : s.Inv n) (queue : s'.queue = s.queue)
    (current : s'.current = s.current) (position : s'.position = s.position)
    (ready : ∀ job, s'.writer = .take job → 0 < s.queue.slcQueueLen) : s'.Inv n where
  current := by rw [current]; exact inv.current
  entries := by rw [queue]; exact inv.entries
  most := by rw [queue]; exact inv.most
  past := by rw [queue]; exact inv.past
  position := by rw [position]; exact inv.position
  ready := by rw [queue]; exact ready

theorem take_inv {s : Tx} {n : Nat} (inv : s.Inv n) (some' : 0 < s.queue.slcQueueLen)
    (job : Job) : Inv { s with
      queue := s.queue.nextItem.2, currSlcBuf := some s.queue.nextItem.1
      writer := .rewind job } n := by
  obtain ⟨_, rest, length⟩ := nextItem_recent inv some'
  have most := inv.most
  have past := inv.past
  exact {
    current := inv.current
    entries := rest
    most := by dsimp only; omega
    past := by dsimp only; omega
    position := inv.position
    ready := fun _ writer => (nomatch writer) }

@[simp] theorem store_queue (word : UInt32) (s : Tx) : (s.store word).queue = s.queue := by
  rw [store]
  split <;> rfl

@[simp] theorem store_current (word : UInt32) (s : Tx) : (s.store word).current = s.current := by
  rw [store]
  split <;> rfl

@[simp] theorem store_position (word : UInt32) (s : Tx) : (s.store word).position = s.position := by
  rw [store]
  split <;> rfl

theorem advance_inv {s : Tx} {n : Nat} (inv : s.Inv n) (call : WriteCall) :
    (s.advance call).2.Inv n := by
  unfold advance
  split
  · split <;> exact inv.writer rfl rfl rfl fun _ writer => (nomatch writer)
  · split <;> exact inv.writer rfl rfl rfl fun _ writer => (nomatch writer)
  · split <;> exact inv.writer rfl rfl rfl fun _ writer => (nomatch writer)
  · split
    · split
      · split <;> exact inv.writer rfl rfl rfl fun _ writer => (nomatch writer)
      · exact inv.writer rfl rfl rfl fun _ writer => (nomatch writer)
    · exact inv.writer rfl rfl rfl fun _ _ => Nat.pos_of_ne_zero ‹_›
  · split
    · exact inv.writer rfl rfl rfl fun _ _ => ‹_›
    · exact inv
  · rename_i job writer
    exact take_inv inv (inv.ready job writer) job
  · exact inv.writer rfl rfl rfl fun _ writer => (nomatch writer)
  · exact inv.writer (store_queue _ _) (store_current _ _) (store_position _ _)
      fun _ writer => (nomatch writer)
  · exact inv.writer rfl rfl rfl fun _ writer => (nomatch writer)
  · split
    · exact inv.writer rfl rfl rfl fun _ writer => (nomatch writer)
    · exact inv.writer (store_queue _ _) (store_current _ _) (store_position _ _)
        fun _ writer => (nomatch writer)

theorem step_listed (action : TxAction) (s : Tx) (inv : ∃ n, s.Inv n) :
    ∃ n, (step action s).2.Inv n := by
  obtain ⟨n, inv⟩ := inv
  cases action with
  | dma => exact ⟨_, dma_inv inv⟩
  | advance call => exact ⟨n, advance_inv inv call⟩

/-! ## The writer -/

end Tx

namespace Frames

/-- The pointer has gone over `n` frames. -/
def Points (l : Frames) (n : Nat) : Prop := l.next = if l.mono then n else 2 * n

theorem fetch_eq {l : Frames} {n : Nat} (points : l.Points n) :
    l.fetch.1 = frameWord l.frames l.mono n ∧
      l.fetch.2 = { l with next := if l.mono then n + 1 else 2 * (n + 1) } := by
  rw [Points] at points
  rw [fetch, frameWord]
  split
  · rename_i mono
    rw [if_pos mono] at points
    rw [points]
    exact ⟨rfl, rfl⟩
  · rename_i stereo
    rw [if_neg stereo] at points
    rw [points]
    exact ⟨rfl, rfl⟩

theorem words_succ (l : Frames) (n : Nat) :
    l.words (n + 1) = l.words n ++ [frameWord l.frames l.mono n] := by
  rw [words, words, List.range_succ, List.map_append, List.map_singleton]

end Frames

/-- What the call under way has stored so far. -/
def Job.begun : Job → List UInt32
  | .sample _ _ => []
  | .buffer l => l.words l.framesWritten

def Job.Points : Job → Prop
  | .sample _ _ => True
  | .buffer l => l.Points l.framesWritten

def Writer.begun : Writer → List UInt32
  | .idle => []
  | .loop l => l.words l.framesWritten
  | .test job | .check job | .wait job | .take job | .rewind job | .fill job => job.begun
  | .copy l fc left => l.words (l.framesWritten + (fc - left))

/-- What a writing function has found out about its buffer, of which `filled` words are written. -/
def Writer.Fits (filled : Nat) : Writer → Prop
  | .idle => True
  | .loop l => l.Points l.framesWritten
  | .test job | .rewind job => job.Points
  | .check job | .wait job | .take job => job.Points ∧ filled = slcBufLen
  | .fill job => job.Points ∧ filled < slcBufLen
  | .copy l fc left => left ≤ fc ∧ filled + left ≤ slcBufLen ∧
      l.Points (l.framesWritten + (fc - left))

/-- The position in a buffer that has just been taken is not set yet. -/
def Writer.rewinding : Writer → Bool
  | .rewind _ => true
  | _ => false

namespace Tx

/-- How many words of its buffer the writer has written. -/
def filled (s : Tx) : Nat :=
  if s.writer.rewinding then 0
  else if s.currSlcBuf = none then slcBufLen else s.currSlcBufPos

/-- The number of words in one round of the buffers. -/
def slcRound : Nat := slcBufCnt * slcBufLen

/-- The engine has finished `n` buffers, and the writer has taken `p`. -/
structure Counts (s : Tx) (n p : Nat) : Prop where
  inv : s.Inv n
  taken : p + s.queue.slcQueueLen = n
  held : s.currSlcBuf = if p = 0 then none else some ((p - 1) % slcBufCnt)
  length : s.stored.length + slcBufLen = slcBufLen * p + s.filled
  filled : s.filled ≤ slcBufLen
  fits : s.writer.Fits s.filled
  told : s.stored = s.accepted ++ s.writer.begun
  kept : ∀ i, i < s.stored.length → slcBufLen * n ≤ slcRound + i →
    s.stored[i]? = some (s.memory (i / slcBufLen % slcBufCnt) (i % slcBufLen))
  silent : ∀ b i, n ≤ b → b < slcBufCnt → s.memory b i = 0
  time : s.played.length = slcBufLen * n + s.position
  silence : ∀ t, t < slcRound → t < s.played.length → s.played[t]? = some 0
  samples : ∀ i, slcRound + i < s.played.length →
    i < s.stored.length ∧ s.played[slcRound + i]? = s.stored[i]?

theorem start_counts : start.Counts 0 0 where
  inv := start_inv
  taken := rfl
  held := rfl
  length := rfl
  filled := Nat.le_refl _
  fits := trivial
  told := rfl
  kept := fun _ inside => absurd inside (Nat.not_lt_zero _)
  silent := fun _ _ _ _ => rfl
  time := rfl
  silence := fun _ _ inside => absurd inside (Nat.not_lt_zero _)
  samples := fun _ inside => absurd inside (Nat.not_lt_zero _)

/-- The engine finds the next buffer in time: no interrupt finds the queue full, and no word of
the writer's buffer is played before it is written. -/
def Supplied (action : TxAction) (s : Tx) : Prop :=
  match action with
  | .dma =>
    if s.position < slcBufLen then s.currSlcBuf = some s.current → s.position < s.filled
    else s.queue.slcQueueLen < slcBufCnt - 1
  | .advance _ => True

/-- The sample that the engine comes to is stored. -/
theorem Counts.supplied {s : Tx} {n p : Nat} (counts : s.Counts n p)
    (inside : s.position < slcBufLen)
    (supplied : s.currSlcBuf = some s.current → s.position < s.filled) {i : Nat}
    (sample : s.played.length = slcRound + i) : i < s.stored.length := by
  have time := counts.time
  have taken := counts.taken
  have most := counts.inv.most
  have length := counts.length
  have held := counts.held
  have current := counts.inv.current
  have first : p ≠ 0 := by
    unfold slcRound slcBufCnt slcBufLen at *
    omega
  rw [if_neg first] at held
  by_cases last : (p - 1) % slcBufCnt = s.current
  · have written := supplied (held.trans (congrArg some last))
    unfold slcRound slcBufCnt slcBufLen at *
    omega
  · rw [current] at last
    unfold slcRound slcBufCnt slcBufLen at *
    omega

/-- The engine plays a word. -/
theorem play_counts {s : Tx} {n p : Nat} (counts : s.Counts n p) (inside : s.position < slcBufLen)
    (supplied : s.currSlcBuf = some s.current → s.position < s.filled) : s.dma.Counts n p := by
  have inv := dma_inv counts.inv
  have time := counts.time
  have current := counts.inv.current
  rw [finishedAfter, if_pos inside] at inv
  rw [dma, if_pos inside] at inv ⊢
  exact { counts with
    inv := inv
    time := by
      dsimp only
      rw [List.length_append, List.length_singleton, time]
      rfl
    silence := by
      intro t early before
      dsimp only at before ⊢
      rw [List.length_append, List.length_singleton] at before
      by_cases last : t = s.played.length
      · rw [last, List.getElem?_concat_length]
        refine congrArg some (counts.silent _ _ ?_ ?_) <;> rw [current] <;>
          unfold slcRound slcBufCnt slcBufLen at * <;> omega
      · rw [List.getElem?_append_left (by omega)]
        exact counts.silence t early (by omega)
    samples := by
      intro i before
      dsimp only at before ⊢
      rw [List.length_append, List.length_singleton] at before
      by_cases last : s.played.length = slcRound + i
      · have stored := counts.supplied inside supplied last
        refine ⟨stored, ?_⟩
        have kept := counts.kept i stored (by unfold slcRound slcBufCnt slcBufLen at *; omega)
        have buffer : n % slcBufCnt = i / slcBufLen % slcBufCnt := by
          unfold slcRound slcBufCnt slcBufLen at *
          omega
        have word : s.position = i % slcBufLen := by
          unfold slcRound slcBufCnt slcBufLen at *
          omega
        rw [← last, List.getElem?_concat_length, kept, current, buffer, word]
      · rw [List.getElem?_append_left (by omega)]
        exact counts.samples i (by omega) }

/-- The engine finishes a buffer and finds room for it. -/
theorem finish_counts {s : Tx} {n p : Nat} (counts : s.Counts n p)
    (outside : ¬s.position < slcBufLen) (room : s.queue.slcQueueLen < slcBufCnt - 1) :
    s.dma.Counts (n + 1) p := by
  have inv := dma_inv counts.inv
  have time := counts.time
  have taken := counts.taken
  have length := counts.length
  have filled := counts.filled
  have current := counts.inv.current
  have position := counts.inv.position
  obtain ⟨_, more⟩ := slcIsr_queue counts.inv
  rw [finishedAfter, if_neg outside] at inv
  rw [dma, if_neg outside] at inv ⊢
  dsimp only at inv ⊢
  exact { counts with
    inv := inv
    taken := by
      change p + s.slcIsr.queue.slcQueueLen = n + 1
      rw [more]
      unfold slcBufCnt at *
      omega
    kept := by
      intro i inside recent
      change s.stored[i]? = some ((if i / slcBufLen % slcBufCnt = s.current then fun _ => 0
        else s.memory (i / slcBufLen % slcBufCnt)) (i % slcBufLen))
      have inside' : i < s.stored.length := inside
      rw [if_neg]
      · refine counts.kept i inside' ?_
        unfold slcRound slcBufCnt slcBufLen at *
        omega
      · rw [current]
        unfold slcRound slcBufCnt slcBufLen at *
        omega
    silent := by
      intro b i later below
      change (if b = s.current then fun _ => 0 else s.memory b) i = 0
      split
      · rfl
      · exact counts.silent b i (Nat.le_of_succ_le later) below
    time := by
      change s.played.length = slcBufLen * (n + 1) + 0
      rw [time]
      unfold slcBufLen at *
      omega }

/-- A buffer with room is one that the writer holds. -/
theorem filled_eq {s : Tx} (calm : s.writer.rewinding = false) (room : s.filled < slcBufLen) :
    s.filled = s.currSlcBufPos := by
  rw [filled, calm, if_neg Bool.false_ne_true] at room ⊢
  by_cases none : s.currSlcBuf = none
  · rw [if_pos none] at room
    exact absurd room (Nat.lt_irrefl _)
  · rw [if_neg none]

/-- A step of the writer that stores nothing. -/
theorem Counts.writer {s : Tx} {n p : Nat} (counts : s.Counts n p) (w : Writer)
    (accepted : List UInt32) (calm : s.writer.rewinding = false) (calm' : w.rewinding = false)
    (fits : w.Fits s.filled) (told : s.stored = accepted ++ w.begun)
    (ready : ∀ job, w = .take job → 0 < s.queue.slcQueueLen) :
    Counts { s with writer := w, accepted := accepted } n p := by
  have same : Tx.filled { s with writer := w, accepted := accepted } = s.filled := by
    rw [Tx.filled, Tx.filled, calm]
    dsimp only
    rw [calm']
  exact { counts with
    inv := counts.inv.writer rfl rfl rfl ready
    length := by rw [same]; exact counts.length
    filled := by rw [same]; exact counts.filled
    fits := by rw [same]; exact fits
    told := told }

/-- A call returns that it has accepted what it has stored. -/
theorem Counts.finish {s : Tx} {n p : Nat} (counts : s.Counts n p) (words : List UInt32)
    (calm : s.writer.rewinding = false) (begun : s.writer.begun = words) :
    (s.finish words).2.Counts n p := by
  refine counts.writer .idle (s.accepted ++ words) calm rfl trivial ?_ fun _ writer =>
    (nomatch writer)
  rw [counts.told, begun, Writer.begun, List.append_nil]

/-- The writer takes the buffer that the engine comes to next of those in the queue. -/
theorem take_counts {s : Tx} {n p : Nat} (counts : s.Counts n p) {job : Job}
    (writer : s.writer = .take job) : Counts { s with
      queue := s.queue.nextItem.2, currSlcBuf := some s.queue.nextItem.1
      writer := .rewind job } n (p + 1) := by
  have some' := counts.inv.ready job writer
  obtain ⟨first, _, count⟩ := nextItem_recent counts.inv some'
  have fits := counts.fits
  have told := counts.told
  have length := counts.length
  have taken := counts.taken
  rw [writer] at fits told
  rw [fits.2] at length
  exact { counts with
    inv := take_inv counts.inv some' job
    taken := by dsimp only; omega
    held := by
      dsimp only
      rw [if_neg (Nat.succ_ne_zero p), first, Nat.add_sub_cancel]
      congr 2
      omega
    length := by
      change s.stored.length + slcBufLen = slcBufLen * (p + 1) + 0
      rw [length, Nat.mul_succ]
      rfl
    filled := Nat.zero_le _
    fits := fits.1
    told := told }

/-- The writer sets its position in a buffer that it has taken. -/
theorem rewind_counts {s : Tx} {n p : Nat} (counts : s.Counts n p) {job : Job}
    (writer : s.writer = .rewind job) :
    Counts { s with currSlcBufPos := 0, writer := .fill job } n p := by
  have fits := counts.fits
  have told := counts.told
  have length := counts.length
  have empty : s.filled = 0 := by rw [filled, writer]; rfl
  have some' : s.currSlcBuf ≠ none := by
    rw [counts.held]
    rw [empty] at length
    split
    · unfold slcBufLen at length
      omega
    · exact Option.some_ne_none _
  have filled' : filled { s with currSlcBufPos := 0, writer := .fill job } = 0 := if_neg some'
  rw [writer] at fits told
  rw [empty] at length
  exact { counts with
    inv := counts.inv.writer rfl rfl rfl fun _ writer => (nomatch writer)
    length := by rw [filled']; exact length
    filled := by rw [filled']; exact Nat.zero_le _
    fits := by
      rw [filled']
      exact ⟨fits, by decide⟩
    told := told }

/-- The writer stores a word where there is room for it. -/
theorem store_counts {s : Tx} {n p : Nat} (counts : s.Counts n p) (word : UInt32) (w : Writer)
    (accepted : List UInt32) (calm : s.writer.rewinding = false) (calm' : w.rewinding = false)
    (room : s.filled < slcBufLen) (fits : w.Fits (s.filled + 1))
    (told : s.stored ++ [word] = accepted ++ w.begun)
    (busy : ∀ job, w ≠ .take job) :
    Counts { s.store word with writer := w, accepted := accepted } n p := by
  have length := counts.length
  have taken := counts.taken
  have most := counts.inv.most
  have held := counts.held
  have first : p ≠ 0 := by
    intro zero
    rw [zero] at length
    omega
  rw [if_neg first] at held
  have position : s.filled = s.currSlcBufPos := by
    rw [filled, calm, held]
    rfl
  rw [position] at room fits length
  rw [store, held]
  dsimp only
  generalize result : ({ s with
    currSlcBuf := some ((p - 1) % slcBufCnt)
    memory := fun b i => if b = (p - 1) % slcBufCnt ∧ i = s.currSlcBufPos then word
      else s.memory b i
    currSlcBufPos := s.currSlcBufPos + 1
    stored := s.stored ++ [word], writer := w, accepted := accepted } : Tx) = s'
  have memory : ∀ b i, s'.memory b i =
      if b = (p - 1) % slcBufCnt ∧ i = s.currSlcBufPos then word else s.memory b i := by
    intro b i
    rw [← result]
  have stored : s'.stored = s.stored ++ [word] := by rw [← result]
  have filled' : s'.filled = s.currSlcBufPos + 1 := by
    rw [← result, filled]
    dsimp only
    rw [calm']
    rfl
  have inv : s'.Inv n := by
    rw [← result]
    exact counts.inv.writer rfl rfl rfl fun job writer => absurd writer (busy job)
  have others : s'.queue = s.queue ∧ s'.played = s.played ∧ s'.position = s.position ∧
      s'.writer = w ∧ s'.accepted = accepted ∧
      s'.currSlcBuf = some ((p - 1) % slcBufCnt) := by
    rw [← result]
    exact ⟨rfl, rfl, rfl, rfl, rfl, rfl⟩
  obtain ⟨queue, played, position', writer, accepted', buf⟩ := others
  exact {
    inv := inv
    taken := by rw [queue]; exact taken
    held := by rw [buf, if_neg first]
    length := by
      rw [stored, filled', List.length_append, List.length_singleton]
      omega
    filled := by rw [filled']; exact room
    fits := by rw [filled', writer]; exact fits
    told := by rw [stored, accepted', writer]; exact told
    kept := by
      intro i inside recent
      rw [stored, List.length_append, List.length_singleton] at inside
      rw [stored, memory]
      by_cases last : i = s.stored.length
      · have buffer : i / slcBufLen % slcBufCnt = (p - 1) % slcBufCnt := by
          unfold slcBufCnt slcBufLen at *
          omega
        have word : i % slcBufLen = s.currSlcBufPos := by
          unfold slcBufLen at *
          omega
        rw [if_pos ⟨buffer, word⟩, last, List.getElem?_concat_length]
      · rw [List.getElem?_append_left (by omega), if_neg]
        · exact counts.kept i (by omega) recent
        · intro both
          have buffer : i / slcBufLen % slcBufCnt = (p - 1) % slcBufCnt := both.1
          have word : i % slcBufLen = s.currSlcBufPos := both.2
          unfold slcRound slcBufCnt slcBufLen at *
          omega
    silent := by
      intro b i later below
      rw [memory, if_neg]
      · exact counts.silent b i later below
      · intro both
        have buffer : (b : Nat) = (p - 1) % slcBufCnt := both.1
        have first' : (p - 1) % slcBufCnt = p - 1 := by
          unfold slcBufCnt at *
          exact Nat.mod_eq_of_lt (by omega)
        omega
    time := by rw [played, position']; exact counts.time
    silence := by rw [played]; exact counts.silence
    samples := by
      intro i before
      rw [played] at before ⊢
      obtain ⟨inside, same⟩ := counts.samples i before
      rw [stored, List.length_append, List.getElem?_append_left inside]
      exact ⟨Nat.lt_add_right _ inside, same⟩ }

theorem advance_counts {s : Tx} {n p : Nat} (counts : s.Counts n p) (call : WriteCall) :
    ∃ p, (s.advance call).2.Counts n p := by
  have fits := counts.fits
  have told := counts.told
  cases writer : s.writer with
  | idle =>
    rw [writer] at fits told
    have calm : s.writer.rewinding = false := by rw [writer]; rfl
    unfold advance
    rw [writer]
    dsimp only
    cases call with
    | sample sample nb =>
      exact ⟨p, counts.writer (.test (.sample sample nb)) s.accepted calm rfl trivial told
        fun _ writer => (nomatch writer)⟩
    | buffer frames frameCount mono nb =>
      refine ⟨p, counts.writer (.loop ⟨frames, 0, frameCount.toNat, mono, nb, 0⟩) s.accepted calm
        rfl ?_ told fun _ writer => (nomatch writer)⟩
      change 0 = if mono then 0 else 2 * 0
      split <;> rfl
  | loop l =>
    rw [writer] at fits told
    have calm : s.writer.rewinding = false := by rw [writer]; rfl
    have begun : s.writer.begun = l.words l.framesWritten := by rw [writer]; rfl
    unfold advance
    rw [writer]
    dsimp only
    split
    · exact ⟨p, counts.writer (.test (.buffer l)) s.accepted calm rfl fits told
        fun _ writer => (nomatch writer)⟩
    · exact ⟨p, counts.finish _ calm begun⟩
  | test job =>
    rw [writer] at fits told
    have calm : s.writer.rewinding = false := by rw [writer]; rfl
    unfold advance
    rw [writer]
    dsimp only
    split
    · rename_i full
      have filled : s.filled = slcBufLen := by
        rw [filled, calm]
        rcases full with full | none
        · rw [full, ite_self]
          rfl
        · rw [if_pos none]
          rfl
      exact ⟨p, counts.writer (.check job) s.accepted calm rfl ⟨fits, filled⟩ told
        fun _ writer => (nomatch writer)⟩
    · rename_i room
      rw [not_or] at room
      have filled : s.filled < slcBufLen := by
        have most := counts.filled
        rw [filled, calm, if_neg room.2] at most ⊢
        exact Nat.lt_of_le_of_ne most room.1
      exact ⟨p, counts.writer (.fill job) s.accepted calm rfl ⟨fits, filled⟩ told
        fun _ writer => (nomatch writer)⟩
  | check job =>
    rw [writer] at fits told
    have calm : s.writer.rewinding = false := by rw [writer]; rfl
    unfold advance
    rw [writer]
    dsimp only
    split
    · split
      · cases job with
        | sample sample nb => exact ⟨p, counts.finish _ calm (by rw [writer]; rfl)⟩
        | buffer l => exact ⟨p, counts.finish _ calm (by rw [writer]; rfl)⟩
      · exact ⟨p, counts.writer (.wait job) s.accepted calm rfl fits told
          fun _ writer => (nomatch writer)⟩
    · rename_i some
      exact ⟨p, counts.writer (.take job) s.accepted calm rfl fits told
        fun _ _ => Nat.pos_of_ne_zero some⟩
  | wait job =>
    rw [writer] at fits told
    have calm : s.writer.rewinding = false := by rw [writer]; rfl
    unfold advance
    rw [writer]
    dsimp only
    split
    · rename_i some
      exact ⟨p, counts.writer (.take job) s.accepted calm rfl fits told fun _ _ => some⟩
    · exact ⟨p, counts⟩
  | take job =>
    unfold advance
    rw [writer]
    exact ⟨p + 1, take_counts counts writer⟩
  | rewind job =>
    unfold advance
    rw [writer]
    exact ⟨p, rewind_counts counts writer⟩
  | fill job =>
    rw [writer] at fits told
    have calm : s.writer.rewinding = false := by rw [writer]; rfl
    unfold advance
    rw [writer]
    cases job with
    | sample sample nb =>
      have accepted : (s.store sample).accepted = s.accepted := by
        rw [store]
        split <;> rfl
      refine ⟨p, ?_⟩
      dsimp only [finish]
      rw [accepted]
      refine store_counts counts sample .idle _ calm rfl fits.2 trivial ?_ fun _ writer =>
        (nomatch writer)
      change s.stored ++ [sample] = s.accepted ++ [sample] ++ []
      rw [told, List.append_nil]
      exact congrArg (· ++ [sample]) (List.append_nil s.accepted)
    | buffer l =>
      dsimp only
      refine ⟨p, counts.writer (.copy l _ _) s.accepted calm rfl ⟨Nat.le_refl _, ?_, ?_⟩ ?_
        fun _ writer => (nomatch writer)⟩
      · have room := fits.2
        have position := filled_eq calm room
        rw [position] at room ⊢
        split <;> omega
      · rw [Nat.sub_self]
        exact fits.1
      · rw [told, Writer.begun]
        refine congrArg (fun n => s.accepted ++ l.words n) (Eq.symm ?_)
        rw [Nat.sub_self]
        rfl
  | copy l fc left =>
    rw [writer] at fits told
    obtain ⟨few, room, points⟩ := fits
    have calm : s.writer.rewinding = false := by rw [writer]; rfl
    unfold advance
    rw [writer]
    dsimp only
    split
    · rename_i done
      rw [done, Nat.sub_zero] at points
      rw [done] at told
      exact ⟨p, counts.writer (.loop _) s.accepted calm rfl points told
        fun _ writer => (nomatch writer)⟩
    · rename_i more
      obtain ⟨word, rest⟩ := Frames.fetch_eq points
      have accepted : (s.store l.fetch.1).accepted = s.accepted := by
        rw [store]
        split <;> rfl
      have next : fc - (left - 1) = fc - left + 1 := by omega
      refine ⟨p, ?_⟩
      have stored := store_counts counts l.fetch.1 (.copy l.fetch.2 fc (left - 1)) s.accepted calm
        rfl (by omega) ⟨by omega, by omega, ?_⟩ ?_ fun _ writer => (nomatch writer)
      · rw [← accepted] at stored
        exact stored
      · rw [rest, next]
        exact rfl
      · rw [told, word, Writer.begun, Writer.begun, rest, next, List.append_assoc]
        exact congrArg (s.accepted ++ ·) (Frames.words_succ l _).symm

/-! ## Runs -/

theorem step_counts (action : TxAction) (s : Tx) (supplied : Supplied action s)
    (counts : ∃ n p, s.Counts n p) : ∃ n p, (step action s).2.Counts n p := by
  obtain ⟨n, p, counts⟩ := counts
  cases action with
  | advance call => exact ⟨n, advance_counts counts call⟩
  | dma =>
    rw [Supplied] at supplied
    by_cases inside : s.position < slcBufLen
    · rw [if_pos inside] at supplied
      exact ⟨n, p, play_counts counts inside supplied⟩
    · rw [if_neg inside] at supplied
      exact ⟨n + 1, p, finish_counts counts inside supplied⟩

/-- The first round is silent, and then the samples are played in order; those that are not played
yet are where the engine comes to after them. Stored are the samples that were accepted, and those
that a call under way has stored. -/
structure Heard (s : Tx) : Prop where
  silence : ∀ t, t < slcRound → t < s.played.length → s.played[t]? = some 0
  samples : s.played.drop slcRound <+: s.stored
  ahead : ∀ i, i < s.stored.length → s.played.length ≤ slcRound + i →
    s.stored[i]? = some (s.memory (i / slcBufLen % slcBufCnt) (i % slcBufLen))
  stored : ∃ begun, s.stored = s.accepted ++ begun ∧ (s.writer = .idle → begun = [])

theorem Counts.heard {s : Tx} {n p : Nat} (counts : s.Counts n p) : s.Heard where
  silence := counts.silence
  samples := by
    rw [List.prefix_iff_getElem?]
    intro i inside
    rw [List.length_drop] at inside
    rw [List.getElem_drop, ← (counts.samples i (by omega)).2]
    exact List.getElem?_eq_getElem (by omega)
  ahead := by
    intro i inside later
    refine counts.kept i inside ?_
    have time := counts.time
    omega
  stored := by
    refine ⟨s.writer.begun, counts.told, fun idle => ?_⟩
    rw [idle]
    rfl

instance (action : TxAction) (s : Tx) : Decidable (Supplied action s) :=
  match action with
  | .dma => inferInstanceAs (Decidable (if s.position < slcBufLen then
      s.currSlcBuf = some s.current → s.position < s.filled
      else s.queue.slcQueueLen < slcBufCnt - 1))
  | .advance _ => inferInstanceAs (Decidable True)

/-- In every run the queue is in order; and in every run that supplies the engine, the samples are
played in order, each once. -/
theorem transmitted_in_order (actions : List TxAction) :
    (Runs.after step actions start).Listed ∧
      (Runs.Admits step Supplied actions start → (Runs.after step actions start).Heard) := by
  constructor
  · obtain ⟨n, inv⟩ := Runs.after_preserves step_listed actions start ⟨0, start_inv⟩
    exact inv.listed
  · intro supplied
    obtain ⟨n, p, counts⟩ :=
      Runs.after_invariant step_counts actions start supplied ⟨0, 0, start_counts⟩
    exact counts.heard

/-- A sample, written as soon as there is a buffer. -/
def promptSample : List TxAction :=
  List.replicate 65 .dma ++ List.replicate 6 (.advance (.sample 1 true))

theorem transmitted_in_order_one : (Runs.after step promptSample start).Heard :=
  (transmitted_in_order promptSample).2 (by decide)

/-- An interrupt finds the queue not full. -/
def Roomy (action : TxAction) (s : Tx) : Prop :=
  match action with
  | .dma => s.position < slcBufLen ∨ s.queue.slcQueueLen < slcBufCnt - 1
  | .advance _ => True

instance (action : TxAction) (s : Tx) : Decidable (Roomy action s) :=
  match action with
  | .dma => inferInstanceAs (Decidable (s.position < slcBufLen ∨ _))
  | .advance _ => inferInstanceAs (Decidable True)

/-- A second sample comes when the engine has gone over its place: no interrupt finds the queue
full, and what is played is not what was accepted. -/
def lateSample : List TxAction :=
  promptSample ++ List.replicate 457 .dma ++ List.replicate 3 (.advance (.sample 9 true))

/-- What one step plays, and what a run plays. -/
def plays (action : TxAction) (s : Tx) : List UInt32 :=
  match action with
  | .dma => if s.position < slcBufLen then [s.memory s.current s.position] else []
  | .advance _ => []

def playsAll : List TxAction → Tx → List UInt32
  | [], _ => []
  | action :: rest, s => plays action s ++ playsAll rest (step action s).2

theorem advance_played (call : WriteCall) (s : Tx) : (s.advance call).2.played = s.played := by
  have stored : ∀ word, (s.store word).played = s.played := by
    intro word
    rw [store]
    split <;> rfl
  unfold advance
  split
  · split <;> rfl
  · split <;> rfl
  · split <;> rfl
  · split
    · split
      · split <;> rfl
      · rfl
    · rfl
  · split <;> rfl
  · rfl
  · rfl
  · exact stored _
  · rfl
  · split
    · rfl
    · exact stored _

theorem after_played (actions : List TxAction) : ∀ s : Tx,
    (Runs.after step actions s).played = s.played ++ playsAll actions s := by
  induction actions with
  | nil => intro s; exact (List.append_nil s.played).symm
  | cons action rest ih =>
    intro s
    have first : (step action s).2.played = s.played ++ plays action s := by
      cases action with
      | advance call => exact (advance_played call s).trans (List.append_nil s.played).symm
      | dma =>
        rw [step, dma, plays]
        split
        · rfl
        · exact (List.append_nil s.played).symm
    rw [Runs.after_cons, ih, first, playsAll, List.append_assoc]

theorem transmitted_with_gap : Runs.Admits step Roomy lateSample start ∧
    (Runs.after step lateSample start).accepted = [1, 9] ∧
    (Runs.after step lateSample start).played.drop slcRound = [1, 0] := by
  rw [after_played]
  decide +kernel

end Tx

end Esp8266.Source.I2s
