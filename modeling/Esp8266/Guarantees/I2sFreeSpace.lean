import Esp8266.Guarantees.I2sTransmit

/-!
# The free space that the transmit channel tells

A call that does not block finds room in the buffer that the writer holds and in those of the
queue, which are free. `i2s_is_full` asks for both; `i2s_available` takes the queue for what is
filled, so that its number is small where much is free.
-/
set_option autoImplicit false

namespace Esp8266.Source.I2s.Tx
open Esp8266.Lib

/-! ## The buffer of the writer -/

/-- What a writing function is about to store fits into its buffer. -/
def within (filled : Nat) : Writer → Prop
  | .fill _ => filled < slcBufLen
  | .copy _ _ left => filled + left ≤ slcBufLen
  | _ => True

/-- The writer does not pass the end of the buffer that it holds. -/
structure Inside (s : Tx) : Prop where
  filled : s.filled ≤ slcBufLen
  fits : within s.filled s.writer
  holds : s.writer.rewinding = true → s.currSlcBuf ≠ none

theorem start_inside : start.Inside :=
  ⟨Nat.le_refl _, trivial, fun rewinding => absurd rewinding Bool.false_ne_true⟩

/-- The engine does not touch what the writer holds. -/
theorem dma_inside {s : Tx} (inside : s.Inside) : s.dma.Inside := by
  unfold dma
  split <;> exact ⟨inside.filled, inside.fits, inside.holds⟩

/-- A step of the writer that stores nothing. -/
theorem Inside.writer {s s' : Tx} (inside : s.Inside) (calm : s.writer.rewinding = false)
    (calm' : s'.writer.rewinding = false) (buf : s'.currSlcBuf = s.currSlcBuf)
    (pos : s'.currSlcBufPos = s.currSlcBufPos) (fits : within s.filled s'.writer) : s'.Inside := by
  have same : s'.filled = s.filled := by
    rw [Tx.filled, Tx.filled, calm, calm', buf, pos]
  refine ⟨same ▸ inside.filled, same ▸ fits, fun rewinding => ?_⟩
  rw [calm'] at rewinding
  exact absurd rewinding Bool.false_ne_true

/-- A word goes into the buffer, where there is room for it. -/
theorem filled_store {s : Tx} (calm : s.writer.rewinding = false) (room : s.filled < slcBufLen)
    (word : UInt32) : (s.store word).filled = s.filled + 1 ∧
      (s.store word).currSlcBuf = s.currSlcBuf ∧ (s.store word).writer = s.writer := by
  have position := filled_eq calm room
  cases held : s.currSlcBuf with
  | none =>
    rw [Tx.filled, calm, held] at room
    exact absurd room (Nat.lt_irrefl _)
  | some buf =>
    rw [position, store, held]
    refine ⟨?_, rfl, rfl⟩
    rw [Tx.filled]
    dsimp only
    rw [calm]
    rfl

theorem filled_stored {s : Tx} (calm : s.writer.rewinding = false) (room : s.filled < slcBufLen)
    (word : UInt32) {w : Writer} (accepted : List UInt32) (calm' : w.rewinding = false) :
    Tx.filled { s.store word with writer := w, accepted := accepted } = s.filled + 1 := by
  obtain ⟨filled, buf, kept⟩ := filled_store calm room word
  rw [← filled, Tx.filled, Tx.filled, kept, calm]
  dsimp only
  rw [calm']

theorem store_inside {s : Tx} (calm : s.writer.rewinding = false) (room : s.filled < slcBufLen)
    (word : UInt32) {w : Writer} (accepted : List UInt32) (calm' : w.rewinding = false)
    (fits : within (s.filled + 1) w) :
    Inside { s.store word with writer := w, accepted := accepted } := by
  have same := filled_stored calm room word accepted calm'
  refine ⟨?_, ?_, fun rewinding => ?_⟩
  · rw [same]
    exact room
  · rw [same]
    exact fits
  · exact absurd (calm'.symm.trans rewinding) Bool.false_ne_true

theorem advance_inside {s : Tx} (inside : s.Inside) (call : WriteCall) :
    (s.advance call).2.Inside := by
  have fits := inside.fits
  have below := inside.filled
  unfold advance
  cases writer : s.writer with
  | idle =>
    have calm : s.writer.rewinding = false := by rw [writer]; rfl
    cases call <;> exact inside.writer calm rfl rfl rfl trivial
  | loop l =>
    have calm : s.writer.rewinding = false := by rw [writer]; rfl
    dsimp only
    split <;> exact inside.writer calm rfl rfl rfl trivial
  | test job =>
    have calm : s.writer.rewinding = false := by rw [writer]; rfl
    dsimp only
    split
    · exact inside.writer calm rfl rfl rfl trivial
    · rename_i room
      rw [not_or] at room
      refine inside.writer calm rfl rfl rfl (Nat.lt_of_le_of_ne below ?_)
      rw [Tx.filled, calm, if_neg Bool.false_ne_true, if_neg room.2]
      exact room.1
  | check job =>
    have calm : s.writer.rewinding = false := by rw [writer]; rfl
    dsimp only
    split
    · split
      · cases job <;> exact inside.writer calm rfl rfl rfl trivial
      · exact inside.writer calm rfl rfl rfl trivial
    · exact inside.writer calm rfl rfl rfl trivial
  | wait job =>
    have calm : s.writer.rewinding = false := by rw [writer]; rfl
    dsimp only
    split
    · exact inside.writer calm rfl rfl rfl trivial
    · exact inside
  | take job => exact ⟨Nat.zero_le _, trivial, fun _ => Option.some_ne_none _⟩
  | rewind job =>
    have held : s.currSlcBuf ≠ none := inside.holds (by rw [writer]; rfl)
    have empty : Tx.filled { s with currSlcBufPos := 0, writer := .fill job } = 0 := if_neg held
    refine ⟨?_, ?_, fun rewinding => absurd rewinding Bool.false_ne_true⟩
    · rw [empty]
      exact Nat.zero_le _
    · rw [empty]
      exact (by decide : 0 < slcBufLen)
  | fill job =>
    have calm : s.writer.rewinding = false := by rw [writer]; rfl
    rw [writer] at fits
    cases job with
    | sample sample nb =>
      exact store_inside calm fits sample _ rfl trivial
    | buffer l =>
      refine inside.writer calm rfl rfl rfl ?_
      have position := filled_eq calm fits
      show s.filled + (if slcBufLen - s.currSlcBufPos < l.frameCount then _ else _) ≤ slcBufLen
      split <;> omega
  | copy l fc left =>
    have calm : s.writer.rewinding = false := by rw [writer]; rfl
    rw [writer] at fits
    have enough : s.filled + left ≤ slcBufLen := fits
    dsimp only
    split
    · exact inside.writer calm rfl rfl rfl trivial
    · have accepted : (s.store l.fetch.1).accepted = s.accepted := by
        rw [store]
        split <;> rfl
      have next : within (s.filled + 1) (.copy l.fetch.2 fc (left - 1)) := by
        show s.filled + 1 + (left - 1) ≤ slcBufLen
        omega
      have stored := store_inside calm (by omega) l.fetch.1 s.accepted rfl next
      rw [← accepted] at stored
      exact stored

/-- What holds in every state that a run leads to. -/
structure Reached (s : Tx) : Prop where
  queue : ∃ n, s.Inv n
  inside : s.Inside

theorem step_reached (action : TxAction) (s : Tx) (reached : s.Reached) :
    (step action s).2.Reached := by
  refine ⟨step_listed action s reached.queue, ?_⟩
  cases action with
  | dma => exact dma_inside reached.inside
  | advance call => exact advance_inside reached.inside call

theorem run_reached (actions : List TxAction) : (Runs.after step actions start).Reached :=
  Runs.after_preserves step_reached actions start ⟨⟨0, start_inv⟩, start_inside⟩

/-! ## One call that does not block -/

/-- The samples that the channel takes before the engine frees another buffer. -/
def room (s : Tx) : Nat := slcBufLen * s.queue.slcQueueLen + (slcBufLen - s.filled)

theorem filled_idle {s : Tx} (idle : s.writer = .idle) :
    s.filled = if s.currSlcBuf = none then slcBufLen else s.currSlcBufPos := by
  rw [Tx.filled, idle]
  rfl

/-- The writer's buffer has no room. -/
theorem filled_iff {s : Tx} (idle : s.writer = .idle) :
    s.filled = slcBufLen ↔ s.currSlcBufPos = slcBufLen ∨ s.currSlcBuf = none := by
  rw [filled_idle idle]
  split
  · exact iff_of_true rfl (.inr ‹_›)
  · rw [or_iff_left ‹_›]

theorem i2sIsFull_iff {s : Tx} (reached : s.Reached) (idle : s.writer = .idle) :
    s.i2sIsFull = true ↔ s.room = 0 := by
  have below := reached.inside.filled
  rw [i2sIsFull, decide_eq_true_iff, ← filled_iff idle]
  unfold room slcBufLen at *
  omega

theorem returned_goes {s s' : Tx} {call : WriteCall} (steps : Nat)
    (step : s.advance call = (none, s')) :
    returned call (steps + 1) s = returned call steps s' := by
  rw [returned, step]

theorem returned_ends {s s' : Tx} {call : WriteCall} {count : Nat} (steps : Nat)
    (step : s.advance call = (some count, s')) :
    returned call (steps + 1) s = some (count, s') := by
  rw [returned, step]

/-- A call leads to a state that a run leads to. -/
theorem returned_reached {call : WriteCall} {count : Nat} {s' : Tx} (steps : Nat) :
    ∀ s : Tx, s.Reached → returned call steps s = some (count, s') → s'.Reached := by
  induction steps with
  | zero => exact fun _ _ done => absurd done.symm (Option.some_ne_none _)
  | succ steps ih =>
    intro s reached done
    have next := step_reached (.advance call) s reached
    cases first : (s.advance call).1 with
    | none =>
      rw [returned_goes steps (Prod.ext first rfl)] at done
      exact ih _ next done
    | some count =>
      rw [returned_ends steps (Prod.ext first rfl)] at done
      rw [← (Prod.mk.inj (Option.some.inj done)).2]
      exact next

/-- The call looks at the writer's buffer. -/
theorem advance_test {s : Tx} (job : Job) (call : WriteCall) :
    advance call { s with writer := .test job } =
      if s.currSlcBufPos = slcBufLen ∨ s.currSlcBuf = none then
        (none, { s with writer := .check job })
      else (none, { s with writer := .fill job }) := rfl

theorem advance_idle {s : Tx} (idle : s.writer = .idle) (sample : UInt32) :
    s.advance (.sample sample true) =
      (none, { s with writer := .test (.sample sample true) }) := by
  rw [advance, idle]

/-- A call that finds no room returns false. -/
theorem writeSampleNb_full {s : Tx} (idle : s.writer = .idle) (full : s.filled = slcBufLen)
    (empty : s.queue.slcQueueLen = 0) (sample : UInt32) :
    ∃ s', s.writeSampleNb sample = some (false, s') := by
  have tests := advance_test (s := s) (.sample sample true) (.sample sample true)
  rw [if_pos ((filled_iff idle).1 full)] at tests
  have checks : advance (.sample sample true) { s with writer := .check (.sample sample true) } =
      (some 0, { s with writer := .idle, accepted := s.accepted ++ [] }) := if_pos empty
  rw [writeSampleNb, returned_goes 5 (advance_idle idle sample), returned_goes 4 tests,
    returned_ends 3 checks]
  exact ⟨_, rfl⟩

/-- A call that finds room in the writer's buffer takes it. -/
theorem writeSampleNb_buffer {s : Tx} (idle : s.writer = .idle) (more : s.filled < slcBufLen)
    (sample : UInt32) :
    ∃ s', returned (.sample sample true) 6 s = some (1, s') ∧ s'.writer = .idle ∧
      s'.queue = s.queue ∧ s'.filled = s.filled + 1 := by
  have tests := advance_test (s := s) (.sample sample true) (.sample sample true)
  rw [if_neg fun full => absurd ((filled_iff idle).2 full) (Nat.ne_of_lt more)] at tests
  have fills : advance (.sample sample true) { s with writer := .fill (.sample sample true) } =
      (store sample { s with writer := .fill (.sample sample true) }).finish [sample] := rfl
  have same : Tx.filled { s with writer := .fill (.sample sample true) } = s.filled := by
    rw [filled_idle idle]
    rfl
  have stored := filled_stored (s := { s with writer := .fill (.sample sample true) }) rfl
    (same ▸ more) sample
    ((store sample { s with writer := .fill (.sample sample true) }).accepted ++ [sample])
    (w := .idle) rfl
  rw [returned_goes 5 (advance_idle idle sample), returned_goes 4 tests, returned_ends 3 fills]
  exact ⟨_, rfl, rfl, store_queue _ _, stored.trans (by rw [same])⟩

/-- A call that finds the writer's buffer full takes the first buffer of the queue. -/
theorem writeSampleNb_queue {s : Tx} (reached : s.Reached) (idle : s.writer = .idle)
    (full : s.filled = slcBufLen) (more : 0 < s.queue.slcQueueLen) (sample : UInt32) :
    ∃ s', returned (.sample sample true) 6 s = some (1, s') ∧ s'.writer = .idle ∧
      s'.queue.slcQueueLen + 1 = s.queue.slcQueueLen ∧ s'.filled = 1 := by
  obtain ⟨n, inv⟩ := reached.queue
  have tests := advance_test (s := s) (.sample sample true) (.sample sample true)
  rw [if_pos ((filled_iff idle).1 full)] at tests
  have checks : advance (.sample sample true) { s with writer := .check (.sample sample true) } =
      (none, { s with writer := .take (.sample sample true) }) := if_neg (Nat.ne_of_gt more)
  -- The writer goes on with the buffer `item`, from its start.
  generalize taken : ({ s with
    queue := s.queue.nextItem.2, currSlcBuf := some s.queue.nextItem.1
    writer := .rewind (.sample sample true) } : Tx) = s₁
  have takes : advance (.sample sample true) { s with writer := .take (.sample sample true) } =
      (none, s₁) := congrArg (Prod.mk none) taken
  have rewinds : s₁.advance (.sample sample true) =
      (none, { s₁ with currSlcBufPos := 0, writer := .fill (.sample sample true) }) := by
    rw [← taken]
    rfl
  have held : s₁.currSlcBuf = some s.queue.nextItem.1 := by rw [← taken]
  generalize rewound : ({ s₁ with
    currSlcBufPos := 0, writer := .fill (.sample sample true) } : Tx) = s₂ at rewinds
  have fills : s₂.advance (.sample sample true) = (s₂.store sample).finish [sample] := by
    rw [← rewound]
    rfl
  have calm : s₂.writer.rewinding = false := by
    rw [← rewound]
    rfl
  have first : s₂.filled = 0 := by
    rw [← rewound, Tx.filled]
    dsimp only
    rw [held]
    rfl
  have stored := filled_stored (w := .idle) calm (by rw [first]; decide) sample
    ((s₂.store sample).accepted ++ [sample]) rfl
  have queue : s₂.queue.slcQueueLen + 1 = s.queue.slcQueueLen := by
    rw [← rewound, ← taken]
    exact (nextItem_recent inv more).2.2
  rw [returned_goes 5 (advance_idle idle sample), returned_goes 4 tests, returned_goes 3 checks,
    returned_goes 2 takes, returned_goes 1 rewinds, returned_ends 0 fills]
  refine ⟨_, rfl, rfl, ?_, stored.trans (by rw [first])⟩
  exact (congrArg (·.slcQueueLen + 1) (store_queue sample s₂)).trans queue

/-- A call succeeds exactly where there is room, of which it takes one. -/
theorem writeSampleNb_spec {s : Tx} (reached : s.Reached) (idle : s.writer = .idle)
    (sample : UInt32) :
    ∃ s', s.writeSampleNb sample = some (decide (0 < s.room), s') ∧
      (0 < s.room → s'.Reached ∧ s'.writer = .idle ∧ s'.room + 1 = s.room) := by
  have below := reached.inside.filled
  have accepted : ∀ s', returned (.sample sample true) 6 s = some (1, s') →
      s.writeSampleNb sample = some (true, s') ∧ s'.Reached := fun s' done => by
    refine ⟨?_, returned_reached 6 s reached done⟩
    rw [writeSampleNb, done]
    rfl
  by_cases more : s.filled < slcBufLen
  · obtain ⟨s', done, idle', queue, filled⟩ := writeSampleNb_buffer idle more sample
    obtain ⟨written, reached'⟩ := accepted s' done
    have some_room : 0 < s.room := by
      unfold room
      omega
    refine ⟨s', by rw [written, decide_eq_true some_room], fun _ => ⟨reached', idle', ?_⟩⟩
    rw [room, room, queue, filled]
    unfold slcBufLen at *
    omega
  · have full : s.filled = slcBufLen := by omega
    by_cases free : 0 < s.queue.slcQueueLen
    · obtain ⟨s', done, idle', queue, filled⟩ :=
        writeSampleNb_queue reached idle full free sample
      obtain ⟨written, reached'⟩ := accepted s' done
      have some_room : 0 < s.room := by
        unfold room slcBufLen
        omega
      refine ⟨s', by rw [written, decide_eq_true some_room], fun _ => ⟨reached', idle', ?_⟩⟩
      rw [room, room, full, filled, ← queue]
      unfold slcBufLen
      omega
    · obtain ⟨s', refused⟩ := writeSampleNb_full idle full (by omega) sample
      have no_room : ¬ 0 < s.room := by
        unfold room slcBufLen at *
        omega
      exact ⟨s', by rw [refused, decide_eq_false no_room], fun some_room =>
        absurd some_room no_room⟩

/-! ## What the two functions tell -/

/-- Calls that do not block, one after the other, all succeed. -/
def WritesAll : List UInt32 → Tx → Prop
  | [], _ => True
  | sample :: rest, s => ∃ s', s.writeSampleNb sample = some (true, s') ∧ WritesAll rest s'

theorem writesAll_iff (samples : List UInt32) :
    ∀ {s : Tx}, s.Reached → s.writer = .idle → (WritesAll samples s ↔ samples.length ≤ s.room) := by
  induction samples with
  | nil => exact fun _ _ => iff_of_true trivial (Nat.zero_le _)
  | cons sample rest ih =>
    intro s reached idle
    obtain ⟨s', written, takes⟩ := writeSampleNb_spec reached idle sample
    rw [WritesAll, written, List.length_cons]
    by_cases some_room : 0 < s.room
    · obtain ⟨reached', idle', less⟩ := takes some_room
      have others := ih reached' idle'
      rw [decide_eq_true some_room]
      constructor
      · rintro ⟨s'', same, writes⟩
        obtain rfl := (Prod.mk.inj (Option.some.inj same)).2
        have := others.1 writes
        omega
      · intro fits
        exact ⟨s', rfl, others.2 (by omega)⟩
    · rw [decide_eq_false some_room]
      constructor
      · rintro ⟨s'', same, -⟩
        exact absurd (Prod.mk.inj (Option.some.inj same)).1 Bool.false_ne_true
      · intro fits
        omega

/-- `i2s_is_full` tells whether a call that does not block would fail, and `i2s_available` no more
than the calls that would succeed. -/
structure TellsTruth (s : Tx) : Prop where
  isFull : ∀ sample, s.i2sIsFull = true ↔ (s.writeSampleNb sample).map Prod.fst = some false
  available : ∀ samples, samples.length = s.i2sAvailable → WritesAll samples s

/-- In every state reached between calls `i2s_is_full` is right, and `i2s_available` is exactly
where at least half of the buffers are in the queue. -/
theorem tellsTruth_iff (actions : List TxAction)
    (idle : (Runs.after step actions start).writer = .idle) :
    (Runs.after step actions start).TellsTruth ↔
      slcBufCnt / 2 ≤ (Runs.after step actions start).queue.slcQueueLen := by
  have reached := run_reached actions
  generalize Runs.after step actions start = s at *
  obtain ⟨n, inv⟩ := reached.queue
  have most := inv.most
  have below := reached.inside.filled
  have told : s.i2sAvailable = slcBufLen * (slcBufCnt - s.queue.slcQueueLen) := by
    unfold i2sAvailable slcBufLen slcBufCnt at *
    omega
  constructor
  · intro truth
    have writes := truth.available (List.replicate s.i2sAvailable 0) List.length_replicate
    rw [writesAll_iff _ reached idle, List.length_replicate, told] at writes
    unfold room slcBufLen slcBufCnt at *
    omega
  · intro half
    refine ⟨fun sample => ?_, fun samples length => ?_⟩
    · obtain ⟨s', written, -⟩ := writeSampleNb_spec reached idle sample
      rw [written, i2sIsFull_iff reached idle]
      show s.room = 0 ↔ some (decide (0 < s.room)) = some false
      rw [Option.some.injEq, decide_eq_false_iff_not]
      omega
    · rw [writesAll_iff _ reached idle, length, told]
      unfold room slcBufLen slcBufCnt at *
      omega

theorem tellsTruth_at_start :
    (Runs.after step [] start).TellsTruth ↔
      slcBufCnt / 2 ≤ (Runs.after step [] start).queue.slcQueueLen :=
  tellsTruth_iff [] rfl

/-- Before the engine has finished its first buffer nothing can be written, where 512 samples are
told. -/
theorem start_tells_full_round :
    ¬ TellsTruth start ∧ start.i2sAvailable = 512 ∧ start.i2sIsFull = true := by
  refine ⟨fun truth => ?_, by decide, by decide⟩
  obtain ⟨s', written, -⟩ := truth.available (List.replicate 512 0) List.length_replicate
  have refused : (start.writeSampleNb 0).map Prod.fst = some false := rfl
  rw [written] at refused
  exact Bool.noConfusion (Option.some.inj refused)

end Esp8266.Source.I2s.Tx
