import Esp8266.Lib.Runs
import Esp8266.Source.PcmBuf

/-!
# The double buffer of samples hands on what was written

The samples written so far decide where the writer stands and what the two buffers hold. `Stored`
says so, and only `write` has to keep it. A payload is then a run of the samples of the buffer
that was finished last. Calls that are not interrupted keep this once the first buffer is
finished; under interrupts it is kept as long as no buffer is finished at the wrong moment.
-/
set_option autoImplicit false

namespace Esp8266.Source.PcmBuf
open Esp8266.Lib.Runs

/-! ## The object with its history -/

/-- A payload, with `_readPcmBufNum` when it was sent and the number of samples written by then. -/
structure Sent extends Payload where
  current : Int
  after : Nat

structure System where
  pcm : PcmBuf
  reader : Reader
  written : List UInt16
  sent : List Sent
  /-- How many samples had been written when the payload of the call in progress was sent. -/
  since : Nat

namespace System

def init (data : Int → Int → UInt16) : System := ⟨fresh data, .idle, [], [], 0⟩

def push (val : Int) (s : System) : System :=
  { s with pcm := s.pcm.write val, written := s.written ++ [UInt16.ofInt val] }

/-- The reader has moved on to `pcm`, and has sent `payload` if there is one. -/
def log (payload : Option Payload) (pcm : PcmBuf) (s : System) : System :=
  match payload with
  | none => { s with pcm }
  | some p =>
    { s with
      pcm
      sent := s.sent ++ [⟨p, s.pcm.readPcmBufNum, s.written.length⟩]
      since := s.written.length }

/-- How many buffers have been finished. -/
def finished (s : System) : Nat := s.written.length / pcmBufSize

/-- The samples of the buffer that was finished last. -/
def newest (s : System) : List UInt16 :=
  (s.written.drop (pcmBufSize * (s.finished - 1))).take pcmBufSize

end System

/-- Where the first sample of the payload stands among all that were written. -/
def Sent.start (p : Sent) : Nat := pcmBufSize * (p.after / pcmBufSize - 1) + p.readPos.toNat

/-- The payload is a run of samples of the buffer that was finished last when it was sent. -/
structure Sent.Finished (p : Sent) (written : List UInt16) : Prop where
  filled : pcmBufSize ≤ p.after
  past : p.after ≤ written.length
  nonneg : 0 ≤ p.readPos
  inside : p.readPos + p.samples.length ≤ pcmBufSize
  samples : p.samples = (written.drop p.start).take p.samples.length

theorem Sent.Finished.grow {p : Sent} {written : List UInt16} (finished : p.Finished written)
    (more : List UInt16) : p.Finished (written ++ more) := by
  have filled := finished.filled
  have past := finished.past
  have inside := finished.inside
  have nonneg := finished.nonneg
  have room : p.start + p.samples.length ≤ written.length := by
    simp only [Sent.start, pcmBufSize] at *
    omega
  refine ⟨filled, ?_, nonneg, inside, ?_⟩
  · rw [List.length_append]
    exact Nat.le_add_right_of_le past
  · rw [List.drop_append_of_le_length (by omega), List.take_append_of_le_length
      (by rw [List.length_drop]; omega)]
    exact finished.samples

/-! ## What the buffers hold -/

theorem store_data (val : Int) (p : PcmBuf) : (p.store val).data =
    Function.update p.data p.writeBufNum
      (Function.update (p.data p.writeBufNum) p.writePos (UInt16.ofInt val)) := rfl

/-- The fields of the writer and the contents of the buffers, told from the samples written. -/
structure Stored (written : List UInt16) (p : PcmBuf) : Prop where
  writePos : p.writePos = written.length % pcmBufSize
  writeBufNum : p.writeBufNum = written.length / pcmBufSize % pcmBufCount
  recent : ∀ i (inside : i < written.length),
    written.length / pcmBufSize ≤ i / pcmBufSize + 1 →
    p.data (i / pcmBufSize % pcmBufCount : Nat) (i % pcmBufSize : Nat) = written[i]
  readPcmBufNum : p.readPcmBufNum =
    if written.length < pcmBufSize then (-1 : Int)
    else ((written.length / pcmBufSize - 1) % pcmBufCount : Nat)

theorem stored_fresh (data : Int → Int → UInt16) : Stored [] (fresh data) :=
  ⟨rfl, rfl, fun _ inside => absurd inside (Nat.not_lt_zero _), rfl⟩

/-- `Stored` leaves the reader's fields free. -/
theorem Stored.of_eq {written : List UInt16} {p p' : PcmBuf} (stored : Stored written p)
    (writePos : p'.writePos = p.writePos) (writeBufNum : p'.writeBufNum = p.writeBufNum)
    (data : p'.data = p.data) (bufNum : p'.readPcmBufNum = p.readPcmBufNum) :
    Stored written p' := by
  constructor
  · rw [writePos, stored.writePos]
  · rw [writeBufNum, stored.writeBufNum]
  · rw [data]
    exact stored.recent
  · rw [bufNum, stored.readPcmBufNum]

/-- The stored sample is there, and the recent ones stay. -/
theorem Stored.store {written : List UInt16} {p : PcmBuf} (stored : Stored written p) (val : Int)
    (i : Nat) (inside : i < (written ++ [UInt16.ofInt val]).length)
    (recent : written.length / pcmBufSize ≤ i / pcmBufSize + 1) :
    (p.store val).data (i / pcmBufSize % pcmBufCount : Nat) (i % pcmBufSize : Nat) =
      (written ++ [UInt16.ofInt val])[i] := by
  have writePos := stored.writePos
  have writeBufNum := stored.writeBufNum
  rw [List.length_append, List.length_singleton] at inside
  by_cases last : i = written.length
  · subst last
    simp only [PcmBuf.store, writePos, writeBufNum, Function.update_self,
      List.getElem_concat_length]
  · have old : i < written.length := by omega
    rw [List.getElem_append_left old, ← stored.recent i old recent]
    by_cases buffer : i / pcmBufSize % pcmBufCount = p.writeBufNum
    · have elsewhere : i % pcmBufSize ≠ p.writePos := by
        simp only [pcmBufSize, pcmBufCount] at *
        omega
      rw [store_data, buffer, Function.update_self,
        Function.update_of_ne (by exact_mod_cast elsewhere)]
    · rw [store_data, Function.update_of_ne (by exact_mod_cast buffer)]

theorem Stored.write {written : List UInt16} {p : PcmBuf} (stored : Stored written p)
    (val : Int) : Stored (written ++ [UInt16.ofInt val]) (p.write val) := by
  have writePos := stored.writePos
  have writeBufNum := stored.writeBufNum
  have bufNum := stored.readPcmBufNum
  have contents := stored.store val
  have length : (written ++ [UInt16.ofInt val]).length = written.length + 1 := by simp
  by_cases full : pcmBufSize ≤ p.writePos + 1
  · have step : p.write val =
        { p.store val with
          readPos := 0
          readPcmBufNum := p.writeBufNum
          writePos := 0
          writeBufNum := (p.writeBufNum + 1) % pcmBufCount } := if_pos full
    rw [step]
    refine ⟨?_, ?_, fun i inside recent => contents i inside ?_, ?_⟩
    · simp only [length, pcmBufSize] at *
      omega
    · simp only [length, pcmBufSize, pcmBufCount] at *
      omega
    · simp only [length, pcmBufSize] at *
      omega
    · simp only [length, pcmBufSize, pcmBufCount] at *
      rw [if_neg (by omega)]
      congr 1
      omega
  · have step : p.write val = p.store val := if_neg full
    rw [step]
    refine ⟨?_, ?_, fun i inside recent => contents i inside ?_, ?_⟩
    · simp only [PcmBuf.store, length, pcmBufSize] at *
      omega
    · simp only [PcmBuf.store, length, pcmBufSize, pcmBufCount] at *
      omega
    · simp only [length, pcmBufSize] at *
      omega
    · simp only [PcmBuf.store, length, bufNum, pcmBufSize, pcmBufCount] at *
      grind

/-! ## What a payload holds -/

theorem byteSize_toNat {n : Int} (nonneg : 0 ≤ n) (small : n ≤ pcmBufSize) :
    (byteSize n).toNat / 2 = n.toNat := by
  obtain ⟨k, rfl⟩ := Int.eq_ofNat_of_zero_le nonneg
  have double : byteSize k = BitVec.ofNat 32 (k * 2) := by
    rw [byteSize, ← BitVec.ofInt_natCast]
    norm_cast
  rw [double, BitVec.toNat_ofNat]
  simp only [pcmBufSize] at small
  omega

theorem samples_length {n : Int} (nonneg : 0 ≤ n) (small : n ≤ pcmBufSize) (p : PcmBuf)
    (bufNum readPos : Int) : (p.samples bufNum readPos n).length = n.toNat := by
  rw [samples, List.length_map, List.length_range, byteSize_toNat nonneg small]

/-- From the finished buffer, the samples are those that were written into it. -/
theorem Stored.samples {written : List UInt16} {p : PcmBuf} (stored : Stored written p)
    (filled : pcmBufSize ≤ written.length) {readPos n : Int} (nonneg : 0 ≤ readPos)
    (count : 0 ≤ n) (inside : readPos + n ≤ pcmBufSize) :
    p.samples p.readPcmBufNum readPos n = (written.drop
      (pcmBufSize * (written.length / pcmBufSize - 1) + readPos.toNat)).take n.toNat := by
  obtain ⟨r, rfl⟩ := Int.eq_ofNat_of_zero_le nonneg
  obtain ⟨k, rfl⟩ := Int.eq_ofNat_of_zero_le count
  have small : r + k ≤ pcmBufSize := by exact_mod_cast inside
  have bufNum := stored.readPcmBufNum
  rw [if_neg (by omega)] at bufNum
  rw [PcmBuf.samples, byteSize_toNat count (by omega), Int.toNat_natCast, Int.toNat_natCast]
  refine List.ext_getElem ?_ fun i left right => ?_
  · rw [List.length_map, List.length_range, List.length_take, List.length_drop]
    simp only [pcmBufSize] at *
    omega
  · rw [List.length_map, List.length_range] at left
    rw [List.getElem_map, List.getElem_range, List.getElem_take, List.getElem_drop, bufNum]
    have place : pcmBufSize * (written.length / pcmBufSize - 1) + r + i < written.length := by
      simp only [pcmBufSize] at *
      omega
    rw [← stored.recent _ place (by simp only [pcmBufSize] at *; omega)]
    congr 1
    · simp only [pcmBufSize, pcmBufCount] at *
      omega
    · simp only [pcmBufSize] at *
      omega

/-! ## Uninterrupted calls -/

inductive Call where
  | write (val : Int)
  | read (maxCount : Int)

def call : Call → System → Option Payload × System
  | .write val, s => (none, s.push val)
  | .read maxCount, s =>
    let (sent, pcm) := s.pcm.read maxCount
    (sent, s.log sent pcm)

/-- A call of `read` asks for a sample at least. -/
def Call.Asks : Call → Prop
  | .write _ => True
  | .read maxCount => 1 ≤ maxCount

/-- A call of `read` comes after the first buffer is finished. -/
def Call.Filled : Call → System → Prop
  | .write _, _ => True
  | .read _, s => pcmBufSize ≤ s.written.length

/-- What was sent is in order: from the two buffers, runs of finished samples, each behind the
one before. -/
structure System.InOrder (s : System) : Prop where
  indexed : ∀ p ∈ s.sent, p.bufNum = 0 ∨ p.bufNum = 1
  finished : ∀ p ∈ s.sent, p.Finished s.written
  ascending : s.sent.Pairwise fun p q => p.start + p.samples.length ≤ q.start
  ordered : (s.sent.flatMap fun p => p.samples).Sublist s.written

/-- How far the reader has come. -/
def System.frontier (s : System) : Nat :=
  pcmBufSize * (s.finished - 1) + s.pcm.readPos.toNat

/-- What uninterrupted calls keep. -/
structure System.Progress (s : System) : Prop where
  stored : Stored s.written s.pcm
  order : s.InOrder
  nonneg : 0 ≤ s.pcm.readPos
  inside : s.pcm.readPos ≤ pcmBufSize
  early : s.written.length < pcmBufSize → s.pcm.readPos = 0 ∧ s.sent = []
  passed : ∀ p ∈ s.sent, p.start + p.samples.length ≤ s.frontier
  taken : (s.sent.flatMap fun p => p.samples).Sublist (s.written.take s.frontier)

theorem write_readPos (val : Int) (p : PcmBuf) : (p.write val).readPos =
    if pcmBufSize ≤ p.writePos + 1 then 0 else p.readPos := by
  by_cases full : pcmBufSize ≤ p.writePos + 1
  · have step : p.write val =
        { p.store val with
          readPos := 0
          readPcmBufNum := p.writeBufNum
          writePos := 0
          writeBufNum := (p.writeBufNum + 1) % pcmBufCount } := if_pos full
    rw [step, if_pos full]
  · have step : p.write val = p.store val := if_neg full
    rw [step, if_neg full]
    rfl

/-- A sample is written behind all those that the reader has come to. -/
theorem System.frontier_push {s : System} (stored : Stored s.written s.pcm)
    (inside : s.pcm.readPos ≤ pcmBufSize)
    (early : s.written.length < pcmBufSize → s.pcm.readPos = 0) (val : Int) :
    s.frontier ≤ s.written.length ∧ s.frontier ≤ (s.push val).frontier := by
  have writePos := stored.writePos
  have length : (s.push val).written.length = s.written.length + 1 := by simp [System.push]
  have readPos : (s.push val).pcm.readPos =
      if pcmBufSize ≤ s.pcm.writePos + 1 then 0 else s.pcm.readPos := write_readPos val s.pcm
  constructor
  · simp only [System.frontier, System.finished, pcmBufSize] at *
    omega
  · by_cases full : pcmBufSize ≤ s.pcm.writePos + 1
    · rw [if_pos full] at readPos
      simp only [System.frontier, System.finished, length, readPos, pcmBufSize] at *
      omega
    · rw [if_neg full] at readPos
      simp only [System.frontier, System.finished, length, readPos, pcmBufSize] at *
      omega

theorem System.Progress.push {s : System} (progress : s.Progress) (val : Int) :
    (s.push val).Progress := by
  obtain ⟨stored, order, nonneg, inside, early, passed, taken⟩ := progress
  obtain ⟨behind, further⟩ := System.frontier_push stored inside (fun few => (early few).1) val
  have readPos : (s.push val).pcm.readPos =
      if pcmBufSize ≤ s.pcm.writePos + 1 then 0 else s.pcm.readPos := write_readPos val s.pcm
  refine ⟨stored.write val, ⟨order.indexed, ?_, order.ascending, ?_⟩, ?_, ?_, ?_, ?_, ?_⟩
  · intro p sent
    exact (order.finished p sent).grow _
  · exact order.ordered.trans (List.sublist_append_left _ _)
  · rw [readPos]
    split <;> omega
  · rw [readPos]
    split <;> omega
  · intro few
    have fewer : s.written.length < pcmBufSize := by
      simp only [System.push, List.length_append, List.length_singleton] at few
      omega
    refine ⟨?_, (early fewer).2⟩
    rw [readPos, (early fewer).1, ite_self]
  · intro p sent
    exact (passed p sent).trans further
  · have grown : (s.push val).written.take s.frontier = s.written.take s.frontier :=
      List.take_append_of_le_length behind
    refine taken.trans ?_
    rw [← grown]
    exact (List.take_prefix_take_left further).sublist

/-- A call of `read` sends nothing, or the samples from `_readPos` on, and moves behind them. -/
theorem read_cases {p : PcmBuf} (nonneg : 0 ≤ p.readPos) {maxCount : Int} (asks : 1 ≤ maxCount) :
    (pcmBufSize ≤ p.readPos ∧ p.read maxCount = (none, p)) ∨
    ∃ n txPos, 1 ≤ n ∧ p.readPos + n ≤ pcmBufSize ∧
      p.read maxCount =
        (some ⟨p.txPos, p.readPcmBufNum, p.readPos, p.samples p.readPcmBufNum p.readPos n⟩,
          { p with txPos, readPos := p.readPos + n }) := by
  by_cases done : pcmBufSize ≤ p.readPos
  · exact .inl ⟨done, if_pos (.inr done)⟩
  · have some : 1 ≤ count maxCount p.readPos := by
      rw [count]
      omega
    have fits : p.readPos + count maxCount p.readPos ≤ pcmBufSize := by
      rw [count]
      omega
    exact .inr ⟨_, _, some, fits, (if_neg (by omega)).trans (Prod.ext rfl (if_pos rfl))⟩

/-- A payload from the finished buffer is a run of its samples. -/
theorem Stored.payload {written : List UInt16} {p : PcmBuf} (stored : Stored written p)
    (filled : pcmBufSize ≤ written.length) {readPos n : Int} (nonneg : 0 ≤ readPos)
    (count : 0 ≤ n) (inside : readPos + n ≤ pcmBufSize) (txPos : UInt64) (current : Int) :
    Sent.Finished ⟨⟨txPos, p.readPcmBufNum, readPos, p.samples p.readPcmBufNum readPos n⟩, current,
      written.length⟩ written := by
  have length := samples_length count (by omega) p p.readPcmBufNum readPos
  refine ⟨filled, Nat.le_refl _, nonneg, ?_, ?_⟩
  · change readPos + (p.samples p.readPcmBufNum readPos n).length ≤ pcmBufSize
    omega
  · change p.samples p.readPcmBufNum readPos n = List.take (p.samples p.readPcmBufNum readPos n).length _
    rw [length]
    exact stored.samples filled nonneg count inside

theorem Stored.indexed {written : List UInt16} {p : PcmBuf} (stored : Stored written p)
    (filled : pcmBufSize ≤ written.length) : p.readPcmBufNum = 0 ∨ p.readPcmBufNum = 1 := by
  rw [stored.readPcmBufNum, if_neg (by omega)]
  simp only [pcmBufCount]
  omega

theorem System.Progress.read {s : System} (progress : s.Progress) {maxCount : Int}
    (asks : 1 ≤ maxCount) (filled : pcmBufSize ≤ s.written.length) :
    (call (.read maxCount) s).2.Progress := by
  obtain ⟨stored, order, nonneg, inside, early, passed, taken⟩ := progress
  rcases read_cases nonneg asks with ⟨_, read⟩ | ⟨n, txPos, some, fits, read⟩
  · have same : (call (.read maxCount) s).2 = s := by
      rw [call, read]
      rfl
    rw [same]
    exact ⟨stored, order, nonneg, inside, early, passed, taken⟩
  · have count : 0 ≤ n := by omega
    have length := samples_length count (by omega) s.pcm s.pcm.readPcmBufNum s.pcm.readPos
    have finished := stored.payload filled nonneg count fits s.pcm.txPos s.pcm.readPcmBufNum
    have advanced : s.frontier + n.toNat =
        pcmBufSize * (s.finished - 1) + (s.pcm.readPos + n).toNat := by
      rw [System.frontier, Int.toNat_add nonneg count, Nat.add_assoc]
    have room : s.frontier + n.toNat ≤ s.written.length := by
      simp only [System.finished, pcmBufSize] at *
      omega
    have taken' : ((call (.read maxCount) s).2.sent.flatMap fun p => p.samples).Sublist
        (s.written.take (s.frontier + n.toNat)) := by
      rw [call, read, List.take_add]
      change (List.flatMap _ (s.sent ++ [_])).Sublist _
      rw [List.flatMap_append, List.flatMap_singleton]
      refine taken.append ?_
      rw [stored.samples filled nonneg count fits]
      exact List.Sublist.refl _
    have ordered := taken'.trans (List.take_sublist _ _)
    rw [call, read] at taken' ordered ⊢
    constructor
    · exact stored.of_eq rfl rfl rfl rfl
    · refine ⟨?_, ?_, ?_, ordered⟩
      · intro q sent
        rcases List.mem_append.mp sent with old | new
        · exact order.indexed q old
        · rw [List.mem_singleton.mp new]
          exact stored.indexed filled
      · intro q sent
        rcases List.mem_append.mp sent with old | new
        · exact order.finished q old
        · rw [List.mem_singleton.mp new]
          exact finished
      · refine List.pairwise_append.mpr ⟨order.ascending, List.pairwise_singleton _ _, ?_⟩
        intro q old q' new
        rw [List.mem_singleton.mp new]
        exact passed q old
    · exact Int.add_nonneg nonneg count
    · exact fits
    · intro few
      exact absurd filled (Nat.not_le_of_lt few)
    · intro q sent
      change _ ≤ pcmBufSize * (s.finished - 1) + (s.pcm.readPos + n).toNat
      rw [← advanced]
      rcases List.mem_append.mp sent with old | new
      · exact Nat.le_add_right_of_le (passed q old)
      · rw [List.mem_singleton.mp new]
        exact Nat.le_of_eq (congrArg (s.frontier + ·) length)
    · change (List.flatMap _ _).Sublist (s.written.take
        (pcmBufSize * (s.finished - 1) + (s.pcm.readPos + n).toNat))
      rw [← advanced]
      exact taken'

theorem System.Progress.call {s : System} (progress : s.Progress) (c : Call) (asks : c.Asks)
    (filled : c.Filled s) : (call c s).2.Progress := by
  cases c with
  | write val => exact progress.push val
  | read maxCount => exact progress.read asks filled

theorem progress_after (calls : List Call) : ∀ s : System, s.Progress → (∀ c ∈ calls, c.Asks) →
    Admits call Call.Filled calls s → (after call calls s).Progress := by
  induction calls with
  | nil => intro s progress _ _; exact progress
  | cons c rest ih =>
    intro s progress asks filled
    have first := progress.call c (asks c List.mem_cons_self) filled.1
    exact ih _ first (fun c' mem => asks c' (List.mem_cons_of_mem _ mem)) filled.2

theorem init_progress (data : Int → Int → UInt16) : (System.init data).Progress where
  stored := stored_fresh data
  order := ⟨by simp [System.init], by simp [System.init], .nil, List.Sublist.refl _⟩
  nonneg := Int.le_refl 0
  inside := Int.natCast_nonneg _
  early _ := ⟨rfl, rfl⟩
  passed := by simp [System.init]
  taken := List.nil_sublist _

theorem call_sent_mono (c : Call) (s : System) : s.sent ⊆ (call c s).2.sent := by
  cases c with
  | write val => exact List.Subset.refl _
  | read maxCount =>
    rw [call]
    obtain ⟨payload, pcm⟩ := s.pcm.read maxCount
    cases payload with
    | none => exact List.Subset.refl _
    | some payload => exact List.subset_append_left _ _

theorem after_sent_mono (calls : List Call) : ∀ s : System, s.sent ⊆ (after call calls s).sent := by
  induction calls with
  | nil => intro s; exact List.Subset.refl _
  | cons c rest ih => intro s; exact List.Subset.trans (call_sent_mono c s) (ih _)

/-- A call of `read` that comes too early is sent to the buffer -1. -/
theorem early_read {s : System} (progress : s.Progress) (few : s.written.length < pcmBufSize)
    {maxCount : Int} (asks : 1 ≤ maxCount) :
    ∃ p ∈ (call (.read maxCount) s).2.sent, p.bufNum = -1 := by
  have bufNum : s.pcm.readPcmBufNum = -1 := by rw [progress.stored.readPcmBufNum, if_pos few]
  have readPos := (progress.early few).1
  rcases read_cases progress.nonneg asks with ⟨full, _⟩ | ⟨n, txPos, _, _, read⟩
  · rw [readPos, pcmBufSize] at full
    omega
  · rw [call, read]
    exact ⟨_, List.mem_append_right _ (List.mem_singleton_self _), bufNum⟩

theorem filled_of_indexed (calls : List Call) : ∀ s : System, s.Progress →
    (∀ c ∈ calls, c.Asks) → (∀ p ∈ (after call calls s).sent, p.bufNum = 0 ∨ p.bufNum = 1) →
    Admits call Call.Filled calls s := by
  induction calls with
  | nil => intro s _ _ _; trivial
  | cons c rest ih =>
    intro s progress asks indexed
    have first : c.Filled s := by
      cases c with
      | write val => trivial
      | read maxCount =>
        by_contra few
        obtain ⟨p, sent, wrong⟩ := early_read progress (Nat.lt_of_not_le few)
          (asks (.read maxCount) List.mem_cons_self)
        have := indexed p (after_sent_mono rest _ sent)
        omega
    refine ⟨first, ih _ (progress.call c (asks c List.mem_cons_self) first) ?_ indexed⟩
    exact fun c' mem => asks c' (List.mem_cons_of_mem _ mem)

/-- **Uninterrupted calls.** The payloads are runs of finished samples, each behind the one before,
exactly when no call of `read` comes before the first buffer is finished. -/
theorem calls_in_order (data : Int → Int → UInt16) (calls : List Call)
    (asks : ∀ c ∈ calls, c.Asks) :
    (after call calls (System.init data)).InOrder ↔
      Admits call Call.Filled calls (System.init data) := by
  constructor
  · intro order
    exact filled_of_indexed calls _ (init_progress data) asks order.indexed
  · intro filled
    exact (progress_after calls _ (init_progress data) asks filled).order

theorem calls_in_order_one :
    (after call [.write 7, .read 1] (System.init fun _ _ => 0)).InOrder ↔
      Admits call Call.Filled [.write 7, .read 1] (System.init fun _ _ => 0) :=
  calls_in_order (fun _ _ => 0) [.write 7, .read 1] (by simp [Call.Asks])

/-- A new object lets itself be read, from the buffer before the first. -/
theorem fresh_read_outside : ¬ (after call [.read 1] (System.init fun _ _ => 0)).InOrder := by
  intro order
  have outside := order.indexed ⟨⟨0, -1, 0, [0]⟩, -1, 0⟩ (List.mem_singleton_self _)
  revert outside
  decide

/-! ## Writes as interrupts -/

inductive Action where
  | write (val : Int)
  | load (maxCount : Int)
  | next

/-- A call of `read` begins when there is none in progress. -/
def act : Action → System → Option Payload × System
  | .write val, s => (none, s.push val)
  | .load maxCount, s =>
    match s.reader with
    | .idle => (none, { s with reader := s.pcm.load maxCount })
    | _ => (none, s)
  | .next, s =>
    let (sent, pcm, reader) := s.pcm.next s.reader
    (sent, { s.log sent pcm with reader })

/-- What the next step of the call in progress may find: the values that were loaded are still
those of the object when the payload is sent, and no buffer was finished between that and the
store. Neither matters where no sample is asked for. -/
def Undisturbed : Action → System → Prop
  | .next, s =>
    match s.reader with
    | .located maxCount readPos bufNum =>
      0 ≤ maxCount ∧ bufNum = s.pcm.readPcmBufNum ∧ (maxCount = 0 ∨ readPos = s.pcm.readPos)
    | .matched readPos => readPos = 0 ∨ s.since / pcmBufSize = s.finished
    | _ => True
  | _, _ => True

/-- The payloads that were sent since the last buffer was finished. -/
def System.recent (s : System) : List Sent :=
  s.sent.filter fun p => p.after / pcmBufSize = s.finished

/-- The positions that the payload covers. -/
def Sent.positions (p : Sent) : List Nat := List.range' p.readPos.toNat p.samples.length

/-- The samples of the newest buffer that are sent but not yet counted in `_readPos`, because
the call that sent them has not come to its store. -/
def System.inFlight (s : System) : Int :=
  if s.since / pcmBufSize = s.finished then
    match s.reader with
    | .sent _ n => n
    | .matched readPos => readPos - s.pcm.readPos
    | _ => 0
  else 0

/-- Every payload came from the buffer that `_readPos` referred to, and since the newest buffer
was finished its first samples were sent, up to `_readPos`, in order and once. -/
structure System.Faithful (s : System) : Prop where
  taken : ∀ p ∈ s.sent, p.bufNum = p.current ∧ p.Finished s.written
  positions : s.recent.flatMap Sent.positions = List.range (s.pcm.readPos + s.inFlight).toNat
  samples : (s.recent.flatMap fun p => p.samples) =
    s.newest.take (s.pcm.readPos + s.inFlight).toNat

/-- The locals of the call in progress are positions of a buffer. While no buffer was finished
since its payload was sent, `_readPos` is where the payload began. -/
def Reader.Fits (s : System) : Reader → Prop
  | .idle => True
  | .positioned _ readPos => 0 ≤ readPos ∧ readPos < pcmBufSize
  | .located _ readPos _ => 0 ≤ readPos ∧ readPos < pcmBufSize
  | .sent readPos n => 0 ≤ n ∧ 0 ≤ readPos ∧ readPos + n ≤ pcmBufSize ∧
    (s.since / pcmBufSize = s.finished → n = 0 ∨ readPos = s.pcm.readPos) ∧
    (s.since / pcmBufSize ≠ s.finished → s.pcm.readPos = 0)
  | .matched readPos => 0 ≤ readPos ∧ readPos ≤ pcmBufSize ∧
    (s.since / pcmBufSize ≠ s.finished → s.pcm.readPos = 0)

/-- What undisturbed steps keep. -/
structure System.Tracked (s : System) : Prop where
  stored : Stored s.written s.pcm
  filled : pcmBufSize ≤ s.written.length
  nonneg : 0 ≤ s.pcm.readPos
  inside : s.pcm.readPos ≤ pcmBufSize
  faithful : s.Faithful
  since : s.since ≤ s.written.length
  fits : s.reader.Fits s

theorem System.newest_push {s : System} (filled : pcmBufSize ≤ s.written.length) (val : Int)
    (same : (s.push val).finished = s.finished) : (s.push val).newest = s.newest := by
  have room : pcmBufSize * (s.finished - 1) + pcmBufSize ≤ s.written.length := by
    simp only [System.finished, pcmBufSize] at *
    omega
  rw [System.newest, System.newest, same]
  change ((s.written ++ [UInt16.ofInt val]).drop _).take _ = _
  rw [List.drop_append_of_le_length (by omega), List.take_append_of_le_length]
  rw [List.length_drop]
  omega

/-- A sample that finishes no buffer changes nothing for the reader. -/
theorem System.Tracked.push_open {s : System} (tracked : s.Tracked) (val : Int)
    (room : ¬ pcmBufSize ≤ s.pcm.writePos + 1) : (s.push val).Tracked := by
  obtain ⟨stored, filled, nonneg, inside, faithful, since, fits⟩ := tracked
  have writePos := stored.writePos
  have length : (s.push val).written.length = s.written.length + 1 := by simp [System.push]
  have same : (s.push val).finished = s.finished := by
    simp only [System.finished, length, pcmBufSize] at *
    omega
  have readPos : (s.push val).pcm.readPos = s.pcm.readPos :=
    (write_readPos val s.pcm).trans (if_neg room)
  have inFlight : (s.push val).inFlight = s.inFlight := by
    simp only [System.inFlight, same, readPos]
    rfl
  have recent : (s.push val).recent = s.recent := by
    simp only [System.recent, same]
    rfl
  refine ⟨stored.write val, by omega, by omega, by omega, ⟨?_, ?_, ?_⟩, ?_, ?_⟩
  · intro p sent
    exact ⟨(faithful.taken p sent).1, (faithful.taken p sent).2.grow _⟩
  · rw [recent, inFlight, readPos]
    exact faithful.positions
  · rw [recent, inFlight, readPos, System.newest_push filled val same]
    exact faithful.samples
  · change s.since ≤ (s.push val).written.length
    omega
  · change s.reader.Fits (s.push val)
    cases reader : s.reader with
    | idle => trivial
    | positioned maxCount r => rw [reader] at fits; exact fits
    | located maxCount r bufNum => rw [reader] at fits; exact fits
    | sent r n =>
      rw [reader] at fits
      simp only [Reader.Fits, same, readPos] at fits ⊢
      exact fits
    | matched r =>
      rw [reader] at fits
      simp only [Reader.Fits, same, readPos] at fits ⊢
      exact fits

/-- A sample that finishes a buffer leaves nothing of it sent, whatever the call in progress has
done. -/
theorem System.Tracked.push_full {s : System} (tracked : s.Tracked) (val : Int)
    (full : pcmBufSize ≤ s.pcm.writePos + 1) : (s.push val).Tracked := by
  obtain ⟨stored, filled, nonneg, inside, faithful, since, fits⟩ := tracked
  have writePos := stored.writePos
  have length : (s.push val).written.length = s.written.length + 1 := by simp [System.push]
  have more : (s.push val).finished = s.finished + 1 := by
    simp only [System.finished, length, pcmBufSize] at *
    omega
  have readPos : (s.push val).pcm.readPos = 0 := (write_readPos val s.pcm).trans (if_pos full)
  have stale : s.since / pcmBufSize ≠ (s.push val).finished := by
    have := Nat.div_le_div_right (c := pcmBufSize) since
    rw [more, System.finished]
    omega
  have inFlight : (s.push val).inFlight = 0 := if_neg stale
  have recent : (s.push val).recent = [] := by
    refine List.filter_eq_nil_iff.mpr fun p sent => ?_
    have past := Nat.div_le_div_right (c := pcmBufSize) (faithful.taken p sent).2.past
    rw [decide_eq_true_iff, more, System.finished]
    omega
  refine ⟨stored.write val, by omega, by omega, by omega, ⟨?_, ?_, ?_⟩, ?_, ?_⟩
  · intro p sent
    exact ⟨(faithful.taken p sent).1, (faithful.taken p sent).2.grow _⟩
  · rw [recent, inFlight, readPos]
    rfl
  · rw [recent, inFlight, readPos]
    rfl
  · change s.since ≤ (s.push val).written.length
    omega
  · change s.reader.Fits (s.push val)
    cases reader : s.reader with
    | idle => trivial
    | positioned maxCount r => rw [reader] at fits; exact fits
    | located maxCount r bufNum => rw [reader] at fits; exact fits
    | sent r n =>
      rw [reader] at fits
      exact ⟨fits.1, fits.2.1, fits.2.2.1, fun same => absurd same stale, fun _ => readPos⟩
    | matched r =>
      rw [reader] at fits
      exact ⟨fits.1, fits.2.1, fun _ => readPos⟩

/-- What was sent is as faithful while the reader does not touch `_readPos` or its payload. -/
theorem System.Faithful.of_eq {s s' : System} (faithful : s.Faithful) (sent : s'.sent = s.sent)
    (written : s'.written = s.written)
    (reached : s'.pcm.readPos + s'.inFlight = s.pcm.readPos + s.inFlight) : s'.Faithful := by
  have recent : s'.recent = s.recent := by
    rw [System.recent, System.recent, System.finished, System.finished, sent, written]
  constructor
  · rw [sent, written]
    exact faithful.taken
  · rw [recent, reached]
    exact faithful.positions
  · rw [recent, reached, System.newest, System.finished, written]
    exact faithful.samples

theorem System.Tracked.load {s : System} (tracked : s.Tracked) (maxCount : Int) :
    (act (.load maxCount) s).2.Tracked := by
  have whole := tracked
  obtain ⟨stored, filled, nonneg, inside, faithful, since, fits⟩ := tracked
  cases reader : s.reader with
  | idle =>
    have next : (act (.load maxCount) s).2 = { s with reader := s.pcm.load maxCount } := by
      simp only [act, reader]
    rw [next, PcmBuf.load]
    have before : s.inFlight = 0 := by simp only [System.inFlight, reader, ite_self]
    split
    · exact ⟨stored, filled, nonneg, inside, faithful.of_eq rfl rfl (by
        rw [before]; simp only [System.inFlight, ite_self]), since, trivial⟩
    · refine ⟨stored, filled, nonneg, inside, faithful.of_eq rfl rfl (by
        rw [before]; simp only [System.inFlight, ite_self]), since, ?_⟩
      simp only [Reader.Fits]
      omega
  | positioned m r => simpa only [act, reader] using whole
  | located m r bufNum => simpa only [act, reader] using whole
  | sent r n => simpa only [act, reader] using whole
  | matched r => simpa only [act, reader] using whole

/-- A payload that goes on where `_readPos` stands is in flight. -/
theorem System.Faithful.send {s s' : System} (faithful : s.Faithful) (before : s.inFlight = 0)
    {q : Sent} (sent : s'.sent = s.sent ++ [q]) (written : s'.written = s.written)
    (readPos : s'.pcm.readPos = s.pcm.readPos) (inFlight : s'.inFlight = q.samples.length)
    (now : q.after = s.written.length) (current : q.bufNum = q.current)
    (finished : q.Finished s.written) (goes_on : q.samples = [] ∨ q.readPos = s.pcm.readPos) :
    s'.Faithful := by
  have recent : s'.recent = s.recent ++ [q] := by
    rw [System.recent, System.recent, System.finished, System.finished, sent, written,
      List.filter_append, List.filter_cons_of_pos (by rw [now]; exact decide_eq_true rfl),
      List.filter_nil]
  have positions := faithful.positions
  have samples := faithful.samples
  rw [before, Int.add_zero] at positions samples
  have newest : s'.newest = s.newest := by
    rw [System.newest, System.newest, System.finished, System.finished, written]
  constructor
  · intro p mem
    rw [written]
    rcases List.mem_append.mp (sent ▸ mem) with old | new
    · exact faithful.taken p old
    · rw [List.mem_singleton.mp new]
      exact ⟨current, finished⟩
  · rw [recent, readPos, inFlight, List.flatMap_append, positions, List.flatMap_singleton,
      Sent.positions]
    rcases goes_on with none | same
    · rw [none, List.length_nil, List.range'_zero, List.append_nil, Int.natCast_zero, Int.add_zero]
    · have nonneg := same ▸ finished.nonneg
      rw [same, Int.toNat_add nonneg (Int.natCast_nonneg _), Int.toNat_natCast,
        List.range_add, List.range'_eq_map_range]
  · rw [recent, readPos, inFlight, newest, List.flatMap_append, samples, List.flatMap_singleton]
    rcases goes_on with none | same
    · rw [none, List.length_nil, List.append_nil, Int.natCast_zero, Int.add_zero]
    · have nonneg := same ▸ finished.nonneg
      have inside := finished.inside
      rw [Int.toNat_add nonneg (Int.natCast_nonneg _), Int.toNat_natCast, List.take_add]
      refine congrArg _ (finished.samples.trans ?_)
      rw [System.newest, List.drop_take, List.drop_drop, List.take_take,
        Nat.min_eq_left (by omega), Sent.start, now, same]
      rfl

/-- The payload goes out: the samples from `_readPos` on, if any. -/
theorem System.Tracked.send {s : System} (tracked : s.Tracked) {maxCount readPos bufNum : Int}
    (reader : s.reader = .located maxCount readPos bufNum) (asks : 0 ≤ maxCount)
    (located : bufNum = s.pcm.readPcmBufNum) (positioned : maxCount = 0 ∨ readPos = s.pcm.readPos) :
    (act .next s).2.Tracked := by
  obtain ⟨stored, filled, nonneg, inside, faithful, since, fits⟩ := tracked
  rw [reader] at fits
  obtain ⟨low, high⟩ := fits
  subst located
  have count : 0 ≤ count maxCount readPos := by
    rw [PcmBuf.count]
    omega
  have room : readPos + PcmBuf.count maxCount readPos ≤ pcmBufSize := by
    rw [PcmBuf.count]
    omega
  have at_once : PcmBuf.count maxCount readPos = 0 ∨ readPos = s.pcm.readPos := by
    rcases positioned with none | same
    · left
      rw [PcmBuf.count, none]
      omega
    · exact .inr same
  have next : (act .next s).2 =
      { s.log (some (s.pcm.send s.pcm.readPcmBufNum readPos (PcmBuf.count maxCount readPos)).1)
          (s.pcm.send s.pcm.readPcmBufNum readPos (PcmBuf.count maxCount readPos)).2 with
        reader := .sent readPos (PcmBuf.count maxCount readPos) } := by
    simp only [act, reader, PcmBuf.next]
  rw [next]
  generalize PcmBuf.count maxCount readPos = n at count room at_once
  have finished := stored.payload filled low count room s.pcm.txPos s.pcm.readPcmBufNum
  have length := samples_length count (by omega) s.pcm s.pcm.readPcmBufNum readPos
  constructor
  · exact stored.of_eq rfl rfl rfl rfl
  · exact filled
  · exact nonneg
  · exact inside
  · refine faithful.send (by simp only [System.inFlight, reader, ite_self]) rfl rfl rfl ?_ rfl rfl
      finished ?_
    · refine (if_pos rfl).trans ?_
      change n = ((s.pcm.samples s.pcm.readPcmBufNum readPos n).length : Int)
      omega
    · rcases at_once with none | same
      · left
        rw [← List.length_eq_zero_iff]
        change (s.pcm.samples s.pcm.readPcmBufNum readPos n).length = 0
        omega
      · exact .inr same
  · exact Nat.le_refl _
  · refine ⟨count, low, room, fun _ => at_once, fun stale => absurd rfl stale⟩

theorem System.Tracked.next {s : System} (tracked : s.Tracked)
    (undisturbed : Undisturbed .next s) : (act .next s).2.Tracked := by
  have whole := tracked
  obtain ⟨stored, filled, nonneg, inside, faithful, since, fits⟩ := tracked
  cases reader : s.reader with
  | idle =>
    have next : (act .next s).2 = s := by
      obtain ⟨pcm, _, written, sent, since⟩ := s
      subst reader
      rfl
    rw [next]
    exact whole
  | positioned maxCount r =>
    have next : (act .next s).2 =
        { s with reader := .located maxCount r s.pcm.readPcmBufNum } := by
      simp only [act, reader, PcmBuf.next, System.log]
    rw [next]
    rw [reader] at fits
    have before : s.inFlight = 0 := by simp only [System.inFlight, reader, ite_self]
    exact ⟨stored, filled, nonneg, inside, faithful.of_eq rfl rfl (by
      rw [before]; simp only [System.inFlight, ite_self]), since, fits⟩
  | located maxCount r bufNum =>
    simp only [Undisturbed, reader] at undisturbed
    exact whole.send reader undisturbed.1 undisturbed.2.1 undisturbed.2.2
  | sent r n =>
    rw [reader] at fits
    obtain ⟨count, low, room, now, stale⟩ := fits
    have next : (act .next s).2 =
        { s with reader := if r = s.pcm.readPos then .matched (r + n) else .idle } := by
      simp only [act, reader, PcmBuf.next, System.log]
    rw [next]
    by_cases agrees : r = s.pcm.readPos
    · rw [if_pos agrees]
      have moved : System.inFlight { s with reader := .matched (r + n) } = s.inFlight := by
        have ahead : r + n - s.pcm.readPos = n := by omega
        simp only [System.inFlight, reader, ahead]
        rfl
      exact ⟨stored, filled, nonneg, inside, faithful.of_eq rfl rfl (by rw [moved]), since,
        by omega, room, stale⟩
    · rw [if_neg agrees]
      have none : s.inFlight = 0 := by
        simp only [System.inFlight, reader]
        split
        · rename_i same
          exact (now same).resolve_right agrees
        · rfl
      exact ⟨stored, filled, nonneg, inside, faithful.of_eq rfl rfl (by
        rw [none]; simp only [System.inFlight, ite_self]), since, trivial⟩
  | matched r =>
    rw [reader] at fits
    obtain ⟨low, room, stale⟩ := fits
    simp only [Undisturbed, reader] at undisturbed
    have next : (act .next s).2 =
        { s with pcm := { s.pcm with readPos := r }, reader := .idle } := by
      simp only [act, reader, PcmBuf.next, System.log]
    have reached : s.pcm.readPos + s.inFlight = r := by
      simp only [System.inFlight, reader]
      by_cases same : s.since / pcmBufSize = s.finished
      · rw [if_pos same]
        omega
      · rw [if_neg same, stale same, undisturbed.resolve_right same, Int.add_zero]
    rw [next]
    exact ⟨stored.of_eq rfl rfl rfl rfl, filled, low, room, faithful.of_eq rfl rfl (by
      rw [reached]; simp only [System.inFlight, ite_self, Int.add_zero]), since, trivial⟩

theorem System.Tracked.act {s : System} (action : Action) (undisturbed : Undisturbed action s)
    (tracked : s.Tracked) : (act action s).2.Tracked := by
  cases action with
  | write val =>
    by_cases full : pcmBufSize ≤ s.pcm.writePos + 1
    · exact tracked.push_full val full
    · exact tracked.push_open val full
  | load maxCount => exact tracked.load maxCount
  | next => exact tracked.next undisturbed

/-- The object when only samples were written. -/
def filledWith (data : Int → Int → UInt16) (vals : List Int) : System :=
  after act (vals.map .write) (System.init data)

theorem writes_quiet (vals : List Int) : ∀ s : System,
    (after act (vals.map .write) s).reader = s.reader ∧
    (after act (vals.map .write) s).sent = s.sent ∧
    (after act (vals.map .write) s).since = s.since ∧
    (after act (vals.map .write) s).written = s.written ++ vals.map UInt16.ofInt := by
  induction vals with
  | nil => intro s; exact ⟨rfl, rfl, rfl, (List.append_nil _).symm⟩
  | cons val rest ih =>
    intro s
    obtain ⟨reader, sent, since, written⟩ := ih (s.push val)
    refine ⟨reader, sent, since, ?_⟩
    rw [List.map_cons, List.map_cons, List.append_cons]
    exact written

theorem writes_stored (vals : List Int) : ∀ s : System, Stored s.written s.pcm →
    Stored (after act (vals.map .write) s).written (after act (vals.map .write) s).pcm := by
  induction vals with
  | nil => intro s stored; exact stored
  | cons val rest ih => intro s stored; exact ih (s.push val) (stored.write val)

theorem writes_readPos (vals : List Int) : ∀ s : System, s.pcm.readPos = 0 →
    (after act (vals.map .write) s).pcm.readPos = 0 := by
  induction vals with
  | nil => intro s zero; exact zero
  | cons val rest ih =>
    intro s zero
    refine ih (s.push val) ((write_readPos val s.pcm).trans ?_)
    rw [zero, ite_self]

theorem filledWith_tracked (data : Int → Int → UInt16) (vals : List Int)
    (filled : pcmBufSize ≤ vals.length) : (filledWith data vals).Tracked := by
  obtain ⟨reader, sent, since, written⟩ := writes_quiet vals (System.init data)
  have readPos : (filledWith data vals).pcm.readPos = 0 := writes_readPos vals _ rfl
  have none : (filledWith data vals).sent = [] := sent
  have idle : (filledWith data vals).reader = .idle := reader
  have inFlight : (filledWith data vals).inFlight = 0 := by
    simp only [System.inFlight, idle, ite_self]
  have recent : (filledWith data vals).recent = [] := by
    rw [System.recent, none, List.filter_nil]
  refine ⟨writes_stored vals _ (stored_fresh data), ?_, by omega, by omega, ⟨?_, ?_, ?_⟩, ?_, ?_⟩
  · rw [filledWith, written, List.length_append, List.length_map]
    omega
  · intro p mem
    rw [none] at mem
    cases mem
  · rw [recent, readPos, inFlight]
    rfl
  · rw [recent, readPos, inFlight]
    rfl
  · rw [filledWith, since]
    exact Nat.zero_le _
  · rw [idle]
    trivial

/-- **Writes as interrupts.** While no buffer is finished at the wrong moment, every payload is
taken from the buffer that `_readPos` refers to, and the samples of the newest buffer are sent
from the first on. -/
theorem interrupted_reads (data : Int → Int → UInt16) (vals : List Int)
    (filled : pcmBufSize ≤ vals.length) (actions : List Action)
    (undisturbed : Admits act Undisturbed actions (filledWith data vals)) :
    (after act actions (filledWith data vals)).Faithful :=
  (after_invariant (fun action _ guard tracked => System.Tracked.act action guard tracked) actions _
    undisturbed (filledWith_tracked data vals filled)).faithful

/-- A call that is not interrupted is undisturbed. -/
theorem call_undisturbed {s : System} (idle : s.reader = .idle) {maxCount : Int}
    (asks : 0 ≤ maxCount) :
    Admits act Undisturbed [.load maxCount, .next, .next, .next, .next] s := by
  obtain ⟨pcm, reader, written, sent, since⟩ := s
  subst idle
  by_cases outside : pcm.readPos < 0 ∨ pcmBufSize ≤ pcm.readPos
  · have load : pcm.load maxCount = .idle := if_pos outside
    simp only [Admits, act, load, next, Undisturbed, and_self]
  · have load : pcm.load maxCount = .positioned maxCount pcm.readPos := if_neg outside
    simp only [Admits, act, load, next, send, System.log, if_true, Undisturbed]
    exact ⟨trivial, trivial, ⟨asks, trivial, .inr trivial⟩, trivial, .inr rfl, trivial⟩

theorem interrupted_reads_once :
    (after act [.load 1, .next, .next, .next, .next]
      (filledWith (fun _ _ => 0) (List.replicate pcmBufSize 0))).Faithful :=
  interrupted_reads (fun _ _ => 0) (List.replicate pcmBufSize 0)
    (Nat.le_of_eq List.length_replicate.symm) [.load 1, .next, .next, .next, .next]
    (call_undisturbed (writes_quiet _ _).1 (by decide))

/-- A call of `read` for one sample, with the next buffer finished after the payload is sent. -/
def finishedBehind : List Action :=
  [.load 1, .next, .next] ++ (List.replicate pcmBufSize 0).map .write ++ [.next, .next]

/-- The last two steps of a call that finds `_readPos` as it was. -/
theorem call_ends {s : System} {n : Int} (reader : s.reader = .sent s.pcm.readPos n) :
    (act .next (act .next s).2).2 =
      { s with pcm := { s.pcm with readPos := s.pcm.readPos + n }, reader := .idle } := by
  obtain ⟨pcm, r, written, sent, since⟩ := s
  obtain rfl : r = .sent pcm.readPos n := reader
  have found : (if pcm.readPos = pcm.readPos then Reader.matched (pcm.readPos + n) else .idle) =
      .matched (pcm.readPos + n) := if_pos rfl
  exact congrArg (fun r => (act .next (System.mk pcm r written sent since)).2) found

/-- Position 0 of the new buffer passes for position 0 of the old one. -/
theorem finishedBehind_skips {s : System} (idle : s.reader = .idle) (readPos : s.pcm.readPos = 0) :
    (after act finishedBehind s).pcm.readPos = 1 ∧
      (after act finishedBehind s).reader = .idle ∧
      (after act finishedBehind s).written.length = s.written.length + pcmBufSize ∧
      ∃ p, (after act finishedBehind s).sent = s.sent ++ [p] ∧ p.after = s.written.length := by
  have sends : ∃ s' p, after act [.load 1, .next, .next] s = s' ∧ s'.reader = .sent 0 1 ∧
      s'.pcm.readPos = 0 ∧ s'.written = s.written ∧ s'.sent = s.sent ++ [p] ∧
      p.after = s.written.length := by
    obtain ⟨pcm, reader, written, sent, since⟩ := s
    subst idle
    have load : pcm.load 1 = .positioned 1 0 := by
      rw [PcmBuf.load, if_neg]
      · exact congrArg _ readPos
      · rw [show pcm.readPos = 0 from readPos, pcmBufSize]
        omega
    refine ⟨_, ⟨⟨pcm.txPos, pcm.readPcmBufNum, 0, pcm.samples pcm.readPcmBufNum 0 1⟩,
      pcm.readPcmBufNum, written.length⟩, rfl, ?_⟩
    simp only [after_cons, after_nil, act, load, next, send, System.log]
    exact ⟨rfl, readPos, trivial, rfl, trivial⟩
  obtain ⟨s', p, begun, reader, zero, written, sent, now⟩ := sends
  obtain ⟨reader', sent', _, written'⟩ := writes_quiet (List.replicate pcmBufSize 0) s'
  have zero' := writes_readPos (List.replicate pcmBufSize 0) s' zero
  rw [finishedBehind, after_append, after_append, begun]
  generalize after act _ s' = s'' at *
  have ends := call_ends (s := s'') (n := 1) (by rw [reader', reader, zero'])
  rw [after_cons, after_cons, after_nil, ends]
  refine ⟨?_, rfl, ?_, p, sent'.trans sent, now⟩
  · change s''.pcm.readPos + 1 = 1
    rw [zero', Int.zero_add]
  · change s''.written.length = _
    rw [written', written, List.length_append, List.length_map, List.length_replicate]

/-- The first sample of the second buffer is skipped. -/
theorem first_sample_skipped : ¬ (after act finishedBehind
    (filledWith (fun _ _ => 0) (List.replicate pcmBufSize 0))).Faithful := by
  intro faithful
  obtain ⟨reader, sent, _, written⟩ := writes_quiet (List.replicate pcmBufSize 0)
    (System.init fun _ _ => 0)
  have zero := writes_readPos (List.replicate pcmBufSize 0) (System.init fun _ _ => 0) rfl
  obtain ⟨readPos, idle, length, p, one, now⟩ := finishedBehind_skips reader zero
  have full : (after act ((List.replicate pcmBufSize 0).map .write)
      (System.init fun _ _ => 0)).written.length = pcmBufSize := by
    rw [written, List.length_append, List.length_map, List.length_replicate]
    exact Nat.zero_add _
  have positions := faithful.positions
  rw [filledWith, System.recent, System.inFlight, idle, ite_self, readPos, one, sent] at positions
  rw [full] at length now
  have older : ([] ++ [p]).filter (fun q : Sent => q.after / pcmBufSize =
      (after act finishedBehind (after act ((List.replicate pcmBufSize 0).map .write)
        (System.init fun _ _ => 0))).finished) = [] := by
    rw [List.nil_append, List.filter_cons_of_neg, List.filter_nil]
    rw [System.finished, length, now]
    decide
  rw [show (System.init fun _ _ => 0).sent = [] from rfl, older] at positions
  cases positions

end Esp8266.Source.PcmBuf
