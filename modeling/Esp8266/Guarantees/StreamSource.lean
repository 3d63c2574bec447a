import Esp8266.Guarantees.TransmittedStream

/-!
# The data source of a stream

A chunk is fetched into the buffer, offered to lwIP and released as far as lwIP took it. What lwIP
refused is offered again, in chunks of any size, from the buffer and not from the stream.
-/
set_option autoImplicit false

namespace Esp8266.Source
open Esp8266.Lib.Runs

/-- What the stream of a data source has left. -/
def DataSource.unread : DataSource → List UInt8
  | .buffer _ => []
  | .stream ds => ds.stream

/-- A call of `get_buffer`, and the count of `release_buffer` unless `tcp_write` failed. -/
structure ChunkRequest where
  size : Nat
  released : Option Nat

/-- The bytes that were read from the stream, those at the address returned, and those of them that
were released. -/
structure ChunkAnswer where
  fetched : List UInt8
  offered : List (Option UInt8)
  released : List (Option UInt8)

namespace ClientTx

/-- One request; `written` counts what was released. -/
def chunkRequest (r : ChunkRequest) (t : ClientTx) : ChunkAnswer × ClientTx :=
  match t.datasource with
  | none => (⟨[], [], []⟩, t)
  | some source =>
    let (source', block, offset, t') := getBuffer r.size source t
    let fetched := source.unread.take (source.unread.length - source'.unread.length)
    let offered := (List.range r.size).map fun i => t'.memory.read (.within block (offset + i))
    match r.released with
    | none => (⟨fetched, offered, []⟩, { t' with datasource := some source' })
    | some count => (⟨fetched, offered, offered.take count⟩,
        { releaseBuffer count source' t' with written := t.written + count })

/-- A request for bytes that are available, of which no more are released. -/
def Permitted (r : ChunkRequest) (t : ClientTx) : Prop :=
  r.size ≤ t.datasource.elim 0 DataSource.available ∧ ∀ count ∈ r.released, count ≤ r.size

/-- A data source for the first bytes of a stream. -/
def opened (whole : List UInt8) (size : Nat) (memory : Nat → List UInt8) : ClientTx :=
  { fresh false memory with
    datasource := some (.stream ⟨whole, size, 0, none, 0, 0⟩)
    source := whole.take size }

end ClientTx

/-! ## A stream that is longer than its data source -/

/-- A data source whose stream has only the next bytes. -/
def BufferedStreamDataSource.cut (n : Nat) (ds : BufferedStreamDataSource) :
    BufferedStreamDataSource := { ds with stream := ds.stream.take n }

namespace ClientTx

theorem grow_cut (size n : Nat) (ds : BufferedStreamDataSource) (t : ClientTx) :
    grow size (ds.cut n) t = ((grow size ds t).1.cut n, (grow size ds t).2) := by
  unfold grow
  by_cases small : ds.bufferSize < max size ds.streamRead
  · rw [if_pos small]
    exact if_pos small
  · rw [if_neg small]
    exact if_neg small

/-- What lies beyond the bytes that are fetched does not matter. -/
theorem fetch_cut {size n : Nat} {ds : BufferedStreamDataSource} (enough : size - ds.streamRead ≤ n)
    (t : ClientTx) : fetch size (ds.cut n) t =
      ((fetch size ds t).1.cut (n - (size - ds.streamRead)), (fetch size ds t).2) := by
  unfold fetch
  by_cases more : ds.streamRead < size
  · have same : (ds.stream.take n).take (size - ds.streamRead) =
        ds.stream.take (size - ds.streamRead) := by
      rw [List.take_take, Nat.min_eq_left enough]
    have left : (ds.stream.take n).drop (size - ds.streamRead) =
        (ds.stream.drop (size - ds.streamRead)).take (n - (size - ds.streamRead)) := List.drop_take
    rw [if_pos more, if_pos (show (ds.cut n).streamRead < size from more)]
    refine Prod.ext ?_ ?_
    · exact congrArg (fun stream => { ds with
        stream
        streamPos := ds.streamPos + (size - ds.streamRead) }) left
    · let stored (read : List UInt8) : List UInt8 := (ds.contents t.memory).take ds.streamRead ++
        read ++ (ds.contents t.memory).drop (ds.streamRead + read.length)
      exact congrArg (fun read => { t with memory := ds.put (some (stored read)) t.memory }) same
  · rw [if_neg more, if_neg (show ¬(ds.cut n).streamRead < size from more),
      Nat.sub_eq_zero_of_le (Nat.not_lt.1 more), Nat.sub_zero]

theorem grow_keeps (size : Nat) (ds : BufferedStreamDataSource) (t : ClientTx) :
    ∃ buffer bufferSize, (grow size ds t).1 = { ds with buffer, bufferSize } := by
  by_cases small : ds.bufferSize < max size ds.streamRead
  · exact ⟨_, _, by rw [grow, if_pos small]⟩
  · exact ⟨_, _, by rw [grow, if_neg small]⟩

/-- `get_buffer` takes from the stream what is not in the buffer. -/
theorem fetched_stream (size : Nat) (ds : BufferedStreamDataSource) (t : ClientTx) :
    let ds' := (fetch size (grow size ds t).1 (grow size ds t).2).1
    ds'.stream = ds.stream.drop (size - ds.streamRead) ∧
      ds'.streamPos = ds.streamPos + (size - ds.streamRead) ∧ ds'.pos = ds.pos ∧
      ds'.size = ds.size := by
  obtain ⟨buffer, bufferSize, grown⟩ := grow_keeps size ds t
  rw [grown]
  by_cases more : ds.streamRead < size
  · rw [fetch, if_pos (show ({ ds with buffer, bufferSize } : BufferedStreamDataSource).streamRead <
      size from more)]
    exact ⟨rfl, rfl, rfl, rfl⟩
  · rw [fetch, if_neg (show ¬({ ds with buffer, bufferSize } : BufferedStreamDataSource).streamRead <
      size from more)]
    have none : size - ds.streamRead = 0 := Nat.sub_eq_zero_of_le (Nat.not_lt.1 more)
    rw [none]
    exact ⟨rfl, rfl, rfl, rfl⟩

theorem releaseBuffer_cut (count n : Nat) (ds : BufferedStreamDataSource) (t : ClientTx) :
    releaseBuffer count (.stream ds) t = { t with
      memory := (releaseBuffer count (.stream (ds.cut n)) t).memory
      datasource := some (.stream { ds with pos := ds.pos + count }) } := by
  by_cases more : ds.pos + count < ds.streamPos
  · simp only [releaseBuffer, if_pos more]
    rw [if_pos (show (ds.cut n).pos + count < (ds.cut n).streamPos from more)]
    rfl
  · simp only [releaseBuffer, if_neg more]
    rw [if_neg (show ¬(ds.cut n).pos + count < (ds.cut n).streamPos from more)]

/-! ## Requests -/

/-- The data source keeps its place in the stream. -/
structure Tracks (whole : List UInt8) (size : Nat) (t : ClientTx)
    (ds : BufferedStreamDataSource) : Prop where
  datasource : t.datasource = some (.stream ds)
  source : t.source = whole.take size
  stream : ds.stream = whole.drop ds.streamPos
  unused : Unused t.allocated t.memory
  buffered : Buffered t.source t.written t.memory t.allocated (ds.cut (size - ds.streamPos))

theorem opened_tracks {whole : List UInt8} {size : Nat} (enough : size ≤ whole.length)
    (memory : Nat → List UInt8) :
    Tracks whole size (opened whole size memory) ⟨whole, size, 0, none, 0, 0⟩ := by
  refine ⟨rfl, rfl, rfl, fun _ _ => rfl, ?_, rfl, Nat.le_refl 0, Nat.zero_le size, rfl, rfl,
    Nat.le_refl 0, rfl, fun _ none => absurd none (Option.some_ne_none _).symm⟩
  exact (List.length_take_of_le enough).symm

theorem Tracks.size_eq {whole : List UInt8} {size : Nat} (enough : size ≤ whole.length)
    {t : ClientTx} {ds : BufferedStreamDataSource} (tracks : Tracks whole size t ds) :
    ds.size = size := by
  have cut := tracks.buffered.size_eq
  rw [tracks.source, List.length_take_of_le enough] at cut
  exact cut

/-- The buffer after `get_buffer`. -/
theorem Tracks.got {whole : List UInt8} {size : Nat} (enough : size ≤ whole.length) {t : ClientTx}
    {ds : BufferedStreamDataSource} (tracks : Tracks whole size t ds) {n : Nat}
    (available : n ≤ ds.size - ds.pos) :
    ∃ ds' memory allocated,
      getBuffer n (.stream ds) t =
        (.stream ds', .heap (ds'.buffer.getD 0), 0, { t with memory, allocated }) ∧
      Tracks whole size { t with memory, allocated, datasource := some (.stream ds') } ds' ∧
      n ≤ ds'.streamRead ∧ ds'.pos = ds.pos ∧ ds.streamPos ≤ ds'.streamPos := by
  have size_eq : ds.size = size := tracks.size_eq enough
  have behind : ds.pos ≤ ds.streamPos := tracks.buffered.behind
  obtain ⟨ds'', memory, allocated, cut, offered⟩ :=
    stream_offered tracks.buffered tracks.unused available
  have few : n - ds.streamRead ≤ size - ds.streamPos := by
    unfold BufferedStreamDataSource.streamRead
    omega
  have same : (grow n ds t).1.streamRead = ds.streamRead := by
    obtain ⟨buffer, bufferSize, grown⟩ := grow_keeps n ds t
    rw [grown]
    rfl
  rw [grow_cut, fetch_cut (by rw [same]; exact few), same] at cut
  obtain ⟨stream, streamPos, pos, -⟩ := fetched_stream n ds t
  have got : getBuffer n (.stream ds) t = (.stream (fetch n (grow n ds t).1 (grow n ds t).2).1,
      .heap ((fetch n (grow n ds t).1 (grow n ds t).2).1.buffer.getD 0), 0,
      (fetch n (grow n ds t).1 (grow n ds t).2).2) := rfl
  generalize fetch n (grow n ds t).1 (grow n ds t).2 = fetched at *
  obtain ⟨ds', t'⟩ := fetched
  obtain ⟨rfl, rfl⟩ := Prod.mk.inj cut
  have left : size - ds.streamPos - (n - ds.streamRead) = size - ds'.streamPos := by
    rw [streamPos]
    omega
  refine ⟨ds', memory, allocated, got, ⟨rfl, tracks.source, ?_, offered.unused, ?_⟩, ?_, pos, ?_⟩
  · rw [stream, tracks.stream, List.drop_drop, streamPos]
  · rw [← left]
    exact offered.buffered
  · exact Nat.le_trans (Nat.le_max_left _ _) (Nat.le_of_eq offered.read_eq.symm)
  · rw [streamPos]
    exact Nat.le_add_right _ _

/-- One request offers the next bytes of the stream, and its release passes as many of them on. -/
theorem chunkRequest_tracks {whole : List UInt8} {size : Nat} (enough : size ≤ whole.length)
    {t : ClientTx} {ds : BufferedStreamDataSource} (tracks : Tracks whole size t ds)
    {r : ChunkRequest} (permitted : Permitted r t) :
    (chunkRequest r t).1.offered = ((whole.drop ds.pos).take r.size).map some ∧
      ∃ ds', Tracks whole size (chunkRequest r t).2 ds' ∧ ds.pos ≤ ds'.pos ∧
        ds.streamPos ≤ ds'.streamPos ∧
        (chunkRequest r t).1.released = ((whole.drop ds.pos).take (ds'.pos - ds.pos)).map some ∧
        (chunkRequest r t).1.fetched =
          (whole.drop ds.streamPos).take (ds'.streamPos - ds.streamPos) := by
  obtain ⟨available, most⟩ := permitted
  rw [tracks.datasource] at available
  obtain ⟨ds', memory, allocated, got, tracks', read, pos, more⟩ := tracks.got enough available
  have written : t.written = ds.pos := tracks.buffered.pos_eq.symm
  have size_eq : ds.size = size := tracks.size_eq enough
  have within : ds'.streamPos ≤ size := by
    rw [← tracks'.size_eq enough]
    exact tracks'.buffered.within
  have offers := offers_stream tracks'.buffered read
  have offered : ((List.range r.size).map fun i =>
      memory.read (.within (.heap (ds'.buffer.getD 0)) (0 + i))) =
        ((whole.drop ds.pos).take r.size).map some := by
    refine List.ext_getElem? fun i => ?_
    rw [List.getElem?_map, List.getElem?_map]
    by_cases few : i < r.size
    · have left : r.size ≤ ds.size - ds.pos := available
      have byte : memory.read (.within (.heap (ds'.buffer.getD 0)) (0 + i)) =
          (whole.take size)[ds.pos + i]? := by
        rw [← tracks.source, ← written]
        exact offers i few
      rw [List.getElem?_range few, Option.map_some, byte, List.getElem?_take_of_lt few,
        List.getElem?_take_of_lt (by omega), List.getElem?_drop,
        List.getElem?_eq_getElem (by omega),
        Option.map_some]
    · rw [List.getElem?_eq_none (by rw [List.length_range]; omega),
        List.getElem?_eq_none (by rw [List.length_take]; omega), Option.map_none, Option.map_none]
  have fetched : ds.stream.take (ds.stream.length - ds'.stream.length) =
      (whole.drop ds.streamPos).take (ds'.streamPos - ds.streamPos) := by
    rw [tracks.stream, tracks'.stream, List.length_drop, List.length_drop]
    congr 1
    omega
  cases released : r.released with
  | none =>
    have result : chunkRequest r t = (⟨ds.stream.take (ds.stream.length - ds'.stream.length),
        (List.range r.size).map fun i =>
          memory.read (.within (.heap (ds'.buffer.getD 0)) (0 + i)), []⟩,
        { t with memory, allocated, datasource := some (.stream ds') }) := by
      simp only [chunkRequest, tracks.datasource, got, released, DataSource.unread]
    rw [result, offered, fetched]
    refine ⟨rfl, ds', tracks', Nat.le_of_eq pos.symm, more, ?_, rfl⟩
    rw [pos, Nat.sub_self, List.take_zero, List.map_nil]
  | some count =>
    have result : chunkRequest r t = (⟨ds.stream.take (ds.stream.length - ds'.stream.length),
        (List.range r.size).map fun i =>
          memory.read (.within (.heap (ds'.buffer.getD 0)) (0 + i)),
        ((List.range r.size).map fun i =>
          memory.read (.within (.heap (ds'.buffer.getD 0)) (0 + i))).take count⟩,
        { releaseBuffer count (.stream ds') { t with memory, allocated } with
          written := t.written + count }) := by
      simp only [chunkRequest, tracks.datasource, got, released, DataSource.unread]
    have few : count ≤ r.size := most count released
    obtain ⟨memory', moved, buffered, unused, -⟩ := release_stream
      (t := { t with memory, allocated }) tracks'.buffered tracks'.unused
      (Nat.le_trans few read)
    rw [result, offered, fetched, releaseBuffer_cut count (size - ds'.streamPos), moved]
    refine ⟨rfl, { ds' with pos := ds'.pos + count },
      ⟨rfl, tracks.source, tracks'.stream, unused, buffered⟩, ?_, more, ?_, rfl⟩
    · rw [← pos]
      exact Nat.le_add_right _ _
    · change (List.map some _).take count = List.map some (List.take (ds'.pos + count - ds.pos) _)
      rw [pos, Nat.add_sub_cancel_left, ← List.map_take, List.take_take, Nat.min_eq_left few]

/-- Segments of a list that follow each other. -/
theorem segment_append {α : Type*} (l : List α) {a b c : Nat} (ab : a ≤ b) (bc : b ≤ c) :
    (l.drop a).take (b - a) ++ (l.drop b).take (c - b) = (l.drop a).take (c - a) := by
  have split : c - a = b - a + (c - b) := by omega
  rw [split, List.take_add, List.drop_drop, Nat.add_sub_of_le ab]

/-- After any requests the stream has been read once up to the end of the buffer, what was released
is its beginning, and the next request offers the bytes behind that. -/
theorem stream_source_tracks {whole : List UInt8} {size : Nat} (enough : size ≤ whole.length)
    (memory : Nat → List UInt8) (requests : List ChunkRequest)
    (admits : Admits chunkRequest Permitted requests (opened whole size memory)) :
    ∃ ds, (after chunkRequest requests (opened whole size memory)).datasource =
        some (.stream ds) ∧ ds.pos ≤ ds.streamPos ∧ ds.streamPos ≤ size ∧
      (run chunkRequest requests (opened whole size memory)).1.flatMap ChunkAnswer.released =
        (whole.take ds.pos).map some ∧
      (run chunkRequest requests (opened whole size memory)).1.flatMap ChunkAnswer.fetched =
        whole.take ds.streamPos ∧ ds.stream = whole.drop ds.streamPos ∧
      ∀ r, Permitted r (after chunkRequest requests (opened whole size memory)) →
        (chunkRequest r (after chunkRequest requests (opened whole size memory))).1.offered =
          ((whole.drop ds.pos).take r.size).map some := by
  have runs : ∀ (requests : List ChunkRequest) (t : ClientTx) (ds : BufferedStreamDataSource),
      Tracks whole size t ds → Admits chunkRequest Permitted requests t →
      ∃ ds', Tracks whole size (after chunkRequest requests t) ds' ∧ ds.pos ≤ ds'.pos ∧
        ds.streamPos ≤ ds'.streamPos ∧
        (run chunkRequest requests t).1.flatMap ChunkAnswer.released =
          ((whole.drop ds.pos).take (ds'.pos - ds.pos)).map some ∧
        (run chunkRequest requests t).1.flatMap ChunkAnswer.fetched =
          (whole.drop ds.streamPos).take (ds'.streamPos - ds.streamPos) := by
    intro requests
    induction requests with
    | nil =>
      intro t ds tracks _
      refine ⟨ds, tracks, Nat.le_refl _, Nat.le_refl _, ?_, ?_⟩
      · rw [Nat.sub_self, List.take_zero]
        rfl
      · rw [Nat.sub_self, List.take_zero]
        rfl
    | cons r rest ih =>
      intro t ds tracks admits
      obtain ⟨-, ds', tracks', pos, streamPos, released, fetched⟩ :=
        chunkRequest_tracks enough tracks admits.1
      obtain ⟨ds'', tracks'', pos', streamPos', released', fetched'⟩ :=
        ih _ ds' tracks' admits.2
      refine ⟨ds'', tracks'', Nat.le_trans pos pos', Nat.le_trans streamPos streamPos', ?_, ?_⟩
      · rw [← segment_append whole pos pos', List.map_append, ← released, ← released']
        rfl
      · rw [← segment_append whole streamPos streamPos', ← fetched, ← fetched']
        rfl
  obtain ⟨ds, tracks, -, -, released, fetched⟩ :=
    runs requests _ _ (opened_tracks enough memory) admits
  refine ⟨ds, tracks.datasource, tracks.buffered.behind, ?_, released, fetched, tracks.stream,
    fun r permitted => (chunkRequest_tracks enough tracks permitted).1⟩
  rw [← tracks.size_eq enough]
  exact tracks.buffered.within

/-- Three bytes that lwIP refuses, then one of two, then the rest. -/
theorem stream_source_tracks_retry : ∃ ds,
    (after chunkRequest [⟨3, none⟩, ⟨2, some 1⟩, ⟨3, some 3⟩]
      (opened [1, 2, 3, 4, 5] 4 fun _ => [])).datasource = some (.stream ds) ∧
        ds.stream = [1, 2, 3, 4, 5].drop ds.streamPos := by
  obtain ⟨ds, there, -, -, -, -, left, -⟩ := stream_source_tracks
    (show 4 ≤ [1, 2, 3, 4, 5].length by decide) (fun _ => []) [⟨3, none⟩, ⟨2, some 1⟩, ⟨3, some 3⟩]
    ⟨⟨by decide, by simp⟩, ⟨by decide, by simp⟩, ⟨by decide, by simp⟩, trivial⟩
  exact ⟨ds, there, left⟩

end ClientTx
end Esp8266.Source
