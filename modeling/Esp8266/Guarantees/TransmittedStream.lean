import Esp8266.Source.ClientWrites
import Esp8266.Lib.Runs

/-!
# What a TCP connection transmits

A call of `write` that returns `k` has passed the first `k` bytes of its source to lwIP, in order.
What lwIP sends later is the source as long as the memory that it refers to stays as it is. In
sync mode nothing is copied, and that memory is the buffer of a stream, refilled for the next
chunk and deleted at the end of the call, or memory of the caller, who has it back when the wait
for acknowledgements gives up.
-/
set_option autoImplicit false

namespace Esp8266.Source
open Esp8266.Lib.Runs

namespace ClientTx

/-- What lwIP sends, whenever it does, is the source. -/
def Faithful (t : ClientTx) : Prop := ∀ u ∈ t.queue, t.memory.read u.held = some u.source

/-- lwIP holds an unacknowledged byte in a block. -/
def Refers (t : ClientTx) (block : Block) : Prop :=
  ∃ u ∈ t.queue, ∃ offset, u.held = .within block offset

/-- lwIP holds an unacknowledged byte in the buffer of a stream. -/
def RefersTo (t : ClientTx) (ds : BufferedStreamDataSource) : Prop :=
  ∃ index, ds.buffer = some index ∧ t.Refers (.heap index)

/-- The memory that an action writes or frees holds no unacknowledged byte of lwIP: memory that
the caller uses, the buffer of a stream that is refilled, moved to the front after a partial
write, or deleted. -/
def Safe (action : TxAction) (t : ClientTx) : Prop :=
  match action, t.phase, t.datasource with
  | .store block _, .idle, _ => ¬t.Refers (.caller block)
  | .round closed sndbuf ok, .writeSome, some (.stream ds) =>
    t.pcb = true → closed = false →
      (ds.streamRead < min sndbuf (ds.size - ds.pos) → ¬t.RefersTo ds) ∧
      (min sndbuf (ds.size - ds.pos) ≠ 0 → ok = true →
        min sndbuf (ds.size - ds.pos) < ds.streamRead → t.sync = false ∧ ¬t.RefersTo ds)
  | .test timeout closed, .written, some (.stream ds) =>
    ds.size - ds.pos = 0 ∨ timeout = true ∨ closed = true ∨ t.pcb = false → ¬t.RefersTo ds
  | _, _, _ => True

/-! ## The data sources -/

/-- The data source yields the rest of what the call was given. -/
structure Buffered (source : List UInt8) (written : Nat) (memory : Memory) (allocated : Nat)
    (ds : BufferedStreamDataSource) : Prop where
  size_eq : ds.size = source.length
  pos_eq : ds.pos = written
  behind : ds.pos ≤ ds.streamPos
  within : ds.streamPos ≤ ds.size
  stream_eq : ds.stream = source.drop ds.streamPos
  room : (ds.contents memory).length = ds.bufferSize
  kept : ds.streamRead ≤ ds.bufferSize
  held : (ds.contents memory).take ds.streamRead = (source.drop written).take ds.streamRead
  owned : ∀ index, ds.buffer = some index → index < allocated ∧ (memory (.heap index)).isSome

/-- Memory stays as it is outside of the buffer of a data source, where it is in use. -/
def Frame (ds : BufferedStreamDataSource) (memory memory' : Memory) : Prop :=
  ∀ block bytes, memory block = some bytes → (∀ index, ds.buffer = some index →
    block ≠ .heap index) → memory' block = some bytes

theorem Frame.rfl {ds : BufferedStreamDataSource} {memory : Memory} : Frame ds memory memory :=
  fun _ _ same _ => same

/-- Heap blocks that have not been in use are not allocated. -/
def Unused (allocated : Nat) (memory : Memory) : Prop :=
  ∀ index, allocated ≤ index → memory (.heap index) = none

theorem put_apply {ds : BufferedStreamDataSource} (value : Option (List UInt8)) (memory : Memory)
    (block : Block) : ds.put value memory block =
      if ds.buffer.map Block.heap = some block then value else memory block := by
  unfold BufferedStreamDataSource.put
  cases ds.buffer with
  | none => simp
  | some index => simp [Function.update_apply, eq_comm]

theorem put_frame (value : Option (List UInt8)) (memory : Memory)
    (ds : BufferedStreamDataSource) : Frame ds memory (ds.put value memory) := by
  intro block old same other
  rw [put_apply, if_neg, same]
  intro own
  obtain ⟨index, buffer, rfl⟩ := Option.map_eq_some_iff.1 own
  exact other index buffer rfl

theorem contents_eq (memory : Memory) (ds : BufferedStreamDataSource) :
    ds.contents memory = ((ds.buffer.map Block.heap).bind memory).getD [] := by
  unfold BufferedStreamDataSource.contents
  cases ds.buffer <;> rfl

theorem contents_put (bytes : List UInt8) (memory : Memory) {ds : BufferedStreamDataSource}
    (there : ds.buffer ≠ none) : ds.contents (ds.put (some bytes) memory) = bytes := by
  obtain ⟨index, buffer⟩ := Option.ne_none_iff_exists'.1 there
  rw [contents_eq, buffer]
  simp [put_apply, buffer]

theorem put_unused {value : Option (List UInt8)} {memory : Memory}
    {ds : BufferedStreamDataSource} {allocated : Nat} (unused : Unused allocated memory)
    (owned : ∀ index, ds.buffer = some index → index < allocated) :
    Unused allocated (ds.put value memory) := by
  intro index above
  rw [put_apply, if_neg, unused index above]
  intro own
  obtain ⟨index', buffer, same⟩ := Option.map_eq_some_iff.1 own
  cases same
  have below := owned index buffer
  omega

theorem contents_some {ds : BufferedStreamDataSource} {memory : Memory} {index : Nat}
    {bytes : List UInt8} (buffer : ds.buffer = some index)
    (there : memory (.heap index) = some bytes) : ds.contents memory = bytes := by
  rw [contents_eq, buffer]
  simp [there]

/-- A new buffer keeps what was read and not released. -/
theorem grow_new {t : ClientTx} {ds : BufferedStreamDataSource} {size : Nat}
    (buffered : Buffered t.source t.written t.memory t.allocated ds)
    (unused : Unused t.allocated t.memory) (small : ds.bufferSize < max size ds.streamRead) :
    ∃ memory, grow size ds t =
        ({ ds with buffer := some t.allocated, bufferSize := max size ds.streamRead },
          { t with memory, allocated := t.allocated + 1 }) ∧
      Buffered t.source t.written memory (t.allocated + 1)
        { ds with buffer := some t.allocated, bufferSize := max size ds.streamRead } ∧
      Unused (t.allocated + 1) memory ∧ Frame ds t.memory memory := by
  have room := buffered.kept
  obtain ⟨kept, kept_eq⟩ : ∃ kept, kept = (ds.contents t.memory).take ds.streamRead := ⟨_, rfl⟩
  have length : kept.length = ds.streamRead := by
    rw [kept_eq, List.length_take, buffered.room]
    omega
  have held : kept = (t.source.drop t.written).take ds.streamRead := kept_eq.trans buffered.held
  refine ⟨_, by rw [grow, if_pos small, ← kept_eq], ?_, ?_, ?_⟩
  · have contents := contents_some (show { ds with
        buffer := some t.allocated
        bufferSize := max size ds.streamRead }.buffer = some t.allocated from rfl)
      (Function.update_self (Block.heap t.allocated)
        (some (kept ++ List.replicate (max size ds.streamRead - kept.length) 0))
        (ds.put none t.memory))
    refine ⟨buffered.size_eq, buffered.pos_eq, buffered.behind, buffered.within,
      buffered.stream_eq, ?_, Nat.le_max_right _ _, ?_, ?_⟩
    · rw [contents, List.length_append, List.length_replicate, length]
      exact Nat.add_sub_of_le (Nat.le_max_right _ _)
    · rw [contents]
      change (kept ++ _).take ds.streamRead = (t.source.drop t.written).take ds.streamRead
      rw [List.take_append_of_le_length (Nat.le_of_eq length.symm), held, List.take_take,
        Nat.min_self]
    · intro index same
      cases same
      exact ⟨Nat.lt_succ_self _, by rw [Function.update_self]; rfl⟩
  · intro index above
    have other : Block.heap index ≠ .heap t.allocated := by
      intro same
      cases same
      omega
    rw [Function.update_of_ne other]
    exact put_unused unused (fun own buffer => (buffered.owned own buffer).1) index (by omega)
  · intro block bytes same other
    have used : block ≠ .heap t.allocated := by
      rintro rfl
      rw [unused _ (Nat.le_refl _)] at same
      cases same
    rw [Function.update_of_ne used]
    exact put_frame _ _ _ block bytes same other

/-- A fetch puts the next bytes of the stream behind those in the buffer. -/
theorem fetch_more {t : ClientTx} {ds : BufferedStreamDataSource} {size : Nat}
    (buffered : Buffered t.source t.written t.memory t.allocated ds)
    (unused : Unused t.allocated t.memory) (more : ds.streamRead < size)
    (room : size ≤ ds.bufferSize) (available : size ≤ ds.size - ds.pos) :
    ∃ memory, fetch size ds t =
        ({ ds with
            stream := ds.stream.drop (size - ds.streamRead)
            streamPos := ds.streamPos + (size - ds.streamRead) }, { t with memory }) ∧
      Buffered t.source t.written memory t.allocated { ds with
        stream := ds.stream.drop (size - ds.streamRead)
        streamPos := ds.streamPos + (size - ds.streamRead) } ∧
      Unused t.allocated memory ∧ Frame ds t.memory memory := by
  have behind := buffered.behind
  have size_eq := buffered.size_eq
  have capacity := buffered.room
  have there : ds.buffer ≠ none := by
    intro none
    rw [contents_eq, none] at capacity
    simp at capacity
    omega
  have old : ((ds.contents t.memory).take ds.streamRead).length = ds.streamRead := by
    rw [List.length_take, capacity]
    omega
  have new : (ds.stream.take (size - ds.streamRead)).length = size - ds.streamRead := by
    rw [List.length_take, buffered.stream_eq, List.length_drop]
    unfold BufferedStreamDataSource.streamRead at *
    omega
  have read : size = ds.streamPos + (size - ds.streamRead) - ds.pos := by
    unfold BufferedStreamDataSource.streamRead at *
    omega
  have held : (ds.contents t.memory).take ds.streamRead ++
      ds.stream.take (size - ds.streamRead) = (t.source.drop t.written).take size := by
    have reached : t.source.drop ds.streamPos =
        (t.source.drop t.written).drop ds.streamRead := by
      rw [List.drop_drop, ← buffered.pos_eq, BufferedStreamDataSource.streamRead]
      congr 1
      omega
    rw [buffered.held, buffered.stream_eq, reached, ← List.take_add,
      Nat.add_sub_of_le (Nat.le_of_lt more)]
  have size_held : ((t.source.drop t.written).take size).length = size := by
    rw [← held, List.length_append, old, new]
    omega
  refine ⟨_, by rw [fetch, if_pos more], ?_, ?_, put_frame _ _ _⟩
  · have contents := contents_put ((ds.contents t.memory).take ds.streamRead ++
      ds.stream.take (size - ds.streamRead) ++ (ds.contents t.memory).drop
        (ds.streamRead + (ds.stream.take (size - ds.streamRead)).length)) t.memory there
    refine ⟨size_eq, buffered.pos_eq, Nat.le_add_right_of_le behind, ?_, ?_, ?_, ?_, ?_, ?_⟩
    · change ds.streamPos + (size - ds.streamRead) ≤ ds.size
      have within := buffered.within
      omega
    · change ds.stream.drop _ = _
      rw [buffered.stream_eq, List.drop_drop]
    · refine (congrArg List.length contents).trans ?_
      rw [List.length_append, List.length_append, old, new, List.length_drop, capacity]
      change _ = ds.bufferSize
      omega
    · change ds.streamPos + (size - ds.streamRead) - ds.pos ≤ ds.bufferSize
      omega
    · change (ds.contents _).take (ds.streamPos + (size - ds.streamRead) - ds.pos) =
        (t.source.drop t.written).take (ds.streamPos + (size - ds.streamRead) - ds.pos)
      rw [contents, ← read, held, List.take_append_of_le_length (Nat.le_of_eq size_held.symm),
        List.take_take, Nat.min_self]
    · intro index buffer
      obtain ⟨below, -⟩ := buffered.owned index buffer
      refine ⟨below, ?_⟩
      rw [put_apply, if_pos (by rw [show ds.buffer = some index from buffer]; rfl)]
      rfl
  · exact put_unused unused fun own buffer => (buffered.owned own buffer).1

/-- What `get_buffer` of a stream does: its buffer begins with the next bytes of the source, and
the memory in use outside of the old buffer is as it was. Bytes read before are not fetched. -/
structure Offered (size : Nat) (t : ClientTx) (ds ds' : BufferedStreamDataSource)
    (memory : Memory) (allocated : Nat) : Prop where
  buffered : Buffered t.source t.written memory allocated ds'
  unused : Unused allocated memory
  read_eq : ds'.streamRead = max size ds.streamRead
  still : size ≤ ds.streamRead → ds' = ds
  frame : ∀ block bytes, t.memory block = some bytes →
    (ds.streamRead < size → ∀ index, ds.buffer = some index → block ≠ .heap index) →
      memory block = some bytes
  moved : ∀ index, ds'.buffer = some index →
    ds.buffer = some index ∨ t.memory (.heap index) = none

theorem stream_offered {t : ClientTx} {ds : BufferedStreamDataSource} {size : Nat}
    (buffered : Buffered t.source t.written t.memory t.allocated ds)
    (unused : Unused t.allocated t.memory) (available : size ≤ ds.size - ds.pos) :
    ∃ ds' memory allocated,
      fetch size (grow size ds t).1 (grow size ds t).2 = (ds', { t with memory, allocated }) ∧
        Offered size t ds ds' memory allocated := by
  have kept := buffered.kept
  have read (ds' : BufferedStreamDataSource) (more : ds.streamRead < size)
      (same : ds'.streamPos = ds.streamPos + (size - ds.streamRead) ∧ ds'.pos = ds.pos) :
      ds'.streamRead = max size ds.streamRead := by
    have behind := buffered.behind
    unfold BufferedStreamDataSource.streamRead at *
    omega
  by_cases more : ds.streamRead < size
  · by_cases small : ds.bufferSize < max size ds.streamRead
    · obtain ⟨memory, grown, buffered, unused', frame⟩ := grow_new buffered unused small
      obtain ⟨memory', fetched, buffered, unused', frame'⟩ :=
        fetch_more (t := { t with memory, allocated := t.allocated + 1 }) buffered unused' more
          (Nat.le_max_left _ _) available
      refine ⟨_, memory', t.allocated + 1, by rw [grown]; exact fetched, buffered, unused',
        read _ more ⟨rfl, rfl⟩, fun few => absurd more (Nat.not_lt_of_le few), ?_, ?_⟩
      · intro block bytes same other
        refine frame' block bytes (frame block bytes same (other more)) ?_
        rintro index new rfl
        cases new
        rw [unused _ (Nat.le_refl _)] at same
        cases same
      · intro index new
        cases new
        exact .inr (unused _ (Nat.le_refl _))
    · obtain ⟨memory, fetched, buffered, unused', frame⟩ :=
        fetch_more buffered unused more (by omega) available
      have grown : grow size ds t = (ds, t) := by rw [grow, if_neg small]
      refine ⟨_, memory, t.allocated, by rw [grown]; exact fetched, buffered, unused',
        read _ more ⟨rfl, rfl⟩, fun few => absurd more (Nat.not_lt_of_le few), ?_, ?_⟩
      · intro block bytes same other
        exact frame block bytes same (other more)
      · exact fun index same => .inl same
  · have grown : grow size ds t = (ds, t) := by rw [grow, if_neg (by omega)]
    refine ⟨ds, t.memory, t.allocated, ?_, buffered, unused, by omega, fun _ => rfl,
      fun _ _ same _ => same, fun _ same => .inl same⟩
    rw [grown, fetch, if_neg more]

/-! ## The state between the steps -/

/-- The data source of a call in progress. -/
def Sourced (source : List UInt8) (written : Nat) (memory : Memory) (allocated : Nat) :
    DataSource → Prop
  | .buffer ds => ds.size = source.length ∧ ds.pos = written ∧
      ∃ bytes, memory (.caller ds.data) = some bytes ∧ bytes.take ds.size = source
  | .stream ds => Buffered source written memory allocated ds

/-- What holds between the steps, whatever lwIP refers to. -/
structure Ready (t : ClientTx) : Prop where
  unused : Unused t.allocated t.memory
  within : t.written ≤ t.source.length
  accepted_eq : t.accepted = t.source.take t.written
  quiet : t.phase = .idle ∨ t.phase = .flushing → t.datasource = none
  sourced : ∀ source ∈ t.datasource, Sourced t.source t.written t.memory t.allocated source

theorem fresh_ready (sync : Bool) (memory : Nat → List UInt8) : (fresh sync memory).Ready :=
  ⟨fun _ _ => rfl, Nat.le_refl _, rfl, fun _ => rfl, fun _ none => (nomatch none)⟩

/-- The next `size` bytes of the source can be read from an address on. -/
def Offers (block : Block) (offset size : Nat) (t : ClientTx) : Prop :=
  ∀ i < size, t.memory.read (.within block (offset + i)) = t.source[t.written + i]?

theorem offers_buffer {t : ClientTx} {ds : BufferDataSource} {size : Nat}
    (sourced : Sourced t.source t.written t.memory t.allocated (.buffer ds))
    (available : size ≤ ds.size - ds.pos) : Offers (.caller ds.data) ds.pos size t := by
  obtain ⟨-, pos, bytes, held, taken⟩ := sourced
  intro i few
  rw [Memory.read, held, Option.bind_some, ← taken, ← pos, List.getElem?_take_of_lt]
  omega

theorem offers_stream {t : ClientTx} {ds : BufferedStreamDataSource} {size : Nat}
    (buffered : Buffered t.source t.written t.memory t.allocated ds) (read : size ≤ ds.streamRead) :
    Offers (.heap (ds.buffer.getD 0)) 0 size t := by
  intro i few
  have kept := buffered.kept
  have room := buffered.room
  have there : ds.buffer ≠ none := by
    intro none
    rw [contents_eq, none] at room
    simp at room
    omega
  obtain ⟨index, buffer⟩ := Option.ne_none_iff_exists'.1 there
  obtain ⟨bytes, held⟩ := Option.isSome_iff_exists.1 (buffered.owned index buffer).2
  have same : bytes.take ds.streamRead = (t.source.drop t.written).take ds.streamRead := by
    rw [← contents_some buffer held]
    exact buffered.held
  calc t.memory.read (.within (.heap (ds.buffer.getD 0)) (0 + i))
      = bytes[i]? := by rw [buffer, Option.getD_some, Memory.read, held, Nat.zero_add]; rfl
    _ = (bytes.take ds.streamRead)[i]? := (List.getElem?_take_of_lt (by omega)).symm
    _ = (t.source.drop t.written)[i]? := by rw [same, List.getElem?_take_of_lt (by omega)]
    _ = t.source[t.written + i]? := List.getElem?_drop

/-- lwIP takes the next bytes of the source. -/
theorem tcpWrite_accepted {t : ClientTx} {block : Block} {offset size : Nat}
    (offers : Offers block offset size t) (within : t.written + size ≤ t.source.length)
    (accepted : t.accepted = t.source.take t.written) :
    (t.tcpWrite block offset size).accepted = t.source.take (t.written + size) := by
  have chunk : ((List.range size).map fun i =>
      (t.memory.read (.within block (offset + i))).getD 0) =
        (t.source.drop t.written).take size := by
    apply List.ext_getElem?
    intro i
    rw [List.getElem?_map]
    by_cases few : i < size
    · rw [List.getElem?_range few, List.getElem?_take_of_lt few, List.getElem?_drop,
        Option.map_some, offers i few, List.getElem?_eq_getElem (by omega)]
      rfl
    · rw [List.getElem?_eq_none (by simpa using few), List.getElem?_eq_none]
      · rfl
      · rw [List.length_take]
        omega
  rw [tcpWrite, accepted, chunk, List.take_add]

theorem take_held {t : ClientTx} {block : Block} {offset size i : Nat}
    (offers : Offers block offset size t) (within : t.written + size ≤ t.source.length)
    (few : i < size) : t.memory.read
      (t.take block (offset + i) (t.source.getD (t.written + i) 0)).held =
        some (t.take block (offset + i) (t.source.getD (t.written + i) 0)).source := by
  have byte : t.memory.read (.within block (offset + i)) =
      some (t.source.getD (t.written + i) 0) := by
    rw [offers i few, List.getD_eq_getElem?_getD, List.getElem?_eq_getElem (by omega)]
    rfl
  unfold take
  split
  · exact byte
  · rw [byte]
    rfl

/-- The bytes that lwIP takes are the source's, copied or not. -/
theorem tcpWrite_faithful {t : ClientTx} {block : Block} {offset size : Nat}
    (offers : Offers block offset size t) (within : t.written + size ≤ t.source.length)
    (faithful : t.Faithful) : (t.tcpWrite block offset size).Faithful := by
  intro u member
  rcases List.mem_append.1 member with old | new
  · exact faithful u old
  · obtain ⟨i, few, rfl⟩ := List.mem_map.1 new
    exact take_held offers within (List.mem_range.1 few)

/-- In sync mode lwIP refers to the memory, otherwise it does not. -/
theorem tcpWrite_refers {t : ClientTx} {block other : Block} {offset size : Nat}
    (mode : t.sync = false) (refers : (t.tcpWrite block offset size).Refers other) :
    t.Refers other := by
  obtain ⟨u, member, position, held⟩ := refers
  rcases List.mem_append.1 member with old | new
  · exact ⟨u, old, position, held⟩
  · obtain ⟨i, -, rfl⟩ := List.mem_map.1 new
    rw [take, mode] at held
    cases held

/-- Memory that lwIP does not refer to may change. -/
theorem Faithful.change {t : ClientTx} (faithful : t.Faithful) {memory : Memory}
    (same : ∀ block bytes, t.Refers block → t.memory block = some bytes →
      memory block = some bytes) : ∀ u ∈ t.queue, memory.read u.held = some u.source := by
  intro u member
  have read := faithful u member
  cases held : u.held with
  | copied byte => rw [held] at read; exact read
  | within block offset =>
    rw [held] at read
    obtain ⟨bytes, there, byte⟩ := Option.bind_eq_some_iff.1 read
    rw [Memory.read, same block bytes ⟨u, member, offset, held⟩ there]
    exact byte

/-- A release leaves the rest of the source in the buffer, moved to its front. -/
theorem release_stream {t : ClientTx} {ds : BufferedStreamDataSource} {size : Nat}
    (buffered : Buffered t.source t.written t.memory t.allocated ds)
    (unused : Unused t.allocated t.memory) (read : size ≤ ds.streamRead) :
    ∃ memory, releaseBuffer size (.stream ds) t = { t with
        memory, datasource := some (.stream { ds with pos := ds.pos + size }) } ∧
      Buffered t.source (t.written + size) memory t.allocated { ds with pos := ds.pos + size } ∧
      Unused t.allocated memory ∧ Frame ds t.memory memory ∧
      (¬size < ds.streamRead → memory = t.memory) := by
  have kept := buffered.kept
  have behind := buffered.behind
  have room := buffered.room
  have pos : ds.pos + size = t.written + size := by rw [buffered.pos_eq]
  have remains : ds.streamPos - (ds.pos + size) = ds.streamRead - size := by
    unfold BufferedStreamDataSource.streamRead
    omega
  have before : ds.pos + size ≤ ds.streamPos := by
    unfold BufferedStreamDataSource.streamRead at read
    omega
  by_cases more : ds.pos + size < ds.streamPos
  · obtain ⟨left, left_eq⟩ : ∃ left, left =
        ((ds.contents t.memory).drop size).take (ds.streamPos - (ds.pos + size)) := ⟨_, rfl⟩
    have length : left.length = ds.streamRead - size := by
      rw [left_eq, List.length_take, List.length_drop, remains, room]
      omega
    have held : left = (t.source.drop (t.written + size)).take (ds.streamRead - size) := by
      have dropped := congrArg (List.drop size) buffered.held
      rw [List.drop_take, List.drop_take, List.drop_drop] at dropped
      rw [left_eq, remains, dropped]
    have there : ds.buffer ≠ none := by
      intro none
      rw [contents_eq, none] at room
      simp at room
      unfold BufferedStreamDataSource.streamRead at kept
      omega
    have contents :=
      contents_put (left ++ (ds.contents t.memory).drop left.length) t.memory there
    refine ⟨ds.put (some (left ++ (ds.contents t.memory).drop left.length)) t.memory, ?_,
      ⟨buffered.size_eq, pos, before, buffered.within, buffered.stream_eq, ?_, ?_, ?_, ?_⟩,
      put_unused unused fun own buffer => (buffered.owned own buffer).1, put_frame _ _ _, ?_⟩
    · simp only [releaseBuffer, if_pos more, ← left_eq]
    · refine (congrArg List.length contents).trans ?_
      rw [List.length_append, List.length_drop, room, length]
      change _ = ds.bufferSize
      omega
    · change ds.streamPos - (ds.pos + size) ≤ ds.bufferSize
      omega
    · change (ds.contents _).take (ds.streamPos - (ds.pos + size)) =
        (t.source.drop (t.written + size)).take (ds.streamPos - (ds.pos + size))
      rw [contents, remains, List.take_append_of_le_length (Nat.le_of_eq length.symm), ← length,
        List.take_length, length, held]
    · intro index buffer
      refine ⟨(buffered.owned index buffer).1, ?_⟩
      rw [put_apply, if_pos (by rw [show ds.buffer = some index from buffer]; rfl)]
      rfl
    · intro all
      unfold BufferedStreamDataSource.streamRead at all
      omega
  · have none : ds.streamPos - (ds.pos + size) = 0 := by omega
    refine ⟨t.memory, by simp only [releaseBuffer, if_neg more], ⟨buffered.size_eq, pos, before,
      buffered.within, buffered.stream_eq, room, ?_, ?_, buffered.owned⟩, unused, Frame.rfl,
      fun _ => rfl⟩
    · change ds.streamPos - (ds.pos + size) ≤ ds.bufferSize
      omega
    · change (ds.contents t.memory).take (ds.streamPos - (ds.pos + size)) =
        (t.source.drop (t.written + size)).take (ds.streamPos - (ds.pos + size))
      rw [none, List.take_zero, List.take_zero]

/-! ## The steps -/

theorem Ready.available_le {t : ClientTx} (ready : t.Ready) {source : DataSource}
    (sourced : Sourced t.source t.written t.memory t.allocated source) :
    t.written + source.available = t.source.length := by
  have within := ready.within
  cases source with
  | buffer ds =>
    obtain ⟨size, pos, -⟩ := sourced
    simp only [DataSource.available]
    omega
  | stream ds =>
    have size := sourced.size_eq
    have pos := sourced.pos_eq
    simp only [DataSource.available]
    omega

theorem Ready.busy {t : ClientTx} (active : t.phase = .writeSome) :
    ¬(t.phase = .idle ∨ t.phase = .flushing) := by
  rw [active]
  simp

/-- A chunk of the caller's memory. -/
theorem Ready.chunk_buffer {t : ClientTx} (ready : t.Ready) (active : t.phase = .writeSome)
    {ds : BufferDataSource} {size : Nat} {ok : Bool}
    (sourced : Sourced t.source t.written t.memory t.allocated (.buffer ds))
    (available : size ≤ ds.size - ds.pos) : (t.chunk size ok (.buffer ds)).Ready ∧
      (t.Faithful → (t.chunk size ok (.buffer ds)).Faithful) := by
  cases ok with
  | false =>
    refine ⟨⟨ready.unused, ready.within, ready.accepted_eq, fun quiet => ?_, ?_⟩, id⟩
    · cases quiet <;> contradiction
    · intro source same
      obtain rfl := Option.some.inj same
      exact sourced
  | true =>
    have whole : t.written + (ds.size - ds.pos) = t.source.length := ready.available_le sourced
    have offers := offers_buffer sourced available
    have accepted := tcpWrite_accepted offers (by omega) ready.accepted_eq
    have faithful := tcpWrite_faithful offers (by omega)
    refine ⟨⟨ready.unused, ?_, accepted, ?_, ?_⟩, faithful⟩
    · change t.written + size ≤ t.source.length
      omega
    · exact fun quiet => absurd quiet (Ready.busy active)
    · intro source same
      obtain rfl := Option.some.inj same
      obtain ⟨size_eq, pos, bytes, held, taken⟩ := sourced
      exact ⟨size_eq, congrArg (· + size) pos, bytes, held, taken⟩

/-- A chunk of a stream, which is fetched, taken by lwIP and released. -/
theorem Ready.chunk_stream {t : ClientTx} (ready : t.Ready) (active : t.phase = .writeSome)
    {ds : BufferedStreamDataSource} {size : Nat} {ok : Bool}
    (buffered : Buffered t.source t.written t.memory t.allocated ds)
    (available : size ≤ ds.size - ds.pos) : (t.chunk size ok (.stream ds)).Ready ∧
      ((ds.streamRead < size → ¬t.RefersTo ds) →
        (ok = true → size < ds.streamRead → t.sync = false ∧ ¬t.RefersTo ds) →
          t.Faithful → (t.chunk size ok (.stream ds)).Faithful) := by
  have whole : t.written + (ds.size - ds.pos) = t.source.length :=
    ready.available_le (show Sourced _ _ _ _ (.stream ds) from buffered)
  obtain ⟨ds', memory, allocated, fetched, offered⟩ :=
    stream_offered buffered ready.unused available
  -- what lwIP refers to outlives the fetch
  have outlives (refill : ds.streamRead < size → ¬t.RefersTo ds) (faithful : t.Faithful) :
      Faithful { t with memory, allocated } := by
    refine faithful.change fun block bytes refers same => offered.frame block bytes same ?_
    rintro more index buffer rfl
    exact refill more ⟨index, buffer, refers⟩
  have read : size ≤ ds'.streamRead := by
    rw [offered.read_eq]
    exact Nat.le_max_left _ _
  cases ok with
  | false =>
    have given : t.chunk size false (.stream ds) = { t with
        memory, allocated, datasource := some (.stream ds'), phase := .written } := by
      simp only [chunk, getBuffer, fetched]
      rfl
    rw [given]
    refine ⟨⟨offered.unused, ready.within, ready.accepted_eq, fun quiet => ?_, ?_⟩, ?_⟩
    · cases quiet <;> contradiction
    · intro source same
      obtain rfl := Option.some.inj same
      exact offered.buffered
    · exact fun refill _ faithful => outlives refill faithful
  | true =>
    have offers : Offers (.heap (ds'.buffer.getD 0)) 0 size { t with memory, allocated } :=
      offers_stream offered.buffered read
    have accepted := tcpWrite_accepted offers (by simp only; omega) ready.accepted_eq
    obtain ⟨memory', released, buffered', unused', frame, still⟩ := release_stream
      (t := { t with memory, allocated }.tcpWrite (.heap (ds'.buffer.getD 0)) 0 size)
      offered.buffered offered.unused read
    have given : t.chunk size true (.stream ds) =
        { { t with memory, allocated }.tcpWrite (.heap (ds'.buffer.getD 0)) 0 size with
          memory := memory'
          datasource := some (.stream { ds' with pos := ds'.pos + size })
          written := t.written + size } := by
      simp only [chunk, getBuffer, fetched, if_true, released]
      rfl
    rw [given]
    refine ⟨⟨unused', ?_, accepted, ?_, ?_⟩, ?_⟩
    · change t.written + size ≤ t.source.length
      omega
    · exact fun quiet => absurd quiet (Ready.busy active)
    · intro source same
      obtain rfl := Option.some.inj same
      exact buffered'
    · intro refill partly faithful
      have sent := tcpWrite_faithful offers (by simp only; omega) (outlives refill faithful)
      by_cases more : size < ds'.streamRead
      · -- a partial write: the rest moves to the front, and lwIP refers to nothing there
        have short : size < ds.streamRead := by
          rw [offered.read_eq] at more
          omega
        obtain ⟨mode, free⟩ := partly rfl short
        obtain rfl := offered.still (Nat.le_of_lt short)
        refine sent.change fun block bytes refers same => frame block bytes same ?_
        rintro index buffer rfl
        exact free ⟨index, buffer,
          tcpWrite_refers (t := { t with memory, allocated }) mode refers⟩
      · exact still more ▸ sent

theorem Ready.round {t : ClientTx} (ready : t.Ready) (active : t.phase = .writeSome)
    (closed : Bool) (sndbuf : Nat) (ok : Bool) : (t.round closed sndbuf ok).Ready ∧
      (Safe (.round closed sndbuf ok) t → t.Faithful → (t.round closed sndbuf ok).Faithful) := by
  have left : Ready { t with phase := .written } :=
    ⟨ready.unused, ready.within, ready.accepted_eq, fun quiet => by cases quiet <;> contradiction,
      ready.sourced⟩
  unfold ClientTx.round
  split
  · exact ⟨left, fun _ faithful => faithful⟩
  · next source given =>
    have sourced := ready.sourced source given
    simp only
    split
    · exact ⟨left, fun _ faithful => faithful⟩
    · next goes =>
      simp only [Bool.or_eq_true, Bool.not_eq_true', decide_eq_true_eq, not_or] at goes
      obtain ⟨⟨connected, opened⟩, some⟩ := goes
      cases source with
      | buffer ds =>
        obtain ⟨ready, faithful⟩ := ready.chunk_buffer active sourced (Nat.min_le_right _ _)
        exact ⟨ready, fun _ => faithful⟩
      | stream ds =>
        obtain ⟨ready, faithful⟩ := ready.chunk_stream active sourced (Nat.min_le_right _ _)
        refine ⟨ready, fun safe => ?_⟩
        simp only [Safe, active, given] at safe
        obtain ⟨refill, partly⟩ := safe (by simpa using connected) (by simpa using opened)
        exact faithful refill (partly some)

/-- The end of a call: the result counts the bytes taken. -/
def Written.Exact (w : Written) : Prop :=
  w.accepted = w.source.take w.result ∧ w.result ≤ w.source.length

theorem Ready.finish {t : ClientTx} (ready : t.Ready) (none : t.datasource = none) :
    (∀ w ∈ t.finish.1, Written.Exact w) ∧ t.finish.2.Ready := by
  refine ⟨?_, ready.unused, ready.within, ready.accepted_eq, fun _ => none, ready.sourced⟩
  intro w same
  obtain rfl := Option.some.inj same
  exact ⟨ready.accepted_eq, ready.within⟩

/-- The source is deleted with its buffer. -/
theorem Ready.deleteSource {t : ClientTx} (ready : t.Ready) :
    t.deleteSource.Ready ∧ t.deleteSource.datasource = none ∧
      ((∀ ds, t.datasource = some (.stream ds) → ¬t.RefersTo ds) →
        t.Faithful → t.deleteSource.Faithful) := by
  unfold ClientTx.deleteSource
  split
  · next ds given =>
    refine ⟨⟨?_, ready.within, ready.accepted_eq, fun _ => rfl, fun _ none => (nomatch none)⟩,
      rfl, ?_⟩
    · have buffered : Buffered _ _ _ _ ds := ready.sourced _ given
      exact put_unused ready.unused fun own buffer => (buffered.owned own buffer).1
    · intro free faithful
      refine faithful.change fun block bytes refers same => put_frame _ _ _ block bytes same ?_
      rintro index buffer rfl
      exact free ds given ⟨index, buffer, refers⟩
  · exact ⟨⟨ready.unused, ready.within, ready.accepted_eq, fun _ => rfl,
      fun _ none => (nomatch none)⟩, rfl, fun _ faithful => faithful⟩

theorem Ready.test {t : ClientTx} (ready : t.Ready) (behind : t.phase = .written)
    (timeout closed : Bool) : (∀ w ∈ (t.test timeout closed).1, Written.Exact w) ∧
      (t.test timeout closed).2.Ready ∧
      (Safe (.test timeout closed) t → t.Faithful → (t.test timeout closed).2.Faithful) := by
  obtain ⟨deleted, none, kept⟩ := ready.deleteSource
  unfold ClientTx.test
  simp only
  split
  · next ends =>
    have safely (safe : Safe (.test timeout closed) t) (faithful : t.Faithful) :
        t.deleteSource.Faithful := by
      refine kept (fun ds given => ?_) faithful
      simp only [Safe, behind, given] at safe
      apply safe
      simpa [given, DataSource.available, or_assoc] using ends
    split
    · exact ⟨fun w none => (nomatch none), ⟨deleted.unused, deleted.within, deleted.accepted_eq,
        fun _ => none, deleted.sourced⟩, safely⟩
    · obtain ⟨exact, ready⟩ := deleted.finish none
      exact ⟨exact, ready, safely⟩
  · refine ⟨fun w none => (nomatch none), ⟨ready.unused, ready.within, ready.accepted_eq, ?_,
      ready.sourced⟩, fun _ faithful => faithful⟩
    intro quiet
    cases quiet <;> contradiction

/-- A call of `write` begins with all of its source to come. -/
theorem Ready.write {t : ClientTx} (ready : t.Ready) {ds : DataSource} {source : List UInt8}
    (sourced : Sourced source 0 t.memory t.allocated ds) :
    (∀ w ∈ (t.write ds source).1, Written.Exact w) ∧ (t.write ds source).2.Ready ∧
      (t.Faithful → (t.write ds source).2.Faithful) := by
  unfold ClientTx.write
  split
  · refine ⟨fun w none => (nomatch none), ⟨ready.unused, Nat.zero_le _, rfl, ?_, ?_⟩, id⟩
    · intro quiet
      cases quiet <;> contradiction
    · intro same given
      obtain rfl := Option.some.inj given
      exact sourced
  · refine ⟨?_, ready, id⟩
    intro w same
    obtain rfl := Option.some.inj same
    exact ⟨rfl, Nat.zero_le _⟩

theorem Ready.store {t : ClientTx} (ready : t.Ready) (rest : t.phase = .idle) (block : Nat)
    (bytes : List UInt8) :
    Ready { t with memory := Function.update t.memory (.caller block) (some bytes) } ∧
      (¬t.Refers (.caller block) → t.Faithful → Faithful { t with
        memory := Function.update t.memory (.caller block) (some bytes) }) := by
  have quiet : t.datasource = none := ready.quiet (.inl rest)
  refine ⟨⟨?_, ready.within, ready.accepted_eq, ready.quiet, ?_⟩, ?_⟩
  · intro index above
    have apart : Block.heap index ≠ .caller block := by simp
    change Function.update t.memory (.caller block) (some bytes) (.heap index) = none
    rw [Function.update_of_ne apart]
    exact ready.unused index above
  · intro source same
    rw [quiet] at same
    cases same
  · intro free faithful
    refine faithful.change fun other old refers same => ?_
    have apart : other ≠ .caller block := by
      rintro rfl
      exact free refers
    change Function.update t.memory (.caller block) (some bytes) other = some old
    rw [Function.update_of_ne apart, same]

/-- lwIP may acknowledge or give up what it holds, and the connection may go. -/
theorem Ready.lwip {t : ClientTx} (ready : t.Ready) (pcb : Bool) {queue : List Unacked}
    (fewer : queue ⊆ t.queue) : Ready { t with pcb, queue } ∧
      (t.Faithful → Faithful { t with pcb, queue }) :=
  ⟨⟨ready.unused, ready.within, ready.accepted_eq, ready.quiet, ready.sourced⟩,
    fun faithful u member => faithful u (fewer member)⟩

/-- A step with nothing to show for it. -/
theorem Ready.silent {t t' : ClientTx} {action : TxAction}
    (kept : t'.Ready ∧ (t.Faithful → t'.Faithful)) :
    (∀ w ∈ (none : Option Written), Written.Exact w) ∧ t'.Ready ∧
      (Safe action t → t.Faithful → t'.Faithful) :=
  ⟨fun _ none => (nomatch none), kept.1, fun _ => kept.2⟩

/-- Every step keeps the state in order, and what lwIP holds as it was when the memory that the
step uses is free. -/
theorem Ready.step {t : ClientTx} (ready : t.Ready) (action : TxAction) :
    (∀ w ∈ (t.step action).1, Written.Exact w) ∧ (t.step action).2.Ready ∧
      (Safe action t → t.Faithful → (t.step action).2.Faithful) := by
  unfold ClientTx.step
  split
  · next block bytes rest =>
    obtain ⟨ready, faithful⟩ := ready.store rest block bytes
    refine ⟨fun _ none => (nomatch none), ready, fun safe => faithful ?_⟩
    simpa only [Safe, rest] using safe
  · exact Ready.silent ⟨⟨ready.unused, ready.within, ready.accepted_eq, ready.quiet,
      ready.sourced⟩, id⟩
  · next data size rest =>
    split
    · next bytes held =>
      split
      · next fits =>
        have length : (bytes.take size).length = size := by
          rw [List.length_take, Nat.min_eq_left fits]
        have sourced : Sourced (bytes.take size) 0 t.memory t.allocated
            (.buffer ⟨data, size, 0⟩) := ⟨length.symm, rfl, bytes, held, rfl⟩
        obtain ⟨exact, ready, faithful⟩ := ready.write sourced
        exact ⟨exact, ready, fun _ => faithful⟩
      · exact Ready.silent ⟨ready, id⟩
    · exact Ready.silent ⟨ready, id⟩
  · next bytes rest =>
    have sourced : Sourced bytes 0 t.memory t.allocated
        (.stream ⟨bytes, bytes.length, 0, none, 0, 0⟩) :=
      ⟨rfl, rfl, Nat.le_refl _, Nat.zero_le _, rfl, rfl, Nat.le_refl _, rfl,
        fun _ none => (nomatch none)⟩
    obtain ⟨exact, ready, faithful⟩ := ready.write sourced
    exact ⟨exact, ready, fun _ => faithful⟩
  · next closed sndbuf ok active =>
    obtain ⟨ready, faithful⟩ := ready.round active closed sndbuf ok
    exact ⟨fun _ none => (nomatch none), ready, faithful⟩
  · next timeout closed behind => exact ready.test behind timeout closed
  · next waits =>
    refine Ready.silent ⟨⟨ready.unused, ready.within, ready.accepted_eq, ?_, ready.sourced⟩, id⟩
    intro quiet
    cases quiet <;> contradiction
  · next timeout established full flushes =>
    have none := ready.quiet (.inr flushes)
    unfold ClientTx.flush
    split
    · obtain ⟨exact, ready⟩ := ready.finish none
      exact ⟨exact, ready, fun _ faithful => faithful⟩
    · exact Ready.silent ⟨ready, id⟩
  · exact Ready.silent (ready.lwip t.pcb (List.drop_subset _ _))
  · exact Ready.silent (ready.lwip false (List.Subset.refl _))
  · exact Ready.silent (ready.lwip false (List.nil_subset _))
  · exact Ready.silent ⟨ready, id⟩

theorem fresh_faithful (sync : Bool) (memory : Nat → List UInt8) :
    (fresh sync memory).Faithful :=
  fun _ member => absurd member List.not_mem_nil

/-- The state in order, and what lwIP holds as it was. -/
def Sent (t : ClientTx) : Prop := t.Ready ∧ t.Faithful

/-- The steps that are safe keep what lwIP holds as it was. -/
theorem faithful_run (actions : List TxAction) {t : ClientTx} (ready : t.Ready)
    (faithful : t.Faithful) (safe : Admits step Safe actions t) :
    Faithful (after step actions t) := by
  have preserves : ∀ action s, Safe action s → Sent s → Sent (step action s).2 := by
    intro action s safe sent
    obtain ⟨-, ready, faithful⟩ := sent.1.step action
    exact ⟨ready, faithful safe sent.2⟩
  exact (after_invariant preserves actions t safe ⟨ready, faithful⟩).2

/-- In every run, a call of `write` that returns `k` has passed the first `k` bytes of its source
to lwIP. What lwIP sends is the source in every state of a run in which no step writes or frees
memory with a byte that lwIP refers to and the peer has not acknowledged. -/
theorem writes_transmitted (sync : Bool) (memory : Nat → List UInt8) (actions : List TxAction) :
    (∀ answer ∈ (run step actions (fresh sync memory)).1, ∀ w ∈ answer, Written.Exact w) ∧
      (Admits step Safe actions (fresh sync memory) →
        Faithful (after step actions (fresh sync memory))) := by
  constructor
  · exact run_answers 
      (fun action t ready => ⟨(ready.step action).1, (ready.step action).2.1⟩) actions _
      (fresh_ready sync memory)
  · exact faithful_run actions (fresh_ready sync memory) (fresh_faithful sync memory)

/-- A caller's chunk in sync mode, acknowledged before the memory is used again. -/
theorem writes_transmitted_synced :
    Faithful (after step [.write 0 2, .round false 2 true, .round false 2 true, .test false false,
      .acked 2, .flush false true true, .store 0 [9]] (fresh true fun _ => [1, 2])) :=
  (writes_transmitted true _ _).2
    ⟨trivial, trivial, trivial, trivial, trivial, trivial, by
      rintro ⟨u, member, -⟩
      exact absurd member List.not_mem_nil, trivial⟩

/-- A stream of two bytes in sync mode, with room for one at a time: the second byte takes the
place of the first, which the peer has not acknowledged. -/
theorem refill_overwrites :
    ¬Faithful (after step [.writeStream [1, 2], .round false 1 true, .round false 1 true]
      (fresh true fun _ => [])) := by
  intro faithful
  have read := faithful ⟨.within (.heap 0) 0, 1⟩ List.mem_cons_self
  exact absurd read (by decide)

/-- Everything that lwIP holds is a copy, and stays so. -/
def Copied (t : ClientTx) : Prop :=
  t.sync = false ∧ ∀ u ∈ t.queue, ∃ byte, u.held = .copied byte

theorem Copied.free {t : ClientTx} (copied : t.Copied) (block : Block) : ¬t.Refers block := by
  rintro ⟨u, member, offset, held⟩
  obtain ⟨byte, same⟩ := copied.2 u member
  rw [held] at same
  cases same

/-- Without sync mode every step is safe. -/
theorem Copied.safe {t : ClientTx} (copied : t.Copied) (action : TxAction) : Safe action t := by
  unfold Safe
  split
  · exact copied.free _
  · intro _ _
    exact ⟨fun _ ⟨_, _, refers⟩ => copied.free _ refers,
      fun _ _ _ => ⟨copied.1, fun ⟨_, _, refers⟩ => copied.free _ refers⟩⟩
  · exact fun _ ⟨_, _, refers⟩ => copied.free _ refers
  · trivial

theorem getBuffer_lwip (size : Nat) (source : DataSource) (t : ClientTx) :
    (getBuffer size source t).2.2.2.queue = t.queue ∧
      (getBuffer size source t).2.2.2.sync = t.sync := by
  cases source with
  | buffer ds => exact ⟨rfl, rfl⟩
  | stream ds =>
    unfold getBuffer fetch grow
    simp only
    constructor <;> split <;> split <;> rfl

theorem releaseBuffer_lwip (size : Nat) (source : DataSource) (t : ClientTx) :
    (releaseBuffer size source t).queue = t.queue ∧
      (releaseBuffer size source t).sync = t.sync := by
  cases source with
  | buffer ds => exact ⟨rfl, rfl⟩
  | stream ds =>
    unfold releaseBuffer
    simp only
    split <;> exact ⟨rfl, rfl⟩

/-- `tcp_write` copies, when the mode says so. -/
theorem Copied.tcpWrite {t : ClientTx} (copied : t.Copied) (block : Block) (offset size : Nat) :
    (t.tcpWrite block offset size).Copied := by
  refine ⟨copied.1, fun u member => ?_⟩
  rcases List.mem_append.1 member with old | new
  · exact copied.2 u old
  · obtain ⟨i, -, rfl⟩ := List.mem_map.1 new
    rw [take, copied.1]
    exact ⟨_, rfl⟩

theorem Copied.chunk {t : ClientTx} (copied : t.Copied) (size : Nat) (ok : Bool)
    (source : DataSource) : (t.chunk size ok source).Copied := by
  have offered := getBuffer_lwip size source t
  unfold ClientTx.chunk
  rcases offer : getBuffer size source t with ⟨source', block, offset, t'⟩
  rw [offer] at offered
  have kept : t'.Copied := ⟨offered.2.trans copied.1, fun u member =>
    copied.2 u (offered.1 ▸ member)⟩
  cases ok with
  | false => exact kept
  | true =>
    have released := releaseBuffer_lwip size source' (t'.tcpWrite block offset size)
    have taken := kept.tcpWrite block offset size
    unfold Copied at taken ⊢
    simp only [if_true, released.1, released.2]
    exact taken

theorem Copied.deleteSource {t : ClientTx} (copied : t.Copied) : t.deleteSource.Copied := by
  unfold ClientTx.deleteSource
  split <;> exact copied

theorem Copied.step {t : ClientTx} (copied : t.Copied) {action : TxAction}
    (mode : action ≠ .setSync true) : (t.step action).2.Copied := by
  unfold ClientTx.step
  split
  · exact copied
  · next sync =>
    have off : sync = false := by
      cases sync
      · rfl
      · exact absurd rfl mode
    exact ⟨off, copied.2⟩
  · split
    · split
      · unfold ClientTx.write
        split <;> exact copied
      · exact copied
    · exact copied
  · unfold ClientTx.write
    split <;> exact copied
  · unfold ClientTx.round
    split
    · exact copied
    · simp only
      split
      · exact copied
      · exact copied.chunk _ _ _
  · have deleted := copied.deleteSource
    unfold ClientTx.test
    simp only
    split
    · split <;> exact deleted
    · exact copied
  · exact copied
  · unfold ClientTx.flush
    split <;> exact copied
  · exact ⟨copied.1, fun u member => copied.2 u (List.mem_of_mem_drop member)⟩
  · exact copied
  · exact ⟨copied.1, fun u member => absurd member List.not_mem_nil⟩
  · exact copied

/-- Without sync mode, the condition holds in every run. -/
theorem copied_admits (actions : List TxAction) : ∀ t : ClientTx, t.Copied →
    (∀ action ∈ actions, action ≠ .setSync true) → Admits step Safe actions t := by
  induction actions with
  | nil => exact fun _ _ _ => trivial
  | cons action rest ih =>
    intro t copied modes
    have first := modes action List.mem_cons_self
    exact ⟨copied.safe action, ih _ (copied.step first) fun later member =>
      modes later (List.mem_cons_of_mem _ member)⟩

/-- Without sync mode, what lwIP sends is the source. -/
theorem copied_transmitted (memory : Nat → List UInt8) (actions : List TxAction)
    (modes : ∀ action ∈ actions, action ≠ .setSync true) :
    Faithful (after step actions (fresh false memory)) := by
  have copied : Copied (fresh false memory) :=
    ⟨rfl, fun _ member => absurd member List.not_mem_nil⟩
  exact faithful_run actions (fresh_ready false memory) (fresh_faithful false memory)
    (copied_admits actions _ copied modes)

end ClientTx
end Esp8266.Source
