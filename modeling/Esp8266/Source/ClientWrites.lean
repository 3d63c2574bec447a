import Mathlib.Logic.Function.Basic
import Mathlib.Data.List.Basic

/-!
# The transmit side of a TCP connection

ESP8266WiFi/src/include/ClientContext.h:317-395, 429-605 and DataSource.h. `write` runs in steps,
between which lwIP may send, take acknowledgements or drop the connection: `Phase` says where the
call stands. lwIP is its queue of unacknowledged bytes, each copied or left in the memory that it
was passed in. What the rounds depend on besides comes with them: the state of the connection, the
send buffer, the result of `tcp_write`, and whether time is up. An allocation does not fail, and a
stream holds the bytes that it announces as available.
-/
set_option autoImplicit false

namespace Esp8266.Source

/-- Memory of the caller, or allocated by a data source. -/
inductive Block where
  | caller (index : Nat)
  | heap (index : Nat)
  deriving DecidableEq

/-- The contents of the blocks; a block that is not allocated has none. -/
abbrev Memory := Block → Option (List UInt8)

inductive Held where
  | copied (byte : UInt8)
  | within (block : Block) (offset : Nat)

/-- The byte that lwIP sends. -/
def Memory.read (memory : Memory) : Held → Option UInt8
  | .copied byte => some byte
  | .within block offset => (memory block).bind fun bytes => bytes[offset]?

/-- A byte accepted and not acknowledged, with the source byte at its position. -/
structure Unacked where
  held : Held
  source : UInt8

/-- `BufferDataSource`. -/
structure BufferDataSource where
  data : Nat
  size : Nat
  pos : Nat

/-- `BufferedStreamDataSource`; `stream` is what its stream has left to read. -/
structure BufferedStreamDataSource where
  stream : List UInt8
  size : Nat
  pos : Nat
  buffer : Option Nat
  bufferSize : Nat
  streamPos : Nat

inductive DataSource where
  | buffer (ds : BufferDataSource)
  | stream (ds : BufferedStreamDataSource)

def DataSource.available : DataSource → Nat
  | .buffer ds => ds.size - ds.pos
  | .stream ds => ds.size - ds.pos

/-- Where a call of `write` stands: in the loop of `_write_some`, behind it, in the delay, or in
`wait_until_sent`. -/
inductive Phase where
  | idle
  | writeSome
  | written
  | waiting
  | flushing
  deriving DecidableEq

structure ClientTx where
  pcb : Bool
  sync : Bool
  phase : Phase
  memory : Memory
  /-- Heap blocks from this one on have not been in use. -/
  allocated : Nat
  queue : List Unacked
  datasource : Option DataSource
  written : Nat
  /-- The bytes that the call in progress was given. -/
  source : List UInt8
  /-- The bytes that lwIP took from it. -/
  accepted : List UInt8

namespace BufferedStreamDataSource

/-- The bytes read from the stream and not released. -/
def streamRead (ds : BufferedStreamDataSource) : Nat := ds.streamPos - ds.pos

def contents (memory : Memory) (ds : BufferedStreamDataSource) : List UInt8 :=
  match ds.buffer with
  | none => []
  | some index => (memory (.heap index)).getD []

/-- The memory with other contents of the buffer, or without the buffer. -/
def put (value : Option (List UInt8)) (memory : Memory) (ds : BufferedStreamDataSource) : Memory :=
  match ds.buffer with
  | none => memory
  | some index => Function.update memory (.heap index) value

end BufferedStreamDataSource

namespace ClientTx

/-- A larger buffer, when `get_buffer` needs one. -/
def grow (size : Nat) (ds : BufferedStreamDataSource) (t : ClientTx) :
    BufferedStreamDataSource × ClientTx :=
  let minBufferSize := max size ds.streamRead
  if ds.bufferSize < minBufferSize then
    let kept := (ds.contents t.memory).take ds.streamRead
    let bytes := kept ++ List.replicate (minBufferSize - kept.length) 0
    ({ ds with buffer := some t.allocated, bufferSize := minBufferSize },
      { t with
        memory := Function.update (ds.put none t.memory) (.heap t.allocated) (some bytes)
        allocated := t.allocated + 1 })
  else (ds, t)

/-- The bytes that `get_buffer` fetches from the stream. -/
def fetch (size : Nat) (ds : BufferedStreamDataSource) (t : ClientTx) :
    BufferedStreamDataSource × ClientTx :=
  if ds.streamRead < size then
    let streamRem := size - ds.streamRead
    let read := ds.stream.take streamRem
    let old := ds.contents t.memory
    let bytes := old.take ds.streamRead ++ read ++ old.drop (ds.streamRead + read.length)
    ({ ds with stream := ds.stream.drop streamRem, streamPos := ds.streamPos + streamRem },
      { t with memory := ds.put (some bytes) t.memory })
  else (ds, t)

/-- `get_buffer`: the source, the address of the bytes and the state. -/
def getBuffer (size : Nat) (source : DataSource) (t : ClientTx) :
    DataSource × Block × Nat × ClientTx :=
  match source with
  | .buffer ds => (source, .caller ds.data, ds.pos, t)
  | .stream ds =>
    let (ds, t) := grow size ds t
    let (ds, t) := fetch size ds t
    (.stream ds, .heap (ds.buffer.getD 0), 0, t)

/-- `release_buffer`. -/
def releaseBuffer (size : Nat) (source : DataSource) (t : ClientTx) : ClientTx :=
  match source with
  | .buffer ds => { t with datasource := some (.buffer { ds with pos := ds.pos + size }) }
  | .stream ds =>
    let ds' := { ds with pos := ds.pos + size }
    if ds'.pos < ds.streamPos then
      let old := ds.contents t.memory
      let left := (old.drop size).take (ds.streamPos - ds'.pos)
      { t with
        memory := ds.put (some (left ++ old.drop left.length)) t.memory
        datasource := some (.stream ds') }
    else { t with datasource := some (.stream ds') }

/-- A byte of a chunk that `tcp_write` takes, with the flag of the mode. -/
def take (block : Block) (offset : Nat) (source : UInt8) (t : ClientTx) : Unacked :=
  if t.sync then ⟨.within block offset, source⟩
  else ⟨.copied ((t.memory.read (.within block offset)).getD 0), source⟩

/-- `tcp_write` of a chunk that lwIP accepts. -/
def tcpWrite (block : Block) (offset size : Nat) (t : ClientTx) : ClientTx :=
  { t with
    queue := t.queue ++ (List.range size).map fun i =>
      t.take block (offset + i) (t.source.getD (t.written + i) 0)
    accepted := t.accepted ++ (List.range size).map fun i =>
      (t.memory.read (.within block (offset + i))).getD 0 }

/-- A chunk that is passed to `tcp_write`, with its result. -/
def chunk (size : Nat) (ok : Bool) (source : DataSource) (t : ClientTx) : ClientTx :=
  let (source, block, offset, t) := getBuffer size source t
  if ok then
    let t := releaseBuffer size source (t.tcpWrite block offset size)
    { t with written := t.written + size }
  else { t with datasource := some source, phase := .written }

/-- A round of the loop of `_write_some`. -/
def round (closed : Bool) (sndbuf : Nat) (ok : Bool) (t : ClientTx) : ClientTx :=
  match t.datasource with
  | none => { t with phase := .written }
  | some source =>
    let nextChunkSize := min sndbuf source.available
    if !t.pcb || closed || nextChunkSize = 0 then { t with phase := .written }
    else t.chunk nextChunkSize ok source

/-- `delete _datasource`. -/
def deleteSource (t : ClientTx) : ClientTx :=
  match t.datasource with
  | some (.stream ds) => { t with memory := ds.put none t.memory, datasource := none }
  | _ => { t with datasource := none }

end ClientTx

/-- What a call of `write` was given, what lwIP took of it, and the result. -/
structure Written where
  source : List UInt8
  accepted : List UInt8
  result : Nat

namespace ClientTx

/-- The call in progress returns. -/
def finish (t : ClientTx) : Option Written × ClientTx :=
  (some ⟨t.source, t.accepted, t.written⟩, { t with phase := .idle })

/-- The test behind `_write_some`. -/
def test (timeout closed : Bool) (t : ClientTx) : Option Written × ClientTx :=
  let available := t.datasource.elim 0 DataSource.available
  if available = 0 || timeout || closed || !t.pcb then
    let t := t.deleteSource
    if t.sync then (none, { t with phase := .flushing }) else t.finish
  else (none, { t with phase := .waiting })

/-- A round of `wait_until_sent`. -/
def flush (timeout established full : Bool) (t : ClientTx) : Option Written × ClientTx :=
  if !t.pcb || timeout || !established || full then t.finish else (none, t)

/-- `write` of a data source, from `_write_from_source` on; nothing without a connection. -/
def write (ds : DataSource) (source : List UInt8) (t : ClientTx) : Option Written × ClientTx :=
  if t.pcb then
    (none, { t with
      phase := .writeSome
      datasource := some ds
      written := 0
      source
      accepted := [] })
  else (some ⟨source, [], 0⟩, t)

end ClientTx

/-- What happens: the caller between its calls, the steps of a call, and lwIP. -/
inductive TxAction where
  /-- The caller uses its memory. -/
  | store (block : Nat) (bytes : List UInt8)
  | setSync (sync : Bool)
  | write (data size : Nat)
  /-- `write` of a stream, or `write_P` of bytes in flash. -/
  | writeStream (bytes : List UInt8)
  | round (closed : Bool) (sndbuf : Nat) (ok : Bool)
  | test (timeout closed : Bool)
  | wake
  | flush (timeout established full : Bool)
  | acked (count : Nat)
  /-- `close`: lwIP goes on with what it has. -/
  | close
  /-- An error or `abort`: lwIP gives up what it has. -/
  | lost

namespace ClientTx

/-- One action. An action that has no place in the phase does not happen. -/
def step (action : TxAction) (t : ClientTx) : Option Written × ClientTx :=
  match action, t.phase with
  | .store block bytes, .idle =>
    (none, { t with memory := Function.update t.memory (.caller block) (some bytes) })
  | .setSync sync, _ => (none, { t with sync })
  | .write data size, .idle =>
    match t.memory (.caller data) with
    | some bytes =>
      if size ≤ bytes.length then t.write (.buffer ⟨data, size, 0⟩) (bytes.take size) else (none, t)
    | none => (none, t)
  | .writeStream bytes, .idle =>
    t.write (.stream ⟨bytes, bytes.length, 0, none, 0, 0⟩) bytes
  | .round closed sndbuf ok, .writeSome => (none, t.round closed sndbuf ok)
  | .test timeout closed, .written => t.test timeout closed
  | .wake, .waiting => (none, { t with phase := .writeSome })
  | .flush timeout established full, .flushing => t.flush timeout established full
  | .acked count, _ => (none, { t with queue := t.queue.drop count })
  | .close, _ => (none, { t with pcb := false })
  | .lost, _ => (none, { t with pcb := false, queue := [] })
  | _, _ => (none, t)

/-- A connection just made. -/
def fresh (sync : Bool) (memory : Nat → List UInt8) : ClientTx where
  pcb := true
  sync
  phase := .idle
  memory
    | .caller block => some (memory block)
    | .heap _ => none
  allocated := 0
  queue := []
  datasource := none
  written := 0
  source := []
  accepted := []

end ClientTx
end Esp8266.Source
