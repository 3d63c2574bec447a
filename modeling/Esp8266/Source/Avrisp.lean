import Esp8266.Lib.Reading

/-!
# AVR in-system programmer

libraries/ESP8266AVRISP/src/ESP8266AVRISP.cpp:126-529. `getch` waits for the client's next byte. An
access beyond `buff` or a buffer from the heap is a fault, and so is one to a buffer for which no
memory was found. What the target answers is a function of all bytes sent to it on the bus. Of the
device's parameters there are those that are read again; the count of errors, the programming mode,
the reset pin and delays are left out.
-/
set_option autoImplicit false

namespace Esp8266.Source.Avrisp
open Esp8266.Lib.Reading Esp8266.Lib.Reading.Program

structure Env where
  /-- The answer to the last of the bytes on the bus. -/
  target : List UInt8 → UInt8
  /-- Whether the n-th call of `malloc`, for so many bytes, finds memory. -/
  malloc : Nat → Nat → Bool
  /-- What is in memory from the heap. -/
  garbage : Nat → UInt8

structure State where
  buff : Nat → UInt8
  pagesize : Nat
  eepromsize : Nat
  here : UInt32
  /-- The bytes on the bus. -/
  bus : List UInt8
  /-- The bytes to the client. -/
  sent : List UInt8
  connected : Bool
  /-- The calls of `malloc`. -/
  allocations : Nat

abbrev Task := Program State UInt8

/-! ## Constants -/

def syncCrcEop : UInt8 := 0x20

def respStkOk : UInt8 := 0x10
def respStkFailed : UInt8 := 0x11
def respStkUnknown : UInt8 := 0x12
def respStkInsync : UInt8 := 0x14
def respStkNosync : UInt8 := 0x15

def cmndStkGetSync : UInt8 := 0x30
def cmndStkGetSignOn : UInt8 := 0x31
def cmndStkGetParameter : UInt8 := 0x41
def cmndStkSetDevice : UInt8 := 0x42
def cmndStkSetDeviceExt : UInt8 := 0x45
def cmndStkEnterProgmode : UInt8 := 0x50
def cmndStkLeaveProgmode : UInt8 := 0x51
def cmndStkLoadAddress : UInt8 := 0x55
def cmndStkUniversal : UInt8 := 0x56
def cmndStkProgFlash : UInt8 := 0x60
def cmndStkProgData : UInt8 := 0x61
def cmndStkProgPage : UInt8 := 0x64
def cmndStkReadPage : UInt8 := 0x74
def cmndStkReadSign : UInt8 := 0x75

def memtypeFlash : UInt8 := 0x46
def memtypeEeprom : UInt8 := 0x45

def eechunk : Nat := 32

/-! ## The client, the bus and the page buffer -/

def getch : Task UInt8 := next

def print (bytes : List UInt8) : Task Unit := modify fun s => { s with sent := s.sent ++ bytes }

def writeBuff (x : Nat) (b : UInt8) : Task Unit := do
  access (x < 256)
  modify fun s => { s with buff := fun i => if i = x then b else s.buff i }

def readBuff (x : Nat) : Task UInt8 := do
  access (x < 256)
  let s ← get
  pure (s.buff x)

/-- The loop of `fill`, with what it has still to read. -/
def fillLoop : Nat → Nat → Task Unit
  | 0, _ => pure ()
  | n + 1, x => do
    let b ← getch
    writeBuff x b
    fillLoop n (x + 1)

def fill (n : Nat) : Task Unit := fillLoop n 0

def transfer (env : Env) (b : UInt8) : Task UInt8 := do
  modify fun s => { s with bus := s.bus ++ [b] }
  let s ← get
  pure (env.target s.bus)

def spiTransaction (env : Env) (a b c d : UInt8) : Task UInt8 := do
  let _ ← transfer env a
  let _ ← transfer env b
  let _ ← transfer env c
  transfer env d

/-! ## Replies -/

/-- A reply to a command whose end is there, and the one to any other. -/
def reply (insync nosync : List UInt8) : Task Unit := do
  let b ← getch
  if syncCrcEop = b then print insync else print nosync

def emptyReply : Task Unit := reply [respStkInsync, respStkOk] [respStkNosync]

def breply (b : UInt8) : Task Unit := reply [respStkInsync, b, respStkOk] [respStkNosync]

def getParameter (c : UInt8) : Task Unit :=
  if c = 0x80 then breply 2
  else if c = 0x81 then breply 1
  else if c = 0x82 then breply 18
  else if c = 0x93 then breply 0x53
  else breply 0

/-! ## Commands -/

def beget16 (x : Nat) : Task Nat := do
  let high ← readBuff x
  let low ← readBuff (x + 1)
  pure (high.toNat * 256 + low.toNat)

def setParameters : Task Unit := do
  let pagesize ← beget16 12
  let eepromsize ← beget16 14
  modify fun s => { s with pagesize, eepromsize }

def startPmode (env : Env) : Task Unit := do
  let _ ← transfer env 0x00
  let _ ← spiTransaction env 0xAC 0x53 0x00 0x00
  pure ()

def universal (env : Env) : Task Unit := do
  fill 4
  let a ← readBuff 0
  let b ← readBuff 1
  let c ← readBuff 2
  let d ← readBuff 3
  let ch ← spiTransaction env a b c d
  breply ch

def addrHigh (addr : UInt32) : UInt8 := (addr >>> 8 &&& 0xFF).toUInt8
def addrLow (addr : UInt32) : UInt8 := (addr &&& 0xFF).toUInt8

def flash (env : Env) (hilo : UInt8) (addr : UInt32) (data : UInt8) : Task Unit := do
  let _ ← spiTransaction env (0x40 + 8 * hilo) (addrHigh addr) (addrLow addr) data
  pure ()

def commit (env : Env) (addr : UInt32) : Task Unit := do
  let _ ← spiTransaction env 0x4C (addrHigh addr) (addrLow addr) 0
  pure ()

def addrPage (pagesize : Nat) (addr : UInt32) : UInt32 :=
  if pagesize = 32 then addr &&& 0xFFFFFFF0
  else if pagesize = 64 then addr &&& 0xFFFFFFE0
  else if pagesize = 128 then addr &&& 0xFFFFFFC0
  else if pagesize = 256 then addr &&& 0xFFFFFF80
  else addr

/-- The loop of `write_flash_pages`. -/
def writeFlashLoop (env : Env) (length x : Nat) (page : UInt32) : Task UInt32 :=
  if x < length then do
    let s ← get
    let here := addrPage s.pagesize s.here
    (if page ≠ here then commit env page else pure ())
    let low ← readBuff x
    flash env 0 s.here low
    let high ← readBuff (x + 1)
    flash env 1 s.here high
    modify fun s => { s with here := s.here + 1 }
    writeFlashLoop env length (x + 2) here
  else pure page
termination_by length - x

def writeFlashPages (env : Env) (length : Nat) : Task UInt8 := do
  let s ← get
  let page ← writeFlashLoop env length 0 (addrPage s.pagesize s.here)
  commit env page
  pure respStkOk

def writeFlash (env : Env) (length : Nat) : Task Unit := do
  fill length
  let b ← getch
  if syncCrcEop = b then do
    print [respStkInsync]
    let result ← writeFlashPages env length
    print [result]
  else print [respStkNosync]

/-- The loop of `write_eeprom_chunk`, with what it has still to write. -/
def writeChunkLoop (env : Env) (start : UInt32) : Nat → Nat → Task Unit
  | 0, _ => pure ()
  | n + 1, x => do
    let addr := start + UInt32.ofNat x
    let b ← readBuff x
    let _ ← spiTransaction env 0xC0 (addrHigh addr) (addrLow addr) b
    writeChunkLoop env start n (x + 1)

def writeEepromChunk (env : Env) (start : UInt32) (length : Nat) : Task Unit := do
  fill length
  writeChunkLoop env start length 0

/-- The loop of `write_eeprom`, and the chunk behind it. -/
def writeEepromLoop (env : Env) (start : UInt32) (remaining : Nat) : Task Unit :=
  if eechunk < remaining then do
    writeEepromChunk env start eechunk
    writeEepromLoop env (start + UInt32.ofNat eechunk) (remaining - eechunk)
  else writeEepromChunk env start remaining
termination_by remaining
decreasing_by
  unfold eechunk at *
  omega

def writeEeprom (env : Env) (length : Nat) : Task UInt8 := do
  let s ← get
  if s.eepromsize < length then pure respStkFailed
  else do
    writeEepromLoop env (s.here * 2) length
    pure respStkOk

def programPage (env : Env) : Task Unit := do
  let high ← getch
  let low ← getch
  let length := 256 * high.toNat + low.toNat
  let memtype ← getch
  if memtype = memtypeFlash then writeFlash env length
  else if memtype = memtypeEeprom then do
    let result ← writeEeprom env length
    reply [respStkInsync, result] [respStkNosync]
  else print [respStkFailed]

def flashRead (env : Env) (hilo : UInt8) (addr : UInt32) : Task UInt8 :=
  spiTransaction env (0x20 + hilo * 8) (addrHigh addr) (addrLow addr) 0

/-- A buffer from the heap: its size, or 0 where no memory was found, and its bytes. -/
structure Page where
  size : Nat
  bytes : Nat → UInt8

def malloc (env : Env) (size : Nat) : Task Page := do
  let s ← get
  modify fun s => { s with allocations := s.allocations + 1 }
  pure ⟨if env.malloc s.allocations size then size else 0, env.garbage⟩

def Page.set (data : Page) (x : Nat) (b : UInt8) : Task Page := do
  access (x < data.size)
  pure { data with bytes := fun i => if i = x then b else data.bytes i }

/-- The end of the commands that read a page. -/
def sendPage (data : Page) (length : Nat) : Task Unit := do
  let data ← data.set length respStkOk
  print ((List.range (length + 1)).map data.bytes)

/-- The loop of `flash_read_page`. -/
def flashReadLoop (env : Env) (length x : Nat) (data : Page) : Task Page :=
  if x < length then do
    let s ← get
    let low ← flashRead env 0 s.here
    let data ← data.set x low
    let high ← flashRead env 1 s.here
    let data ← data.set (x + 1) high
    modify fun s => { s with here := s.here + 1 }
    flashReadLoop env length (x + 2) data
  else pure data
termination_by length - x

def flashReadPage (env : Env) (length : Nat) : Task Unit := do
  let data ← malloc env (length + 1)
  let data ← flashReadLoop env length 0 data
  sendPage data length

/-- The loop of `eeprom_read_page`, with what it has still to read. -/
def eepromReadLoop (env : Env) (start : UInt32) : Nat → Nat → Page → Task Page
  | 0, _, data => pure data
  | n + 1, x, data => do
    let addr := start + UInt32.ofNat x
    let ee ← spiTransaction env 0xA0 (addrHigh addr) (addrLow addr) 0xFF
    let data ← data.set x ee
    eepromReadLoop env start n (x + 1) data

def eepromReadPage (env : Env) (length : Nat) : Task Unit := do
  let data ← malloc env (length + 1)
  let s ← get
  let data ← eepromReadLoop env (s.here * 2) length 0 data
  sendPage data length

def readPage (env : Env) : Task Unit := do
  let high ← getch
  let low ← getch
  let length := 256 * high.toNat + low.toNat
  let memtype ← getch
  let b ← getch
  if syncCrcEop ≠ b then print [respStkNosync]
  else do
    print [respStkInsync]
    if memtype = memtypeFlash then flashReadPage env length
    else if memtype = memtypeEeprom then eepromReadPage env length
    else pure ()

def readSignature (env : Env) : Task Unit := do
  let b ← getch
  if syncCrcEop ≠ b then print [respStkNosync]
  else do
    print [respStkInsync]
    let high ← spiTransaction env 0x30 0x00 0x00 0x00
    print [high]
    let middle ← spiTransaction env 0x30 0x00 0x01 0x00
    print [middle]
    let low ← spiTransaction env 0x30 0x00 0x02 0x00
    print [low]
    print [respStkOk]

def loadAddress : Task Unit := do
  let low ← getch
  modify fun s => { s with here := low.toUInt32 }
  let high ← getch
  modify fun s => { s with here := s.here + 256 * high.toUInt32 }
  emptyReply

/-- The text `AVR ISP`. -/
def signOn : List UInt8 := [0x41, 0x56, 0x52, 0x20, 0x49, 0x53, 0x50]

/-- The command behind its first byte. -/
def dispatch (env : Env) (ch : UInt8) : Task Unit :=
  if ch = cmndStkGetSync then emptyReply
  else if ch = cmndStkGetSignOn then reply ([respStkInsync] ++ signOn ++ [respStkOk]) []
  else if ch = cmndStkGetParameter then do
    let c ← getch
    getParameter c
  else if ch = cmndStkSetDevice then do
    fill 20
    setParameters
    emptyReply
  else if ch = cmndStkSetDeviceExt then do
    fill 5
    emptyReply
  else if ch = cmndStkEnterProgmode then do
    startPmode env
    emptyReply
  else if ch = cmndStkLoadAddress then loadAddress
  else if ch = cmndStkProgFlash then do
    let _ ← getch
    let _ ← getch
    emptyReply
  else if ch = cmndStkProgData then do
    let _ ← getch
    emptyReply
  else if ch = cmndStkProgPage then programPage env
  else if ch = cmndStkReadPage then readPage env
  else if ch = cmndStkUniversal then universal env
  else if ch = cmndStkLeaveProgmode then do
    emptyReply
    modify fun s => { s with connected := false }
  else if ch = cmndStkReadSign then readSignature env
  else if ch = syncCrcEop then print [respStkNosync]
  else reply [respStkUnknown] [respStkNosync]

def avrisp (env : Env) : Task Unit := do
  let ch ← getch
  dispatch env ch

/-- The loop of `serve`: where a command is read, and with which of the client's bytes. -/
inductive Serves (env : Env) (s : State) (input : List UInt8) : State → List UInt8 → Prop where
  | start : Serves env s input s input
  | next {s' s'' : State} {left left' : List UInt8} (before : Serves env s input s' left)
      (command : avrisp env s' left = .done () s'' left') (connected : s''.connected = true) :
      Serves env s input s'' left'

end Esp8266.Source.Avrisp
