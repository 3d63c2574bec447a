import Esp8266.Source.Esp
import Esp8266.Source.WString

/-!
# UpdaterClass

cores/esp8266/Updater.h and Updater.cpp, without the LED, the yields and the debug output.
Members keep their names without the underscore. `_buffer` is the whole allocation, so that
its uninitialised part can be read as the code may read it; `_md5` and `_hash` are the bytes
added to them since their `begin()`.
-/
set_option autoImplicit false

namespace Esp8266.Source.Updater
open Esp8266.Lib.Decimal Esp8266.Lib.NorFlash Esp8266.Lib.Word32 Esp8266.Source.RtcCommand
  Esp8266.Source.Esp Esp8266.Source.WString

inductive UpdateError where
  | ok | write | erase | read | space | size | stream | md5 | flashConfig | newFlashConfig
  | magicByte | bootstrap | sign
  deriving DecidableEq, Repr

def uFlash : Nat := 0
def uFs : Nat := 100

/-- `UpdaterVerifyClass`, with the hash taken as a function of the bytes it was given. -/
structure Verifier where
  length : Nat
  verify : List UInt8 → List UInt8 → Bool

structure UpdaterClass where
  error : UpdateError
  buffer : Option (List UInt8)
  bufferLen : Nat
  bufferSize : Nat
  size : Nat
  startAddress : Nat
  currentAddress : Nat
  command : Nat
  targetMd5 : List UInt8
  md5 : List UInt8
  verify : Option Verifier
  progressCallback : Bool

structure Machine where
  updater : UpdaterClass
  board : Board

/-- Updater.cpp:30; the buffer size is not initialised. -/
def UpdaterClass.construct (bufferSize : Nat) (verify : Option Verifier) (progressCallback : Bool) :
    UpdaterClass where
  error := .ok
  buffer := none
  bufferLen := 0
  bufferSize := bufferSize
  size := 0
  startAddress := 0
  currentAddress := 0
  command := uFlash
  targetMd5 := []
  md5 := []
  verify := verify
  progressCallback := progressCallback

namespace UpdaterClass

def hasError (u : UpdaterClass) : Bool := u.error ≠ .ok
def isRunning (u : UpdaterClass) : Bool := 0 < u.size
def isFinished (u : UpdaterClass) : Bool := u.currentAddress = add32 u.startAddress u.size
def progress (u : UpdaterClass) : Nat := sub32 u.currentAddress u.startAddress
def remaining (u : UpdaterClass) : Nat := sub32 u.size (sub32 u.currentAddress u.startAddress)

/-- Updater.cpp:61. -/
def reset (u : UpdaterClass) : UpdaterClass :=
  { u with
    buffer := none
    bufferLen := 0
    startAddress := 0
    currentAddress := 0
    size := 0
    command := uFlash }

/-- Updater.cpp:538. -/
def setError (error : UpdateError) (u : UpdaterClass) : UpdaterClass := reset { u with error := error }

end UpdaterClass

namespace Machine

def reset (m : Machine) : Machine := { m with updater := m.updater.reset }

def setError (error : UpdateError) (m : Machine) : Machine :=
  { m with updater := m.updater.setError error }

/-- `memcpy` or `read` into `_buffer + _bufferLen`, and the new length. -/
def fill (bytes : List UInt8) (m : Machine) : Machine :=
  { m with updater := { m.updater with
      buffer := m.updater.buffer.map fun buffer =>
        buffer.take m.updater.bufferLen ++ bytes ++
          buffer.drop (m.updater.bufferLen + bytes.length)
      bufferLen := add32 m.updater.bufferLen bytes.length } }

end Machine

/-! ## begin -/

/-- What `begin` finds outside of the updater: the boot mode pins and the free heap. -/
structure Surroundings where
  bootMode : Nat
  freeHeap : Nat

inductive Region where
  | start (address : Nat)
  | noSpace
  | unknownCommand

/-- Rounding up to a sector, as `begin` and `copy_raw` do it. -/
def roundSector (n : Nat) : Nat := add32 n (flashSectorSize - 1) &&& (2 ^ 32 - 2 ^ 12)

/-- The address computation of `begin` (Updater.cpp:111-165). -/
def updateRegion (fsStart fsEnd sketchSize size command : Nat) : Region :=
  let currentSketchSize := roundSector sketchSize
  let roundedSize := roundSector size
  if command = uFlash then
    let updateEndAddress := sub32 fsStart flashMap
    let updateStartAddress :=
      if updateEndAddress > roundedSize then sub32 updateEndAddress roundedSize else 0
    if updateStartAddress < currentSketchSize then .noSpace else .start updateStartAddress
  else if command = uFs then
    if add32 fsStart roundedSize > fsEnd then .noSpace else .start (sub32 fsStart flashMap)
  else .unknownCommand

/-- Updater.cpp:77. -/
def begin (env : Env) (size command : Nat) (around : Surroundings) (m : Machine) :
    Bool × Machine :=
  if 0 < m.updater.size then (false, m)
  else if around.bootMode = 1 then (false, m.setError .bootstrap)
  else if size = 0 then (false, m.setError .size)
  else
    let (configured, board) := checkFlashConfig env m.board
    let m := { m with board }
    if !configured then (false, m.setError .flashConfig)
    else
      let m := { m with updater := { m.updater.reset with error := .ok } }
      let (sketchSize, board) := getSketchSize env m.board
      let m := { m with board }
      match updateRegion env.layout.fsStart env.layout.fsEnd sketchSize size command with
      | .noSpace => (false, m.setError .space)
      | .unknownCommand => (false, m)
      | .start address =>
        let bufferSize := if around.freeHeap > 2 * flashSectorSize then flashSectorSize else 256
        (true, { m with updater := { m.updater with
          startAddress := address
          currentAddress := address
          size := size
          bufferSize := bufferSize
          buffer := some ((List.range bufferSize).map env.heap)
          command := command
          md5 := if m.updater.verify.isNone then [] else m.updater.md5 } })

/-- Updater.cpp:197. -/
def setMD5 (expectedMd5 : List UInt8) (m : Machine) : Bool × Machine :=
  if expectedMd5.length ≠ 32 then (false, m)
  else (true, { m with updater := { m.updater with targetMd5 := expectedMd5 } })

/-! ## Writing -/

def flashModePage : Nat := 0
def flashModeOffset : Nat := 2

/-- The buffer while it is written and the buffer after `_writeBuffer` has restored it. -/
structure Patch where
  written : List UInt8
  restored : List UInt8

/-- The flash mode part of `_writeBuffer` (Updater.cpp:344-366 and 380-382). -/
def patchFlashMode (env : Env) (u : UpdaterClass) (board : Board) : Patch × Board :=
  let buffer := u.buffer.getD []
  if u.currentAddress = add32 u.startAddress flashModePage ∧ buffer.getD 0 0 ≠ 0x1f ∧
      u.command = uFlash then
    let (flashMode, board) := getFlashChipMode env board
    let bufferFlashMode := magicFlashChipMode (buffer.getD flashModeOffset 0)
    if bufferFlashMode ≠ flashMode then
      let buffer := buffer.set flashModeOffset flashMode.byte
      ({ written := buffer, restored := buffer.set flashModeOffset bufferFlashMode.byte }, board)
    else ({ written := buffer, restored := buffer }, board)
  else ({ written := buffer, restored := buffer }, board)

/-- The erase that opens a sector. -/
def eraseSector (env : Env) (u : UpdaterClass) (board : Board) : Bool × Board :=
  if u.currentAddress % flashSectorSize = 0 then
    flashEraseSector env (u.currentAddress / flashSectorSize) board
  else (true, board)

/-- Updater.cpp:333. -/
def writeBuffer (env : Env) (m : Machine) : Bool × Machine :=
  let u := m.updater
  let (eraseResult, board) := eraseSector env u m.board
  let (patch, board) := patchFlashMode env u board
  if eraseResult then
    let (writeResult, board) :=
      flashWrite env u.currentAddress (patch.written.take u.bufferLen) board
    if writeResult then
      (true, { m with
        board
        updater := { u with
          buffer := some patch.restored
          md5 := if u.verify.isNone then u.md5 ++ patch.restored.take u.bufferLen else u.md5
          currentAddress := add32 u.currentAddress u.bufferLen
          bufferLen := 0 } })
    else (false, { m with board }.setError .write)
  else (false, { m with board }.setError .erase)

/-- The loop of `write(data, len)`; `rest` is what is left of the data. Each pass after the
first takes a whole buffer, so the length and two is fuel enough. -/
def writeLoop (env : Env) (len : Nat) : Nat → List UInt8 → Machine → Nat × Machine
  | 0, rest, m => (len - rest.length, m)
  | fuel + 1, rest, m =>
    if add32 m.updater.bufferLen rest.length > m.updater.bufferSize then
      let toBuff := sub32 m.updater.bufferSize m.updater.bufferLen
      let (ok, m) := writeBuffer env (m.fill (rest.take toBuff))
      if ok then writeLoop env len fuel (rest.drop toBuff) m else (len - rest.length, m)
    else
      let m := m.fill rest
      if m.updater.bufferLen = m.updater.remaining then
        let (ok, m) := writeBuffer env m
        if ok then (len, m) else (len - rest.length, m)
      else (len, m)

/-- Updater.cpp:394. -/
def write (env : Env) (data : List UInt8) (m : Machine) : Nat × Machine :=
  if m.updater.hasError || !m.updater.isRunning then (0, m)
  else if add32 (add32 m.updater.progress m.updater.bufferLen) data.length > m.updater.size then
    (0, m.setError .space)
  else writeLoop env data.length (data.length + 2) data m

/-- The loop of `write<T>`. `polls` is what `available()` answers each time it is asked, at
most what the source still has; an exhausted list answers zero. -/
def writeSourceLoop (env : Env) : List Nat → List UInt8 → Nat → Machine → Nat × Machine
  | [], _, written, m => (written, m)
  | poll :: polls, bytes, written, m =>
    let available := min poll bytes.length
    if available = 0 then (written, m)
    else
      let available :=
        if add32 m.updater.bufferLen available > m.updater.remaining then
          sub32 m.updater.remaining m.updater.bufferLen
        else available
      if add32 m.updater.bufferLen available > m.updater.bufferSize then
        let toBuff := sub32 m.updater.bufferSize m.updater.bufferLen
        let (ok, m) := writeBuffer env (m.fill (bytes.take toBuff))
        if !ok then (written, m)
        else if m.updater.remaining = 0 then (written + toBuff, m)
        else writeSourceLoop env polls (bytes.drop toBuff) (written + toBuff) m
      else
        let m := m.fill (bytes.take available)
        if m.updater.bufferLen = m.updater.remaining then
          let (ok, m) := writeBuffer env m
          if !ok then (written + available, m)
          else if m.updater.remaining = 0 then (written + available, m)
          else writeSourceLoop env polls (bytes.drop available) (written + available) m
        else if m.updater.remaining = 0 then (written + available, m)
        else writeSourceLoop env polls (bytes.drop available) (written + available) m

/-- Updater.h:140. -/
def writeSource (env : Env) (polls : List Nat) (bytes : List UInt8) (m : Machine) :
    Nat × Machine :=
  if m.updater.hasError || !m.updater.isRunning then (0, m)
  else writeSourceLoop env polls bytes 0 m

/-- Updater.cpp:427. -/
def verifyHeader (data : UInt8) (m : Machine) : Bool × Machine :=
  if m.updater.command = uFlash then
    if data ≠ 0xe9 ∧ data ≠ 0x1f then (false, m.setError .magicByte) else (true, m)
  else if m.updater.command = uFs then (true, m)
  else (false, m)

def reportProgress (m : Machine) : Machine :=
  if m.updater.progressCallback then
    { m with board := m.board.note (.progress m.updater.progress m.updater.size) }
  else m

/-- The rest of a pass of `writeStream` once `readBytes` delivered something. -/
def streamPass (env : Env) (got : List UInt8) (m : Machine) : Bool × Machine :=
  let m := m.fill got
  if m.updater.bufferLen = m.updater.remaining ∨ m.updater.bufferLen = m.updater.bufferSize then
    let (ok, m) := writeBuffer env m
    if ok then (true, reportProgress m) else (false, m)
  else (true, reportProgress m)

/-- What a pass of `writeStream` asks for. -/
def bytesToRead (u : UpdaterClass) : Nat :=
  let bytes := sub32 u.bufferSize u.bufferLen
  if bytes > u.remaining then u.remaining else bytes

/-- What a pass gets from `readBytes`, asked again after a timeout; `grant` is what the stream is
able to deliver each time. -/
def readTwice (grant : Nat × Nat) (want left : Nat) : Nat :=
  let toRead := min (min grant.1 want) left
  if toRead = 0 then min (min grant.2 want) left else toRead

/-- The loop of `writeStream`; an exhausted list of grants delivers nothing. -/
def writeStreamLoop (env : Env) : List (Nat × Nat) → List UInt8 → Nat → Machine → Nat × Machine
  | [], _, written, m =>
    if m.updater.remaining = 0 then (written, reportProgress m)
    else (written, m.setError .stream)
  | grant :: grants, bytes, written, m =>
    if m.updater.remaining = 0 then (written, reportProgress m)
    else
      let toRead := readTwice grant (bytesToRead m.updater) bytes.length
      if toRead = 0 then (written, m.setError .stream)
      else
        match streamPass env (bytes.take toRead) m with
        | (false, m) => (written, m)
        | (true, m) => writeStreamLoop env grants (bytes.drop toRead) (written + toRead) m

/-- A stream: its bytes, whether the first is there when `peek` is called, and the grants. -/
structure Stream where
  bytes : List UInt8
  ready : Bool
  grants : List (Nat × Nat)

/-- `peek()` answers -1 when nothing is there. -/
def Stream.peek (stream : Stream) : UInt8 :=
  if stream.ready then stream.bytes.headD 0xff else 0xff

/-- Updater.cpp:482. -/
def writeStream (env : Env) (stream : Stream) (m : Machine) : Nat × Machine :=
  if m.updater.hasError || !m.updater.isRunning then (0, m)
  else
    let (ok, m) := verifyHeader stream.peek m
    if !ok then (0, m.reset)
    else
      let m := if m.updater.progressCallback then
          { m with board := m.board.note (.progress 0 m.updater.size) }
        else m
      writeStreamLoop env stream.grants stream.bytes 0 m

/-! ## end -/

/-- Updater.cpp:443. -/
def verifyEnd (env : Env) (m : Machine) : Bool × Machine :=
  if m.updater.command = uFlash then
    let (ok, buf, board) := flashRead env m.updater.startAddress (List.replicate 4 0) m.board
    let m := { m with board }
    if !ok then (false, m.setError .read)
    else if buf.getD 0 0 = 0x1f ∧ buf.getD 1 0 = 0x8b then (true, m)
    else if buf.getD 0 0 ≠ 0xe9 then (false, m.setError .magicByte)
    else if magicFlashChipSize ((buf.getD 3 0 &&& 0xf0) >>> 4) > getFlashChipRealSize env then
      (false, m.setError .newFlashConfig)
    else (true, m)
  else if m.updater.command = uFs then (true, m)
  else (false, m)

/-- The hash loop of `end` (Updater.cpp:248-252), from offset `i` on with `left` bytes to go;
`buff` is what the last read left in the buffer. -/
def hashLoop (env : Env) (start : Nat) : Nat → Nat → Nat → List UInt8 → List UInt8 → Board →
    List UInt8 × Board
  | 0, _, _, _, hashed, board => (hashed, board)
  | fuel + 1, i, left, buff, hashed, board =>
    if 0 < left then
      let (_, buff, board) := flashRead env (add32 start i) buff board
      hashLoop env start fuel (i + 128) (left - 128) buff
        (hashed ++ buff.take (min 128 left)) board
    else (hashed, board)

/-- The last word of the image. -/
def signatureLength (env : Env) (u : UpdaterClass) (board : Board) : Nat × Board :=
  let (_, word, board) :=
    flashRead env (sub32 (add32 u.startAddress u.size) 4) (List.replicate 4 0) board
  (wordOf (word.getD 0 0) (word.getD 1 0) (word.getD 2 0) (word.getD 3 0), board)

/-- The hashed bytes; `binSize` is a signed number. -/
def hashImage (env : Env) (start size : Nat) (board : Board) : List UInt8 × Board :=
  let left := if size < 2 ^ 31 then size else 0
  hashLoop env start (left + 1) 0 left ((List.range 128).map env.heap) [] board

/-- `_size - sigLen - sizeof(uint32_t)`. -/
def binSize (size sigLen : Nat) : Nat := sub32 (sub32 size sigLen) 4

/-- The signature behind the hashed bytes, read into a buffer of its own. -/
def readSignature (env : Env) (u : UpdaterClass) (sigLen : Nat) (board : Board) :
    List UInt8 × Board :=
  let (_, sig, board) := flashRead env (add32 u.startAddress (binSize u.size sigLen))
    ((List.range sigLen).map env.heap) board
  (sig, board)

/-- `_verify->verify`, on the hash and the signature that was read. -/
def judgeSignature (verifier : Verifier) (hashed : List UInt8) (signature : List UInt8 × Board)
    (m : Machine) : Bool × Machine :=
  let accepted := verifier.verify hashed signature.1
  let m := { m with board := signature.2.note (.verify hashed signature.1 accepted) }
  if accepted then (true, m) else (false, m.setError .sign)

/-- From `malloc` on, with the hashed bytes. -/
def checkSignature (env : Env) (verifier : Verifier) (sigLen : Nat) (image : List UInt8 × Board)
    (m : Machine) : Bool × Machine :=
  if !env.mallocSucceeds sigLen then (false, { m with board := image.2 }.setError .sign)
  else judgeSignature verifier image.1 (readSignature env m.updater sigLen image.2) m

/-- From the comparison of the lengths on, with the last word of the image. -/
def checkTrailer (env : Env) (verifier : Verifier) (trailer : Nat × Board) (m : Machine) :
    Bool × Machine :=
  if trailer.1 ≠ verifier.length then (false, { m with board := trailer.2 }.setError .sign)
  else
    checkSignature env verifier trailer.1
      (hashImage env m.updater.startAddress (binSize m.updater.size trailer.1) trailer.2) m

/-- The signature part of `end` (Updater.cpp:226-281). -/
def verifySignature (env : Env) (verifier : Verifier) (m : Machine) : Bool × Machine :=
  checkTrailer env verifier (signatureLength env m.updater m.board) m

/-- `strcasecmp(a, b) == 0`. -/
def sameIgnoringCase (a b : List UInt8) : Bool := a.map toLower = b.map toLower

/-- The signature or MD5 part of `end` (Updater.cpp:225-295). -/
def checkImage (env : Env) (m : Machine) : Bool × Machine :=
  match m.updater.verify with
  | some verifier => verifySignature env verifier m
  | none =>
    if m.updater.targetMd5.length ≠ 0 then
      if sameIgnoringCase m.updater.targetMd5 (env.md5Hex m.updater.md5) then (true, m)
      else (false, m.setError .md5)
    else (true, m)

/-- The command block that `end` writes; the other arguments are whatever the stack holds. -/
def copyCommand (env : Env) (start size : Nat) : EbootCommand where
  magic := env.stack 0
  action := actionCopyRaw
  args := fun i =>
    if i.val = 0 then UInt32.ofNat start
    else if i.val = 1 then 0
    else if i.val = 2 then UInt32.ofNat size
    else env.stack (i.val + 2)
  crc32 := env.stack 31

/-- The last partial buffer and the size, when `end` is told to take what there is. -/
def takeRemaining (env : Env) (evenIfRemaining : Bool) (m : Machine) : Machine :=
  if evenIfRemaining then
    let m := if 0 < m.updater.bufferLen then (writeBuffer env m).2 else m
    { m with updater := { m.updater with size := m.updater.progress } }
  else m

/-- `UpdaterClass::end`, Updater.cpp:207. -/
def endUpdate (env : Env) (evenIfRemaining : Bool) (m : Machine) : Bool × Machine :=
  if m.updater.size = 0 then (false, m.reset)
  else if m.updater.hasError || (!m.updater.isFinished && !evenIfRemaining) then (false, m.reset)
  else
    let m := takeRemaining env evenIfRemaining m
    let (checked, m) := checkImage env m
    if !checked then (false, m)
    else
      let (ended, m) := verifyEnd env m
      if !ended then (false, m.reset)
      else
        let m :=
          if m.updater.command = uFlash then
            let command := copyCommand env m.updater.startAddress m.updater.size
            { m with board := ebootCommand command m.board }
          else m
        (true, m.reset)

/-! ## printError -/

/-- The values of the `UPDATE_ERROR` macros. -/
def UpdateError.code : UpdateError → Nat
  | .ok => 0
  | .write => 1
  | .erase => 2
  | .read => 3
  | .space => 4
  | .size => 5
  | .stream => 6
  | .md5 => 7
  | .flashConfig => 8
  | .newFlashConfig => 9
  | .magicByte => 10
  | .bootstrap => 11
  | .sign => 12

/-- `%d` of a word. -/
def printInt (n : Nat) : WString :=
  if n < 2 ^ 31 then decimal n else ofString "-" ++ decimal (2 ^ 32 - n)

/-- The text behind the number of the error. -/
def errorText (env : Env) (m : Machine) : WString × Machine :=
  match m.updater.error with
  | .ok => (ofString "No Error\r\n", m)
  | .write => (ofString "Flash Write Failed\r\n", m)
  | .erase => (ofString "Flash Erase Failed\r\n", m)
  | .read => (ofString "Flash Read Failed\r\n", m)
  | .space => (ofString "Not Enough Space\r\n", m)
  | .size => (ofString "Bad Size Given\r\n", m)
  | .stream => (ofString "Stream Read Timeout\r\n", m)
  | .md5 => (ofString "MD5 Failed: expected:" ++ cstr m.updater.targetMd5 ++
      ofString ", calculated:" ++ env.md5Hex m.updater.md5 ++ ofString "\n", m)
  | .flashConfig =>
    let (size, board) := getFlashChipSize env m.board
    (ofString "Flash config wrong real: " ++ printInt (getFlashChipRealSize env) ++
      ofString " IDE: " ++ printInt size ++ ofString "\n", { m with board })
  | .newFlashConfig =>
    (ofString "new Flash config wrong real: " ++ printInt (getFlashChipRealSize env) ++
      ofString "\n", m)
  | .magicByte => (ofString "Magic byte is wrong, not 0xE9\r\n", m)
  | .bootstrap =>
    (ofString "Invalid bootstrapping state, reset ESP8266 before updating\r\n", m)
  | .sign => (ofString "Signature verification failed\r\n", m)

/-- Updater.cpp:546. -/
def printError (env : Env) (m : Machine) : WString × Machine :=
  let (text, printed) := errorText env m
  (ofString "ERROR[" ++ decimal m.updater.error.code ++ ofString "]: " ++ text, printed)

end Esp8266.Source.Updater
