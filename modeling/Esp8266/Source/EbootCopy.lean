import Esp8266.Lib.Resets
import Esp8266.Source.Eboot
import Esp8266.Source.Updater

/-!
# The copy of the bootloader

bootloaders/eboot/eboot.c:95-269. The flash calls of the ROM are recorded; which of them fails,
what it leaves then and after which of them a reset comes is up to `Rom`. The decoder is a
parameter: it asks for its source block by block, in order. Of the watchdog, the console and the
verification behind the copy, which is commented out, nothing is kept.
-/
set_option autoImplicit false

namespace Esp8266.Source.Eboot
open Esp8266.Lib.NorFlash Esp8266.Lib.Resets Esp8266.Lib.Word32 Esp8266.Source.RtcCommand
  Esp8266.Source.Updater

/-! ## The ROM -/

/-- What the `k`-th call leaves in its range or its buffer when it fails, whether a reset comes
behind it, and what is on the stack. -/
structure Rom where
  fault : Nat → Option (Nat → UInt8)
  reset : Nat → Bool
  stack : Nat → UInt8

inductive Access where
  | erase (base : Nat)
  | write (addr : Nat)
  | read (addr size : Nat)
  deriving DecidableEq

/-- The accesses are newest first. -/
structure Spi where
  flash : Flash
  calls : Nat
  log : List Access

abbrev Boot := Program Spi

/-- `FLASH_SECTOR_SIZE`, and `buffer_size` of `copy_raw`. -/
def bufferSize : Nat := 0x1000

section

variable (rom : Rom)

/-- A call with its effect, and what it leaves when it fails. -/
def Rom.call {α : Type} (access : Access) (effect : Flash → α × Flash)
    (failed : (Nat → UInt8) → Flash → α × Flash) : Boot α := fun s =>
  let (result, flash) := match rom.fault s.calls with
    | none => effect s.flash
    | some junk => failed junk s.flash
  let s' : Spi := ⟨flash, s.calls + 1, access :: s.log⟩
  if rom.reset s.calls then .reset s' else .returned result s'

def spiEraseSector (sector : Nat) : Boot Bool :=
  let base := sector * bufferSize
  rom.call (.erase base) (fun flash => (true, erase base bufferSize flash))
    fun junk flash => (false, spoil base bufferSize junk flash)

def spiWrite (addr : Nat) (data : List UInt8) : Boot Bool :=
  rom.call (.write addr)
    (fun flash => (true, program addr data.length (fun i => data.getD i 0) flash))
    fun junk flash => (false, spoil addr data.length junk flash)

def spiRead (addr size : Nat) : Boot (Bool × List UInt8) :=
  rom.call (.read addr size) (fun flash => ((true, readRange flash addr size), flash))
    fun junk flash => ((false, (List.range size).map junk), flash)

def readFlashByte (addr : Nat) : Boot UInt8 := do
  let (_, buff) ← spiRead rom (addr / 4 * 4) 4
  pure (buff.getD (addr % 4) 0)

/-! ## The decoder -/

/-- `TINF_OK`, `TINF_DONE`, and the errors. -/
inductive Tinf where
  | ok | done | error
  deriving DecidableEq

/-- The decoder at work: it ends, or it asks for the next block of its source. -/
inductive Decoding (α : Type) where
  | ends (result : α)
  | asks (next : List UInt8 → Decoding α)

/-- `uzlib_gzip_parse_header` behind the calls that initialise, and `uzlib_uncompress` with the
room that is left in its destination, which is returned as far as it was filled. -/
structure Uzlib where
  State : Type
  parseHeader : Decoding (Tinf × State)
  uncompress : State → Nat → Decoding (Tinf × List UInt8 × State)

/-- The decoder with `uzlib_flash_read_cb`, and `uzlib_flash_read_cb_addr` behind it. -/
def Decoding.run {α : Type} : Decoding α → Nat → Boot (α × Nat)
  | .ends result, addr => pure (result, addr)
  | .asks next, addr => do
    let (_, block) ← spiRead rom addr bufferSize
    (next block).run (add32 addr bufferSize)

/-! ## copy_raw -/

variable (uzlib : Uzlib) (verify : Bool)

/-- The decoder between two calls, and the address of the next block. -/
abbrev Gunzip (uzlib : Uzlib) := Option (uzlib.State × Nat)

/-- The erase in front of a sector; a code ends the copy. -/
def eraseDestination (daddr : Nat) : Boot (Option Nat) :=
  if verify then pure none
  else do
    let ok ← spiEraseSector rom (daddr / bufferSize)
    pure (if ok then none else some 2)

/-- What the buffer gets, or the code that ends the copy. -/
def loadBuffer (buffer : List UInt8) (left : Int) (saddr : Nat) :
    Gunzip uzlib → Boot (Except Nat (List UInt8 × Gunzip uzlib))
  | none => do
    let (ok, buffer) ← spiRead rom saddr bufferSize
    pure (if ok then .ok (buffer, none) else .error 3)
  | some (state, addr) => do
    let toRead := min left.toNat bufferSize
    let ((res, output, state), addr) ← (uzlib.uncompress state toRead).run rom addr
    pure (if res = .error then .error 6
      else .ok ((output ++ buffer.drop output.length).take toRead ++
        List.replicate (bufferSize - toRead) 0xff, some (state, addr)))

/-- What is done with the buffer; a code ends the copy. -/
def storeBuffer (buffer : List UInt8) (daddr : Nat) : Boot (Option Nat) :=
  if verify then do
    let (ok, buffer2) ← spiRead rom daddr bufferSize
    pure (if !ok then some 4 else if buffer ≠ buffer2 then some 9 else none)
  else do
    let ok ← spiWrite rom daddr buffer
    pure (if ok then none else some 4)

/-- The loop `while(left > 0)`. -/
def copyLoop (gunzip : Gunzip uzlib) (buffer : List UInt8) (left : Int) (saddr daddr : Nat) :
    Boot Nat :=
  if left ≤ 0 then pure 0
  else do
    match ← eraseDestination rom verify daddr with
    | some code => pure code
    | none =>
      match ← loadBuffer rom uzlib buffer left saddr gunzip with
      | .error code => pure code
      | .ok (buffer, gunzip) =>
        match ← storeBuffer rom verify buffer daddr with
        | some code => pure code
        | none =>
          copyLoop gunzip buffer (left - bufferSize) (add32 saddr bufferSize)
            (add32 daddr bufferSize)
termination_by left.toNat
decreasing_by
  unfold bufferSize
  omega

/-- A word as an `int32_t`. -/
def toInt32 (n : Nat) : Int := if n < 2 ^ 31 then n else n - 2 ^ 32

/-- The two bytes of a gzip stream; the second is read where the first is right. -/
def isGzip (saddr : Nat) : Boot Bool := do
  let first ← readFlashByte rom saddr
  if first = 0x1f then do
    let second ← readFlashByte rom (add32 saddr 1)
    pure (second = 0x8b)
  else pure false

/-- The size at the end of a gzip stream. -/
def unpackedSize (saddr size : Nat) : Boot Nat := do
  let byte0 ← readFlashByte rom (sub32 (add32 saddr size) 4)
  let byte1 ← readFlashByte rom (sub32 (add32 saddr size) 3)
  let byte2 ← readFlashByte rom (sub32 (add32 saddr size) 2)
  let byte3 ← readFlashByte rom (sub32 (add32 saddr size) 1)
  pure (wordOf byte0 byte1 byte2 byte3)

def copyRaw (srcAddr dstAddr size : Nat) : Boot Nat :=
  if srcAddr % bufferSize ≠ 0 ∨ dstAddr % bufferSize ≠ 0 then pure 1
  else do
    let buffer := (List.range bufferSize).map rom.stack
    if ← isGzip rom srcAddr then do
      let left ← unpackedSize rom srcAddr size
      let ((res, state), addr) ← uzlib.parseHeader.run rom srcAddr
      if res ≠ .ok then pure 5
      else
        copyLoop rom uzlib verify (some (state, addr)) buffer (toInt32 left) srcAddr dstAddr
    else copyLoop rom uzlib verify none buffer (toInt32 (roundSector size)) srcAddr dstAddr

/-! ## main -/

/-- What `main` leaves: the result, the command block, and the application that is loaded. -/
structure Booted where
  res : Nat
  rtc : Rtc
  loads : Option Nat

/-- `main` up to `load_app_from_flash_raw`. -/
def main (rtc : Rtc) : Boot Booted := do
  -- `print_version(0)`
  let _ ← spiRead rom (appStartOffset + 16) 4
  let (status, cmd) := ebootCommandRead rtc
  let cleared := if status = 0 then ebootCommandClear rtc else rtc
  let action := if status = 0 then cmd.action else actionLoadApp
  let address := if status = 0 then (cmd.args 0).toNat else 0
  if action = actionCopyRaw then do
    let res ← copyRaw rom uzlib false address (cmd.args 1).toNat (cmd.args 2).toNat
    pure ⟨res, cleared, if res = 0 then some (cmd.args 1).toNat else none⟩
  else pure ⟨9, cleared, if action = actionLoadApp then some address else none⟩

end

/-- The power comes on once for each of these: what the first `main` that is not reset leaves, and
the flash. The command block is kept over a reset. -/
def powerOn (uzlib : Uzlib) (rtc : Rtc) : List Rom → Flash → Option (Booted × Flash)
  | [], _ => none
  | rom :: roms, flash =>
    match main rom uzlib rtc ⟨flash, 0, []⟩ with
    | .reset s => powerOn uzlib rtc roms s.flash
    | .returned booted s => some (booted, s.flash)

end Esp8266.Source.Eboot
