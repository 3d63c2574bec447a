import Esp8266.Source.Esp

/-!
# Writing to PUYA flash chips

`spi_flash_write_puya` (cores/esp8266/Esp.cpp:672-713) over the flash calls of the SDK. The data
are the memory from `data` on: what lies behind their end can be read too, and `ptr` counts the
words that were. The `and` of two words is the `and` of their bytes.
-/
set_option autoImplicit false

namespace Esp8266.Source.Esp
open Esp8266.Lib.NorFlash Esp8266.Lib.Word32

def puyaBufferSize : Nat := 256

/-- What the static buffer holds, once it is allocated. -/
abbrev PuyaBuf := { buf : List UInt8 // buf.length = puyaBufferSize }

/-- The variables of the loop, with the static buffer. -/
structure Puya where
  rc : Bool
  ptr : Nat
  bytesLeft : Nat
  pos : Nat
  flashWritePuyaBuf : List UInt8
  board : Board

/-- `buf[i] &= *ptr; ++ptr;` for the words of the buffer. -/
def andWords (data : Nat → UInt8) (ptr : Nat) (buf : List UInt8) : List UInt8 :=
  buf.mapIdx fun i byte => byte &&& data (4 * ptr + i)

/-- One pass of the loop. A read that fails returns at once, which ends the loop as well. -/
def puyaPass (env : Env) (data : Nat → UInt8) (p : Puya) : Puya :=
  let bytesNow := if p.bytesLeft > puyaBufferSize then puyaBufferSize else p.bytesLeft
  let bytesLeft := if p.bytesLeft > puyaBufferSize then p.bytesLeft - puyaBufferSize else 0
  let bytesAligned := (bytesNow + 3) / 4 * 4
  let (rc, bytes, board) := flashRead env p.pos (p.flashWritePuyaBuf.take bytesAligned) p.board
  if !rc then
    { p with rc, bytesLeft, flashWritePuyaBuf := bytes ++ p.flashWritePuyaBuf.drop bytesAligned,
             board }
  else
    let anded := andWords data p.ptr bytes
    let (rc, board) := flashWrite env p.pos anded board
    { rc, bytesLeft, board
      ptr := p.ptr + bytesAligned / 4
      pos := add32 p.pos bytesNow
      flashWritePuyaBuf := anded ++ p.flashWritePuyaBuf.drop bytesAligned }

/-- Each pass takes at least one byte, so the size is fuel enough. -/
def puyaLoop (env : Env) (data : Nat → UInt8) : Nat → Puya → Puya
  | 0, p => p
  | fuel + 1, p =>
    if p.bytesLeft > 0 && p.rc then puyaLoop env data fuel (puyaPass env data p) else p

/-- Esp.cpp:672; `buf` is the static buffer, which the first call allocates. -/
def spiFlashWritePuya (env : Env) (offset : Nat) (data : Option (Nat → UInt8)) (size : Nat)
    (buf : Option PuyaBuf) (board : Board) : Puya :=
  match data with
  | none => ⟨false, 0, size, offset, (buf.map Subtype.val).getD [], board⟩
  | some data =>
    match buf with
    | some buf => puyaLoop env data size ⟨true, 0, size, offset, buf.1, board⟩
    | none =>
      if env.mallocSucceeds puyaBufferSize then
        puyaLoop env data size
          ⟨true, 0, size, offset, (List.range puyaBufferSize).map env.heap, board⟩
      else ⟨false, 0, size, offset, [], board⟩

end Esp8266.Source.Esp
