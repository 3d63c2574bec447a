import Esp8266.Lib.Word32

/-!
# The image builder

tools/elf2bin.py:67-101 and the two calls in `main`. What the toolchain says of an ELF file (its
entry point, and for each segment the size, the address and the data) is given; an exception
is `none`.
-/
set_option autoImplicit false

namespace Esp8266.Source.Elf2bin
open Esp8266.Lib.Word32

/-- The choices of the command line and their codes in the header. -/
inductive FlashMode where
  | dout | dio | qout | qio

def fmodeb : FlashMode → Nat
  | .dout => 3
  | .dio => 2
  | .qout => 1
  | .qio => 0

inductive FlashFreq where
  | mhz40 | mhz26 | mhz20 | mhz80

def ffreqb : FlashFreq → Nat
  | .mhz40 => 0
  | .mhz26 => 1
  | .mhz20 => 2
  | .mhz80 => 15

inductive FlashSize where
  | kb512 | kb256 | mb1 | mb2 | mb4 | mb8 | mb16

def fsizeb : FlashSize → Nat
  | .kb512 => 0
  | .kb256 => 1
  | .mb1 => 2
  | .mb2 => 3
  | .mb4 => 4
  | .mb8 => 8
  | .mb16 => 9

structure Args where
  flashMode : FlashMode
  flashFreq : FlashFreq
  flashSize : FlashSize

structure Segment where
  size : Nat
  addr : Nat
  raw : List UInt8

/-- The eight bytes before the segments. -/
def imageHeader (args : Args) (entry segments : Nat) : List UInt8 :=
  [0xe9, UInt8.ofNat segments, UInt8.ofNat (fmodeb args.flashMode),
    UInt8.ofNat (ffreqb args.flashFreq + 16 * fsizeb args.flashSize)] ++ wordBytes entry

def segmentHeader (segment : Segment) : List UInt8 :=
  wordBytes segment.addr ++ wordBytes segment.size

/-- What has been written, with `total_size` and `checksum`. -/
structure Progress where
  out : List UInt8
  totalSize : Nat
  checksum : UInt8

/-- The loop over the segments. -/
def writeSegments : List Segment → Progress → Option Progress
  | [], p => some p
  | segment :: segments, p =>
    if segment.raw.length ≠ segment.size then none
    else
      writeSegments segments {
        out := p.out ++ segmentHeader segment ++ segment.raw
        totalSize := p.totalSize + 8 + segment.raw.length
        checksum := segment.raw.foldl (· ^^^ ·) p.checksum }

/-- `while total_size & 15`. -/
def padTo16 : Nat → Nat → List UInt8 → Nat × List UInt8
  | 0, totalSize, out => (totalSize, out)
  | fuel + 1, totalSize, out =>
    if totalSize &&& 15 ≠ 0 then padTo16 fuel (totalSize + 1) (out ++ [0]) else (totalSize, out)

/-- `write_bin`. At most 15 zero bytes are needed to come to a multiple of 16. -/
def writeBin (args : Args) (entry : Nat) (segments : List Segment) (toAddr : Nat)
    (out : List UInt8) : Option (List UInt8) :=
  if 255 < segments.length then none
  else
    match writeSegments segments ⟨out ++ imageHeader args entry segments.length, 8, 0xef⟩ with
    | none => none
    | some p =>
      let (totalSize, out) := padTo16 15 (p.totalSize + 1) p.out
      let out := out ++ [p.checksum]
      if toAddr ≠ 0 then
        if totalSize + 8 > toAddr then none
        else some (out ++ List.replicate (toAddr - totalSize) 0xaa)
      else some out

/-- The two calls of `main`: the bootloader with its one segment, and the sketch. -/
def writeImage (args : Args) (ebootEntry : Nat) (eboot : Segment) (appEntry : Nat)
    (app : List Segment) : Option (List UInt8) :=
  match writeBin args ebootEntry [eboot] 4096 [] with
  | none => none
  | some out => writeBin args appEntry app 0 out

end Esp8266.Source.Elf2bin
