import Esp8266.Source.Esp

/-!
# Erasing an area of the flash

`SPIEraseAreaEx`, of which the core (cores/esp8266/core_esp8266_flash_utils.cpp) and the boot
loader (bootloaders/eboot/flash.c) have a copy each. They differ in the test of the start only.
`fails` tells which erase the chip refuses, given the ones before it. Sector numbers are below
2^21, so that only the rounding of the size may wrap; `sector_count` is not read once `end` is
set.
-/
set_option autoImplicit false

namespace Esp8266.Source.EraseArea
open Esp8266.Lib.Word32
open Esp8266.Source.Esp (flashSectorSize)

/-- `FLASH_BLOCK_SIZE` of spi_flash_geometry.h. -/
def flashBlockSize : Nat := 0x10000

def sectorsPerBlock : Nat := flashBlockSize / flashSectorSize

/-- A call of `SPIEraseSector` or `SPIEraseBlock`. -/
inductive Erase
  | sector (n : Nat)
  | block (n : Nat)
  deriving DecidableEq

/-- One of the three loops. It ends with `code` at the first erase that fails, else with the
sector that it has reached. A pass moves on by at least one sector, so that `end - current`
passes are enough. -/
def eraseLoop (fails : List Erase → Erase → Bool) (continues : Nat → Bool) (erase : Nat → Erase)
    (width code : Nat) : Nat → Nat → List Erase → Except (Nat × List Erase) (Nat × List Erase)
  | 0, current, erased => .ok (current, erased)
  | passes + 1, current, erased =>
    if continues current then
      if fails erased (erase current) then .error (code, erased ++ [erase current])
      else
        eraseLoop fails continues erase width code passes (current + width)
          (erased ++ [erase current])
    else .ok (current, erased)

/-- Sectors up to where a block begins. -/
def headLoop (fails : List Erase → Erase → Bool) (last current : Nat) (erased : List Erase) :
    Except (Nat × List Erase) (Nat × List Erase) :=
  eraseLoop fails (fun c => decide (c < last ∧ c &&& (sectorsPerBlock - 1) ≠ 0)) .sector 1 2
    (last - current) current erased

/-- Whole blocks. -/
def blockLoop (fails : List Erase → Erase → Bool) (last current : Nat) (erased : List Erase) :
    Except (Nat × List Erase) (Nat × List Erase) :=
  eraseLoop fails (fun c => decide (c + sectorsPerBlock ≤ last))
    (fun c => .block (c / sectorsPerBlock)) sectorsPerBlock 3 (last - current) current erased

/-- The sectors that are left. -/
def tailLoop (fails : List Erase → Erase → Bool) (last current : Nat) (erased : List Erase) :
    Except (Nat × List Erase) (Nat × List Erase) :=
  eraseLoop fails (fun c => decide (c < last)) .sector 1 4 (last - current) current erased

/-- What both copies do behind the test; the value returned and the erases made. -/
def eraseSectors (fails : List Erase → Erase → Bool) (start size : Nat) : Nat × List Erase :=
  let current := start / flashSectorSize
  let last := current + add32 size (flashSectorSize - 1) / flashSectorSize
  let loops : Except (Nat × List Erase) (Nat × List Erase) := do
    let (current, erased) ← headLoop fails last current []
    let (current, erased) ← blockLoop fails last current erased
    let (_, erased) ← tailLoop fails last current erased
    return (0, erased)
  match loops with
  | .ok done => done
  | .error stopped => stopped

namespace Core

/-- The copy of the core. -/
def spiEraseAreaEx (fails : List Erase → Erase → Bool) (start size : Nat) : Nat × List Erase :=
  if start &&& (flashSectorSize - 1) ≠ 0 then (1, []) else eraseSectors fails start size

end Core

namespace Eboot

/-- The copy of the boot loader; `!=` binds tighter than `&`, and its value is 1 here. -/
def spiEraseAreaEx (fails : List Erase → Erase → Bool) (start size : Nat) : Nat × List Erase :=
  if start &&& (if flashSectorSize - 1 ≠ 0 then 1 else 0) ≠ 0 then (1, [])
  else eraseSectors fails start size

end Eboot

end Esp8266.Source.EraseArea
