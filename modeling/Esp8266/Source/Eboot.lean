import Esp8266.Lib.Word32

/-!
# The bootloader

bootloaders/eboot/eboot.c. `SPIRead` is a function of the ROM; it is given as what it reads,
or `none` where it fails.
-/
set_option autoImplicit false

namespace Esp8266.Source.Eboot
open Esp8266.Lib.Word32

/-- `APP_START_OFFSET`. -/
def appStartOffset : Nat := 0x1000

abbrev SpiRead := Nat → Nat → Option (List UInt8)

/-- The word at `offset` of a structure that was read. -/
def word (bytes : List UInt8) (offset : Nat) : Nat :=
  wordOf (bytes.getD offset 0) (bytes.getD (offset + 1) 0) (bytes.getD (offset + 2) 0)
    (bytes.getD (offset + 3) 0)

/-- Sections at these addresses are loaded. -/
def loads (address : Nat) : Bool :=
  decide (address < 0x40000000) ||
    decide (0x40100000 ≤ address ∧ address < 0x40108000) || decide (0x60000000 ≤ address)

/-- What `load_app_from_flash_raw` does: where it reads section headers, what it reads into
memory, and the code it returns or the address it jumps to. -/
structure Load where
  headers : List Nat
  loaded : List (Nat × List UInt8)
  result : Except Nat Nat

/-- The loop over the sections, from `pos` on; at its end it jumps to `entry`. -/
def loadSections (spiRead : SpiRead) (entry : Nat) : Nat → Nat → Load
  | 0, _ => ⟨[], [], .ok entry⟩
  | sections + 1, pos =>
    match spiRead pos 8 with
    | none => ⟨[pos], [], .error 2⟩
    | some header =>
      let address := word header 0
      let size := word header 4
      let data := add32 pos 8
      if !loads address then
        let rest := loadSections spiRead entry sections (add32 data size)
        { rest with headers := pos :: rest.headers }
      else
        match spiRead data size with
        | none => ⟨[pos], [], .error 3⟩
        | some bytes =>
          let rest := loadSections spiRead entry sections (add32 data size)
          { rest with
            headers := pos :: rest.headers
            loaded := (address, bytes) :: rest.loaded }

/-- `load_app_from_flash_raw`. -/
def loadAppFromFlashRaw (spiRead : SpiRead) (flashAddr : Nat) : Load :=
  let pos := add32 flashAddr appStartOffset
  match spiRead pos 8 with
  | none => ⟨[], [], .error 1⟩
  | some header =>
    loadSections spiRead (word header 4) (header.getD 1 0).toNat (add32 pos 8)

end Esp8266.Source.Eboot
