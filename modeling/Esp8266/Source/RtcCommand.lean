import Esp8266.Lib.Word32
import Esp8266.Source.Crc

/-!
# The command block in RTC memory

`struct eboot_command` and its three functions. The sketch core
(core_esp8266_eboot_command.cpp) writes the block with `crc32`; the boot loader
(eboot_command.c) reads it with `crc_update`. A block that was written is read back.
-/
set_option autoImplicit false

namespace Esp8266.Source.RtcCommand
open Esp8266.Lib.Word32 Esp8266.Source.Crc

/-- RTC memory, in words from `RTC_MEM` on. -/
abbrev Rtc := Nat → UInt32

structure EbootCommand where
  magic : UInt32
  action : UInt32
  args : Fin 29 → UInt32
  crc32 : UInt32

def actionCopyRaw : UInt32 := 0x00000001
def actionLoadApp : UInt32 := 0xffffffff
def ebootMagic : UInt32 := 0xeb001000
def ebootMagicMask : UInt32 := 0xfffff000

/-- `sizeof(struct eboot_command) / sizeof(uint32_t)`. -/
def dwCount : Nat := 32

/-- The block as the array of words that both copy loops see. -/
def EbootCommand.word (cmd : EbootCommand) (i : Nat) : UInt32 :=
  if i = 0 then cmd.magic
  else if i = 1 then cmd.action
  else if h : i - 2 < 29 then cmd.args ⟨i - 2, h⟩
  else cmd.crc32

def EbootCommand.ofWords (words : Rtc) : EbootCommand where
  magic := words 0
  action := words 1
  args := fun i => words (i.val + 2)
  crc32 := words 31

/-- The bytes before the `crc32` field. -/
def EbootCommand.body (cmd : EbootCommand) : List UInt8 :=
  (List.range 31).flatMap fun i => wordBytes (cmd.word i).toNat

/-- core_esp8266_eboot_command.cpp:29. -/
def coreCalculateCrc32 (cmd : EbootCommand) : UInt32 := Crc.crc32 cmd.body 0xffffffff

/-- eboot_command.c:24. -/
def ebootCommandCalculateCrc32 (cmd : EbootCommand) : UInt32 := crcUpdate 0xffffffff cmd.body

def ebootCommandWrite (cmd : EbootCommand) (rtc : Rtc) : Rtc :=
  let cmd := { cmd with magic := ebootMagic }
  let cmd := { cmd with crc32 := coreCalculateCrc32 cmd }
  fun i => if i < dwCount then cmd.word i else rtc i

/-- The result code and the block as read. -/
def ebootCommandRead (rtc : Rtc) : Nat × EbootCommand :=
  let cmd := EbootCommand.ofWords rtc
  let crc32 := ebootCommandCalculateCrc32 cmd
  if cmd.magic &&& ebootMagicMask ≠ ebootMagic ∨ cmd.crc32 ≠ crc32 then (1, cmd) else (0, cmd)

def ebootCommandClear (rtc : Rtc) : Rtc :=
  fun i => if i = 0 ∨ i = 31 then 0 else rtc i

theorem ofWords_word (cmd : EbootCommand) : EbootCommand.ofWords cmd.word = cmd := by
  obtain ⟨magic, action, args, crc⟩ := cmd
  simp [EbootCommand.ofWords, EbootCommand.word]

theorem ofWords_congr {rtc rtc' : Rtc} (same : ∀ i, i < dwCount → rtc i = rtc' i) :
    EbootCommand.ofWords rtc = EbootCommand.ofWords rtc' := by
  simp only [dwCount] at same
  simp only [EbootCommand.ofWords, EbootCommand.mk.injEq]
  exact ⟨same 0 (by decide), same 1 (by decide), funext fun i => same _ (by omega),
    same 31 (by decide)⟩

/-- The CRC does not cover itself. -/
theorem body_crc32 (magic action crc crc' : UInt32) (args : Fin 29 → UInt32) :
    (EbootCommand.mk magic action args crc).body = (EbootCommand.mk magic action args crc').body := by
  apply List.flatMap_congr
  intro i member
  have small := List.mem_range.mp member
  have inside : i - 2 < 29 := by omega
  simp [EbootCommand.word, inside]

/-- What the sketch core writes, the boot loader accepts and reads back. -/
theorem ebootCommandRead_write (cmd : EbootCommand) (rtc : Rtc) :
    (ebootCommandRead (ebootCommandWrite cmd rtc)).1 = 0 ∧
    (ebootCommandRead (ebootCommandWrite cmd rtc)).2.action = cmd.action ∧
    (ebootCommandRead (ebootCommandWrite cmd rtc)).2.args = cmd.args := by
  have read : EbootCommand.ofWords (ebootCommandWrite cmd rtc) =
      { cmd with
        magic := ebootMagic
        crc32 := coreCalculateCrc32 { cmd with magic := ebootMagic } } := by
    rw [← ofWords_word { cmd with
        magic := ebootMagic
        crc32 := coreCalculateCrc32 { cmd with magic := ebootMagic } }]
    apply ofWords_congr
    intro i small
    simp only [ebootCommandWrite, if_pos small]
  have accepted : ebootMagic &&& ebootMagicMask = ebootMagic := by decide
  have stored : ebootCommandCalculateCrc32 (EbootCommand.ofWords (ebootCommandWrite cmd rtc)) =
      coreCalculateCrc32 { cmd with magic := ebootMagic } := by
    rw [read, ebootCommandCalculateCrc32, crcUpdate_eq]
    exact congrArg (fun bytes => Crc.crc32 bytes 0xffffffff) (body_crc32 _ _ _ _ _)
  unfold ebootCommandRead
  simp only [stored]
  simp only [read, accepted]
  simp

end Esp8266.Source.RtcCommand
