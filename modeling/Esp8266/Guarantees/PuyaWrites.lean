import Esp8266.Source.PuyaFlash

/-!
# The PUYA workaround and a plain write

Where its calls succeed, `spi_flash_write_puya` programs the words of the data, rounded up: for
sizes of whole words that is the plain write, for others the bytes behind the data reach the
flash as well.
-/
set_option autoImplicit false

namespace Esp8266.Source.Esp
open Esp8266.Lib.NorFlash Esp8266.Lib.Word32

/-- Programming what is left of the data clears no other bits than programming the data. -/
theorem program_anded {base len : Nat} {data anded : Nat → UInt8} {flash : Flash}
    (same : ∀ i < len, anded i = flash (base + i) &&& data i) :
    program base len anded flash = program base len data flash := by
  funext a
  rw [program, program]
  split
  · rename_i inside
    have place : base + (a - base) = a := by omega
    rw [same _ (by omega), place, ← UInt8.and_assoc, UInt8.and_self]
  · rfl

/-- Two writes side by side are one. -/
theorem program_add (base m n : Nat) (data : Nat → UInt8) (flash : Flash) :
    program (base + m) n (fun i => data (m + i)) (program base m data flash) =
      program base (m + n) data flash := by
  funext a
  simp only [program]
  by_cases first : base ≤ a ∧ a < base + m
  · rw [if_neg (by omega), if_pos first, if_pos (by omega)]
  · by_cases second : base + m ≤ a ∧ a < base + m + n
    · have place : m + (a - (base + m)) = a - base := by omega
      rw [if_pos second, if_neg first, if_pos (by omega), place]
    · rw [if_neg second, if_neg first, if_neg (by omega)]

/-- The bytes that one pass transfers. -/
def passSize (bytesLeft : Nat) : Nat :=
  ((if bytesLeft > puyaBufferSize then puyaBufferSize else bytesLeft) + 3) / 4 * 4

theorem passSize_le (bytesLeft : Nat) : passSize bytesLeft ≤ puyaBufferSize := by
  rw [passSize, puyaBufferSize]
  split <;> omega

/-- **One pass** whose calls succeed programs its words and goes on behind them. -/
theorem puyaPass_ok {env : Env} {data : Nat → UInt8} {p : Puya}
    (room : p.flashWritePuyaBuf.length = puyaBufferSize)
    (ok : (puyaPass env data p).rc = true) :
    (puyaPass env data p).board.flash =
        program p.pos (passSize p.bytesLeft) (fun i => data (4 * p.ptr + i)) p.board.flash ∧
      (puyaPass env data p).ptr = p.ptr + passSize p.bytesLeft / 4 ∧
      (puyaPass env data p).bytesLeft = p.bytesLeft - puyaBufferSize ∧
      (puyaBufferSize < p.bytesLeft → (puyaPass env data p).pos = p.pos + puyaBufferSize) ∧
      (puyaPass env data p).flashWritePuyaBuf.length = puyaBufferSize := by
  have size := passSize_le p.bytesLeft
  have length : (p.flashWritePuyaBuf.take (passSize p.bytesLeft)).length =
      passSize p.bytesLeft := by
    rw [List.length_take, room]
    exact Nat.min_eq_left size
  have kept := (flashRead_follows env p.pos (p.flashWritePuyaBuf.take (passSize p.bytesLeft))
    p.board).2
  have done := @flashRead_done env p.pos (p.flashWritePuyaBuf.take (passSize p.bytesLeft)) p.board
  rw [length] at done
  rcases readEq : flashRead env p.pos (p.flashWritePuyaBuf.take (passSize p.bytesLeft)) p.board
    with ⟨rc, bytes, board⟩
  rw [readEq] at kept done
  rw [passSize] at readEq
  simp only [puyaPass, readEq] at ok ⊢
  cases rc with
  | false => cases ok
  | true =>
    obtain rfl : bytes = readRange p.board.flash p.pos (passSize p.bytesLeft) := done rfl
    simp only [Bool.not_true, Bool.false_eq_true, if_false] at ok ⊢
    set anded := andWords data p.ptr (readRange p.board.flash p.pos (passSize p.bytesLeft))
      with andedEq
    have andedLength : anded.length = passSize p.bytesLeft := by
      rw [andedEq, andWords, List.length_mapIdx, length_readRange]
    rcases writeEq : flashWrite env p.pos anded board with ⟨rc, board'⟩
    rw [writeEq] at ok
    obtain rfl : rc = true := ok
    obtain ⟨fits, written⟩ := flashWrite_done writeEq
    have small := env.chip.size_le
    rw [andedLength] at fits written
    refine ⟨?_, rfl, ?_, fun more => ?_, ?_⟩
    · change board'.flash = _
      rw [written, show board.flash = p.board.flash from kept]
      refine program_anded fun i inside => ?_
      have bound : i < (readRange p.board.flash p.pos (passSize p.bytesLeft)).length := by
        rw [length_readRange]
        exact inside
      rw [andedEq, andWords, List.getD_eq_getElem?_getD, List.getElem?_mapIdx,
        List.getElem?_eq_getElem bound, getElem_readRange]
      rfl
    · split <;> omega
    · have whole : passSize p.bytesLeft = puyaBufferSize := by rw [passSize, if_pos more]; rfl
      change add32 p.pos (if p.bytesLeft > puyaBufferSize then puyaBufferSize else p.bytesLeft) = _
      rw [if_pos more]
      exact add32_of_lt (by omega)
    · change (anded ++ p.flashWritePuyaBuf.drop (passSize p.bytesLeft)).length = _
      rw [List.length_append, andedLength, List.length_drop, room]
      omega

/-- The words that hold `size` bytes. -/
def wordsOf (size : Nat) : Nat := (size + 3) / 4

theorem program_none (base : Nat) (data : Nat → UInt8) (flash : Flash) :
    program base 0 data flash = flash := by
  funext a
  exact if_neg (by omega)

theorem puyaLoop_failed {env : Env} {data : Nat → UInt8} {p : Puya} (failed : p.rc = false)
    (fuel : Nat) : puyaLoop env data fuel p = p := by
  cases fuel with
  | zero => rfl
  | succ fuel => rw [puyaLoop, failed, Bool.and_false, if_neg Bool.false_ne_true]

/-- **The loop**, where it succeeds: the words of what is left are programmed, and read. -/
theorem puyaLoop_ok {env : Env} {data : Nat → UInt8} {fuel : Nat} :
    ∀ {p : Puya}, p.bytesLeft ≤ fuel → p.flashWritePuyaBuf.length = puyaBufferSize →
      (puyaLoop env data fuel p).rc = true →
        (puyaLoop env data fuel p).board.flash = program p.pos (4 * wordsOf p.bytesLeft)
            (fun i => data (4 * p.ptr + i)) p.board.flash ∧
          (puyaLoop env data fuel p).ptr = p.ptr + wordsOf p.bytesLeft := by
  induction fuel with
  | zero =>
    intro p enough room ok
    rw [Nat.le_zero.mp enough]
    exact ⟨(program_none _ _ _).symm, rfl⟩
  | succ fuel ih =>
    intro p enough room ok
    by_cases left : p.bytesLeft = 0
    · rw [puyaLoop, left, if_neg (by simp)]
      exact ⟨(program_none _ _ _).symm, rfl⟩
    have going : p.rc = true := by
      by_contra stopped
      have failed := Bool.eq_false_iff.mpr stopped
      rw [puyaLoop_failed failed, failed] at ok
      cases ok
    rw [puyaLoop, going, if_pos (by simp; omega)] at ok ⊢
    have passed : (puyaPass env data p).rc = true := by
      by_contra stopped
      have failed := Bool.eq_false_iff.mpr stopped
      rw [puyaLoop_failed failed, failed] at ok
      cases ok
    obtain ⟨flash, ptr, less, next, room'⟩ := puyaPass_ok room passed
    have size : puyaBufferSize = 256 := rfl
    obtain ⟨rest, words⟩ := ih (by omega) room' ok
    rw [rest, words, flash, ptr, less]
    by_cases more : puyaBufferSize < p.bytesLeft
    · -- A whole buffer: the rest goes on where it ends.
      have whole : passSize p.bytesLeft = puyaBufferSize := by rw [passSize, if_pos more]; rfl
      have count : 4 * wordsOf p.bytesLeft =
          puyaBufferSize + 4 * wordsOf (p.bytesLeft - puyaBufferSize) := by
        rw [wordsOf, wordsOf]
        omega
      have place : ∀ i, 4 * (p.ptr + puyaBufferSize / 4) + i = 4 * p.ptr + (puyaBufferSize + i) := by
        intro i
        omega
      rw [next more, whole, count, ← program_add]
      refine ⟨?_, by rw [wordsOf, wordsOf]; omega⟩
      simp only [place]
    · -- The last pass takes everything, rounded up to words.
      have last : passSize p.bytesLeft = 4 * wordsOf p.bytesLeft := by
        rw [passSize, if_neg more, wordsOf]
        omega
      have none : p.bytesLeft - puyaBufferSize = 0 := by omega
      rw [none, last]
      refine ⟨program_none _ _ _, ?_⟩
      rw [show wordsOf 0 = 0 from rfl]
      omega

/-- **What a call that succeeds does**: it programs and reads the words that hold the data. -/
theorem spiFlashWritePuya_ok {env : Env} {offset size : Nat} {data : Nat → UInt8}
    {buf : Option PuyaBuf} {board : Board}
    (ok : (spiFlashWritePuya env offset (some data) size buf board).rc = true) :
    (spiFlashWritePuya env offset (some data) size buf board).board.flash =
        program offset (4 * wordsOf size) data board.flash ∧
      (spiFlashWritePuya env offset (some data) size buf board).ptr = wordsOf size := by
  have loop : ∀ {buf : List UInt8}, buf.length = puyaBufferSize →
      (puyaLoop env data size ⟨true, 0, size, offset, buf, board⟩).rc = true →
        (puyaLoop env data size ⟨true, 0, size, offset, buf, board⟩).board.flash =
            program offset (4 * wordsOf size) data board.flash ∧
          (puyaLoop env data size ⟨true, 0, size, offset, buf, board⟩).ptr = wordsOf size := by
    intro buf room ok
    obtain ⟨flash, words⟩ := @puyaLoop_ok env data size
      ⟨true, 0, size, offset, buf, board⟩ (Nat.le_refl _) room ok
    simp only [Nat.mul_zero, Nat.zero_add] at flash words
    exact ⟨flash, words⟩
  cases buf with
  | some buf => exact loop buf.2 ok
  | none =>
    simp only [spiFlashWritePuya] at ok ⊢
    split at ok
    · rename_i allocated
      rw [if_pos allocated]
      exact loop (by rw [List.length_map, List.length_range]) ok
    · cases ok

/-- **The workaround is transparent** for a size exactly if it is one of whole words: then the
flash is as a plain write leaves it, and only the data were read. -/
theorem puya_transparent (env : Env) (offset size : Nat) (data : Nat → UInt8)
    (buf : Option PuyaBuf) (board : Board)
    (ok : (spiFlashWritePuya env offset (some data) size buf board).rc = true) :
    ((spiFlashWritePuya env offset (some data) size buf board).board.flash =
        program offset size data board.flash ∧
      4 * (spiFlashWritePuya env offset (some data) size buf board).ptr ≤ size) ↔
    size % 4 = 0 := by
  obtain ⟨flash, words⟩ := spiFlashWritePuya_ok ok
  rw [flash, words]
  constructor
  · rintro ⟨-, inside⟩
    rw [wordsOf] at inside
    omega
  · intro whole
    have same : 4 * wordsOf size = size := by
      rw [wordsOf]
      omega
    rw [same]
    exact ⟨rfl, Nat.le_refl _⟩

/-- A write of one word. -/
theorem puya_transparent_word :
    let env : Env := ⟨⟨flashMap, flashMap, Nat.le_refl _, Nat.le_refl _, by decide, by decide,
      by decide⟩, ⟨0, 2 ^ 20, by decide⟩, fun _ => none, id, fun _ => true, fun _ => 0, fun _ => 0⟩
    let board : Board := ⟨fun _ => 0xff, fun _ => 0, 0, 0, []⟩
    let after := spiFlashWritePuya env 8 (some fun i => [1, 2, 3, 4].getD i 0) 4 none board
    after.board.flash = program 8 4 (fun i => [1, 2, 3, 4].getD i 0) board.flash ∧
      4 * after.ptr ≤ 4 := by
  intro env board after
  exact (puya_transparent env 8 4 (fun i => [1, 2, 3, 4].getD i 0) none board
    (by decide)).mpr rfl

/-- A write of one byte changes the one behind it too. -/
theorem puya_spills :
    let env : Env := ⟨⟨flashMap, flashMap, Nat.le_refl _, Nat.le_refl _, by decide, by decide,
      by decide⟩, ⟨0, 2 ^ 20, by decide⟩, fun _ => none, id, fun _ => true, fun _ => 0, fun _ => 0⟩
    let board : Board := ⟨fun _ => 0xff, fun _ => 0, 0, 0, []⟩
    let after := spiFlashWritePuya env 8 (some fun i => [1, 2, 3, 4].getD i 0) 1 none board
    after.rc = true ∧ board.flash 9 = 0xff ∧ after.board.flash 9 = 2 := by
  decide

end Esp8266.Source.Esp
