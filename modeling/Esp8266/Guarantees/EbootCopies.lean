import Esp8266.Source.EbootCopy

/-!
# What the bootloader copies

The copy goes forward, and a sector is erased when the one that it gets has not been read yet. So
an image is copied wherever it is staged behind the start of the flash, though its own end may be
overwritten; staged at the start, it is lost.
-/
set_option autoImplicit false

namespace Esp8266.Source.Eboot
open Esp8266.Lib.NorFlash Esp8266.Lib.Resets Esp8266.Lib.Word32 Esp8266.Source.RtcCommand
  Esp8266.Source.Updater

/-! ## Calls that succeed -/

def Rom.Works (rom : Rom) : Prop := ∀ k, rom.fault k = none

section

variable {rom : Rom} (works : rom.Works) {atReset : Spi → Prop} {s : Spi}

include works

theorem ends_call {α : Type} {access : Access} {effect : Flash → α × Flash}
    {failed : (Nat → UInt8) → Flash → α × Flash} {post : α → Spi → Prop}
    (reset : rom.reset s.calls = true → ∀ s', s'.flash = (effect s.flash).2 → atReset s')
    (returns : rom.reset s.calls = false → ∀ s', s'.flash = (effect s.flash).2 →
      s'.calls = s.calls + 1 → post (effect s.flash).1 s') :
    (rom.call access effect failed).Ends s atReset post := by
  unfold Program.Ends Rom.call
  rw [works]
  dsimp only
  cases cut : rom.reset s.calls with
  | true => exact reset cut _ rfl
  | false => exact returns cut _ rfl rfl

theorem ends_spiEraseSector {sector : Nat} {post : Bool → Spi → Prop}
    (reset : rom.reset s.calls = true → ∀ s',
      s'.flash = erase (sector * bufferSize) bufferSize s.flash → atReset s')
    (returns : rom.reset s.calls = false → ∀ s',
      s'.flash = erase (sector * bufferSize) bufferSize s.flash → s'.calls = s.calls + 1 →
        post true s') : (spiEraseSector rom sector).Ends s atReset post := by
  unfold spiEraseSector
  exact ends_call works reset returns

theorem ends_spiWrite {addr : Nat} {data : List UInt8} {post : Bool → Spi → Prop}
    (reset : rom.reset s.calls = true → ∀ s',
      s'.flash = program addr data.length (fun i => data.getD i 0) s.flash → atReset s')
    (returns : rom.reset s.calls = false → ∀ s',
      s'.flash = program addr data.length (fun i => data.getD i 0) s.flash →
        s'.calls = s.calls + 1 → post true s') : (spiWrite rom addr data).Ends s atReset post :=
  ends_call works reset returns

theorem ends_spiRead {addr size : Nat} {post : Bool × List UInt8 → Spi → Prop}
    (reset : rom.reset s.calls = true → ∀ s', s'.flash = s.flash → atReset s')
    (returns : rom.reset s.calls = false → ∀ s', s'.flash = s.flash → s'.calls = s.calls + 1 →
      post (true, readRange s.flash addr size) s') : (spiRead rom addr size).Ends s atReset post :=
  ends_call works reset returns

theorem ends_readFlashByte {addr : Nat} {post : UInt8 → Spi → Prop}
    (reset : rom.reset s.calls = true → ∀ s', s'.flash = s.flash → atReset s')
    (returns : rom.reset s.calls = false → ∀ s', s'.flash = s.flash → s'.calls = s.calls + 1 →
      post (s.flash addr) s') : (readFlashByte rom addr).Ends s atReset post := by
  have within : addr % 4 < (readRange s.flash (addr / 4 * 4) 4).length := by
    rw [length_readRange]
    omega
  have byte : (readRange s.flash (addr / 4 * 4) 4).getD (addr % 4) 0 = s.flash addr := by
    rw [List.getD_eq_getElem _ _ within, getElem_readRange]
    congr 1
    omega
  refine Program.ends_bind (ends_spiRead works reset fun go s' same count => ?_)
  refine Program.ends_pure ?_
  rw [byte]
  exact returns go s' same count

/-- The second byte is read only where the first is that of a gzip stream. -/
theorem ends_isGzip {saddr : Nat} {post : Bool → Spi → Prop}
    (reset : ∀ k, rom.reset (s.calls + k) = true → (k = 0 ∨ s.flash saddr = 0x1f) → ∀ s',
      s'.flash = s.flash → atReset s')
    (returns : ∀ s', s'.flash = s.flash → (s.flash saddr ≠ 0x1f → s'.calls = s.calls + 1) →
      post (s.flash saddr = 0x1f && s.flash (add32 saddr 1) = 0x8b) s') :
    (isGzip rom saddr).Ends s atReset post := by
  refine Program.ends_bind (ends_readFlashByte works (fun cut => reset 0 cut (.inl rfl))
    fun _ s' same count => ?_)
  by_cases first : s.flash saddr = 0x1f
  · rw [if_pos first]
    refine Program.ends_bind (ends_readFlashByte works (fun cut s'' same' => ?_)
      fun _ s'' same' _ => ?_)
    · rw [count] at cut
      exact reset 1 cut (.inr first) s'' (same'.trans same)
    · have both := returns s'' (same'.trans same) (absurd first)
      rw [decide_eq_true first, Bool.true_and] at both
      rw [same]
      exact both
  · rw [if_neg first]
    have one := returns s' same fun _ => count
    rw [decide_eq_false first, Bool.false_and] at one
    exact one

end

/-! ## The copy of a sector -/

/-- What a pass makes of the flash. -/
def copySector (saddr daddr : Nat) (flash : Flash) : Flash :=
  program daddr bufferSize
    (fun i => (readRange (erase daddr bufferSize flash) saddr bufferSize).getD i 0)
    (erase daddr bufferSize flash)

theorem copySector_outside {saddr daddr a : Nat} (flash : Flash)
    (outside : a < daddr ∨ daddr + bufferSize ≤ a) : copySector saddr daddr flash a = flash a := by
  rw [copySector, program_outside _ _ outside, erase_outside _ outside]

theorem copySector_inside {saddr daddr a : Nat} (flash : Flash)
    (inside : daddr ≤ a ∧ a < daddr + bufferSize) :
    copySector saddr daddr flash a = erase daddr bufferSize flash (saddr + (a - daddr)) := by
  have within : a - daddr <
      (readRange (erase daddr bufferSize flash) saddr bufferSize).length := by
    rw [length_readRange]
    omega
  rw [copySector, program_erased _ _ inside (erase_inside flash inside),
    List.getD_eq_getElem _ _ within, getElem_readRange]

section

variable {rom : Rom} (works : rom.Works) {atReset : Spi → Prop} {found : Flash → Prop} {s : Spi}
  {uzlib : Uzlib}

include works

/-- A pass of the loop. -/
theorem ends_pass {buffer : List UInt8} {left : Int} {saddr daddr : Nat}
    {post : Nat → Spi → Prop} (positive : 0 < left) (aligned : daddr % bufferSize = 0)
    (erased : ∀ k < 2, rom.reset (s.calls + k) = true → ∀ s',
      s'.flash = erase daddr bufferSize s.flash → atReset s')
    (copied : rom.reset (s.calls + 2) = true → ∀ s',
      s'.flash = copySector saddr daddr s.flash → atReset s')
    (rest : rom.reset s.calls = false → ∀ s', s'.flash = copySector saddr daddr s.flash →
      s'.calls = s.calls + 3 → ∀ buffer',
        (copyLoop rom uzlib false none buffer' (left - bufferSize) (add32 saddr bufferSize)
          (add32 daddr bufferSize)).Ends s' atReset post) :
    (copyLoop rom uzlib false none buffer left saddr daddr).Ends s atReset post := by
  have sector : daddr / bufferSize * bufferSize = daddr := by
    unfold bufferSize at aligned ⊢
    omega
  rw [copyLoop, if_neg (Int.not_le.2 positive)]
  refine Program.ends_bind (Program.ends_bind (ends_spiEraseSector works
    (fun cut s₁ first => ?_) fun go s₁ first count₁ => ?_))
  · rw [sector] at first
    exact erased 0 (by decide) cut s₁ first
  rw [sector] at first
  refine Program.ends_pure (Program.ends_bind (Program.ends_bind (ends_spiRead works
    (fun cut s₂ second => ?_) fun _ s₂ second count₂ => ?_)))
  · rw [count₁] at cut
    exact erased 1 (by decide) cut s₂ (second.trans first)
  rw [first] at second
  have written : program daddr (readRange s₁.flash saddr bufferSize).length
      (fun i => (readRange s₁.flash saddr bufferSize).getD i 0) s₂.flash =
      copySector saddr daddr s.flash := by
    rw [first, second, length_readRange]
    rfl
  refine Program.ends_pure (Program.ends_bind (Program.ends_bind (ends_spiWrite works
    (fun cut s₃ third => ?_) fun _ s₃ third count₃ => ?_)))
  · rw [count₂, count₁] at cut
    exact copied cut s₃ (third.trans written)
  · exact Program.ends_pure (rest go s₃ (third.trans written) (by omega) _)

/-- A reset came, and found a flash like this. -/
def Cut (rom : Rom) (found : Flash → Prop) (s : Spi) : Prop :=
  (∃ k, rom.reset k = true) ∧ found s.flash

/-- **The loop**, where every sector becomes what it is to become as long as the flash is what it
was behind the sectors that were copied. -/
theorem ends_copyLoop {start n : Nat} {before target : Flash} (bound : start + 4096 * n < 2 ^ 32)
    (sector : ∀ k < n, ∀ flash : Flash, (∀ a, 4096 * k ≤ a → flash a = before a) →
      (∀ a < 4096 * k, flash a = target a) → ∀ a, 4096 * k ≤ a → a < 4096 * k + 4096 →
        copySector (start + 4096 * k) (4096 * k) flash a = target a)
    (safe : ∀ flash : Flash, (∀ a, 4096 * n ≤ a → flash a = before a) → found flash)
    {k : Nat} (inside : k ≤ n) {buffer : List UInt8}
    (same : ∀ a, 4096 * k ≤ a → s.flash a = before a)
    (copied : ∀ a < 4096 * k, s.flash a = target a) :
    (copyLoop rom uzlib false none buffer (4096 * (n - k : Nat) : Nat) (start + 4096 * k)
      (4096 * k)).Ends s (Cut rom found) fun code s' => code = 0 ∧
        (∀ a < 4096 * n, s'.flash a = target a) ∧ ∀ a, 4096 * n ≤ a → s'.flash a = before a := by
  generalize count : n - k = m
  induction m generalizing k buffer s with
  | zero =>
    have all : k = n := by omega
    rw [copyLoop, if_pos (show ((4096 * 0 : Nat) : Int) ≤ 0 from Int.le_refl 0)]
    exact Program.ends_pure ⟨rfl, all ▸ copied, all ▸ same⟩
  | succ m ih =>
    have grown : ∀ a, 4096 * (k + 1) ≤ a →
        copySector (start + 4096 * k) (4096 * k) s.flash a = before a := by
      intro a behind
      rw [copySector_outside _ (.inr (by unfold bufferSize; omega)), same a (by omega)]
    refine ends_pass works (by omega) (by unfold bufferSize; omega)
      (fun _ _ cut s' erased => ⟨⟨_, cut⟩, safe _ fun a behind => ?_⟩)
      (fun cut s' copy => ⟨⟨_, cut⟩, safe _ fun a behind => ?_⟩) fun _ s' copy _ buffer' => ?_
    · rw [erased, erase_outside _ (.inr (by unfold bufferSize; omega)), same a (by omega)]
    · rw [copy]
      exact grown a (by omega)
    · have left : ((4096 * (m + 1) : Nat) : Int) - (bufferSize : Nat) = (4096 * m : Nat) := by
        unfold bufferSize
        omega
      have saddr : add32 (start + 4096 * k) bufferSize = start + 4096 * (k + 1) :=
        (add32_of_lt (by unfold bufferSize; omega)).trans (by unfold bufferSize; omega)
      have daddr : add32 (4096 * k) bufferSize = 4096 * (k + 1) :=
        (add32_of_lt (by unfold bufferSize; omega)).trans (by unfold bufferSize; omega)
      rw [left, saddr, daddr]
      refine ih (by omega) (fun a behind => ?_) (fun a front => ?_) (by omega)
      · rw [copy]
        exact grown a behind
      · rw [copy]
        by_cases old : a < 4096 * k
        · rw [copySector_outside _ (.inl old), copied a old]
        · exact sector k (by omega) s.flash same copied a (by omega) (by omega)

/-- **A reset behind the erase of a sector** leaves it empty, and what is behind it as it was. -/
theorem ends_copyLoop_cut {c : Nat} (only : ∀ k, rom.reset k = true ↔ k = c) (j : Nat)
    {buffer : List UInt8} {left : Int} {saddr daddr : Nat} (counted : s.calls + 3 * j = c)
    (more : 4096 * j < left) (aligned : daddr % 4096 = 0) (bound : daddr + 4096 * j < 2 ^ 32) :
    (copyLoop rom uzlib false none buffer left saddr daddr).Ends s
      (fun s' => (∀ a, daddr + 4096 * j ≤ a → a < daddr + 4096 * j + 4096 → s'.flash a = 0xff) ∧
        ∀ a, daddr + 4096 * j + 4096 ≤ a → s'.flash a = s.flash a)
      fun _ _ => False := by
  have later : ∀ k, rom.reset (s.calls + k) = true → k = 3 * j := by
    intro k cut
    have here := (only _).1 cut
    omega
  induction j generalizing s buffer left saddr daddr with
  | zero =>
    refine ends_pass works (by omega) aligned (fun k _ cut s' erased => ?_)
      (fun cut => absurd (later 2 cut) (by decide)) fun go => ?_
    · rw [erased]
      exact ⟨fun a low high => erase_inside _ (by unfold bufferSize; omega),
        fun a behind => erase_outside _ (.inr (by unfold bufferSize; omega))⟩
    · rw [(only _).2 (by omega)] at go
      cases go
  | succ j ih =>
    have small : daddr + 4096 < 2 ^ 32 := Nat.lt_of_le_of_lt (Nat.add_le_add_left
      (Nat.le_mul_of_pos_right 4096 (Nat.succ_pos j)) daddr) bound
    have next : add32 daddr bufferSize = daddr + 4096 := add32_of_lt small
    refine ends_pass works (by omega) aligned
      (fun k few cut => absurd (later k cut) (by omega))
      (fun cut => absurd (later 2 cut) (by omega)) fun _ s' copy count buffer' => ?_
    have rest := @ih s' buffer' (left - bufferSize) (add32 saddr bufferSize) (daddr + 4096)
      (by omega) (by unfold bufferSize; omega) (by omega) (by omega) (by
        intro k cut
        have here := (only _).1 cut
        omega)
    rw [next]
    refine rest.weaken (fun s'' found => ⟨fun a low high => found.1 a (by omega) (by omega),
      fun a behind => ?_⟩) fun _ _ never => never
    rw [found.2 a (by omega), copy,
      copySector_outside _ (.inr (by unfold bufferSize; omega))]

omit works in
theorem toInt32_of_lt {n : Nat} (small : n < 2 ^ 31) : toInt32 n = n := if_pos small

/-- **The copy** of something that is not compressed, to the start of the flash. -/
theorem ends_copyRaw {start size n : Nat} {before target : Flash}
    (aligned : start % 4096 = 0) (sectors : roundSector size = 4096 * n)
    (bound : start + 4096 * n < 2 ^ 31) (plain : ¬(before start = 0x1f ∧ before (start + 1) = 0x8b))
    (sector : ∀ k < n, ∀ flash : Flash, (∀ a, 4096 * k ≤ a → flash a = before a) →
      (∀ a < 4096 * k, flash a = target a) → ∀ a, 4096 * k ≤ a → a < 4096 * k + 4096 →
        copySector (start + 4096 * k) (4096 * k) flash a = target a)
    (safe : ∀ flash : Flash, (∀ a, 4096 * n ≤ a → flash a = before a) → found flash)
    (same : s.flash = before) :
    (copyRaw rom uzlib false start 0 size).Ends s (Cut rom found) fun code s' => code = 0 ∧
      (∀ a < 4096 * n, s'.flash a = target a) ∧ ∀ a, 4096 * n ≤ a → s'.flash a = before a := by
  have second : add32 start 1 = start + 1 := add32_of_lt (by omega)
  have other : (before start = 0x1f && before (start + 1) = 0x8b) = false := by
    rw [← Bool.not_eq_true, Bool.and_eq_true, decide_eq_true_iff, decide_eq_true_iff]
    exact plain
  rw [copyRaw, if_neg (by unfold bufferSize; omega)]
  refine Program.ends_bind (ends_isGzip works
    (fun _ cut _ s' unread => ⟨⟨_, cut⟩, safe _ fun a _ => by rw [unread, same]⟩)
    fun s' unread _ => ?_)
  rw [second, same, other, if_neg Bool.false_ne_true, sectors, toInt32_of_lt (by omega)]
  have loop := fun buffer => @ends_copyLoop rom works found s' uzlib start n before target
    (by omega) sector safe 0 (Nat.zero_le n) buffer (fun a _ => by rw [unread, same]) (fun a none => by omega)
  exact loop _

/-- Behind the start of the flash, a sector is read before it is overwritten. -/
theorem ends_copyRaw_moved {start size n : Nat} (behind : start ≠ 0) (aligned : start % 4096 = 0)
    (sectors : roundSector size = 4096 * n) (bound : start + 4096 * n < 2 ^ 31)
    (plain : ¬(s.flash start = 0x1f ∧ s.flash (start + 1) = 0x8b))
    (safe : ∀ flash : Flash, (∀ a, 4096 * n ≤ a → flash a = s.flash a) → found flash) :
    (copyRaw rom uzlib false start 0 size).Ends s (Cut rom found) fun code s' => code = 0 ∧
      (∀ a < 4096 * n, s'.flash a = s.flash (start + a)) ∧
      ∀ a, 4096 * n ≤ a → s'.flash a = s.flash a := by
  refine @ends_copyRaw rom works found s uzlib start size n s.flash (fun a => s.flash (start + a))
    aligned sectors bound plain (fun k inside flash same _ a low high => ?_) safe rfl
  rw [copySector_inside _ (by unfold bufferSize; omega),
    erase_outside _ (.inr (by unfold bufferSize; omega)), same _ (by omega)]
  congr 1
  omega

/-- At the start of the flash, a sector is erased before it is read. -/
theorem ends_copyRaw_lost {size n : Nat} (sectors : roundSector size = 4096 * n)
    (bound : 4096 * n < 2 ^ 31) (plain : ¬(s.flash 0 = 0x1f ∧ s.flash 1 = 0x8b))
    (safe : ∀ flash : Flash, (∀ a, 4096 * n ≤ a → flash a = s.flash a) → found flash) :
    (copyRaw rom uzlib false 0 0 size).Ends s (Cut rom found) fun code s' => code = 0 ∧
      (∀ a < 4096 * n, s'.flash a = 0xff) ∧ ∀ a, 4096 * n ≤ a → s'.flash a = s.flash a := by
  refine @ends_copyRaw rom works found s uzlib 0 size n s.flash (fun _ => 0xff) rfl sectors
    (by omega) plain (fun k inside flash _ _ a low high => ?_) safe rfl
  rw [copySector_inside _ (by unfold bufferSize; omega)]
  exact erase_inside _ (by unfold bufferSize; omega)

end

end Esp8266.Source.Eboot
