import Esp8266.Lib.Runs
import Esp8266.Source.SpiClock

/-!
# The SPI clock is the best one, and the cache

With a divider the frequency falls with the prescaler, and from the floored quotient on it is
below what is asked for: the quotient and its successor are all that has to be tried. The shortcut
of `setFrequency` is right as soon as a frequency has been computed; before that the cache looks
as if 0 Hz had been set with the register 0.
-/
set_option autoImplicit false

namespace Esp8266.Source.SpiClass
open Esp8266.Lib

/-! ## Nested floors -/

section

variable {d freq p : Nat}

/-- Behind the quotient the frequency is too low. -/
theorem div_lt_of_quotient_lt (positive : 0 < freq) (behind : d / freq < p) : d / p < freq := by
  rw [Nat.div_lt_iff_lt_mul (Nat.lt_of_le_of_lt (Nat.zero_le _) behind), Nat.mul_comm]
  exact (Nat.div_lt_iff_lt_mul positive).1 behind

/-- Up to the quotient it is not. -/
theorem le_div_of_le_quotient (positive : 0 < p) (upTo : p ≤ d / freq) : freq ≤ d / p := by
  rcases Nat.eq_zero_or_pos freq with rfl | some
  · exact Nat.zero_le _
  · rw [Nat.le_div_iff_mul_le positive, Nat.mul_comm]
    exact (Nat.le_div_iff_mul_le some).1 upTo

/-- Up to a limit, no other divisor comes closer to the frequency from below than the quotient or
its successor. -/
theorem best_divisor {limit : Nat} (positive : 0 < p) (inside : p ≤ limit) (some : 0 < freq)
    (slow : d / p ≤ freq) :
    d / max 1 (min (d / freq) limit) = freq ∨
      (d / p ≤ d / min (d / freq + 1) limit ∧ d / min (d / freq + 1) limit < freq) := by
  rcases Nat.lt_or_ge (d / freq) p with behind | upTo
  · refine .inr ?_
    have next : min (d / freq + 1) limit = d / freq + 1 := by omega
    rw [next]
    exact ⟨Nat.div_le_div_left behind (Nat.succ_pos _),
      div_lt_of_quotient_lt some (Nat.lt_succ_self _)⟩
  · refine .inl (Nat.le_antisymm ?_ ?_)
    · exact Nat.le_trans (Nat.div_le_div_left (by omega) positive) slow
    · exact le_div_of_le_quotient (by omega) (by omega)

end

/-! ## Fields -/

theorem extract_low {v w s n : Nat} (x : BitVec v) (y : BitVec w) (inside : s + n ≤ w) :
    (x ++ y).extractLsb' s n = y.extractLsb' s n := by
  ext i less
  rw [BitVec.getElem_extractLsb', BitVec.getElem_extractLsb', BitVec.getLsbD_append,
    if_pos (by omega)]

theorem extract_high {v w : Nat} (x : BitVec v) (y : BitVec w) : (x ++ y).extractLsb' w v = x := by
  ext i less
  rw [BitVec.getElem_extractLsb', BitVec.getLsbD_append, if_neg (by omega),
    Nat.add_sub_cancel_left, BitVec.getLsbD_eq_getElem less]

theorem SpiClk.ofValue_regValue (reg : SpiClk) : ofValue reg.regValue = reg := by
  obtain ⟨l, h, n, pre, equ⟩ := reg
  simp only [ofValue, regValue, SpiClk.mk.injEq]
  refine ⟨?_, ?_, ?_, ?_, ?_⟩
  · rw [extract_low _ _ (by decide), extract_low _ _ (by decide), extract_low _ _ (by decide),
      extract_low _ _ (by decide), BitVec.extractLsb'_eq_self]
  · rw [extract_low _ _ (by decide), extract_low _ _ (by decide), extract_low _ _ (by decide)]
    exact extract_high h l
  · rw [extract_low _ _ (by decide), extract_low _ _ (by decide)]
    exact extract_high n (h ++ l)
  · rw [extract_low _ _ (by decide)]
    exact extract_high pre (n ++ (h ++ l))
  · exact extract_high equ (pre ++ (n ++ (h ++ l)))

/-- The divisor that a variant of the prescaler makes: up to two from the quotient, within what
the field holds. -/
theorem regPreOf_calPre (freq calN : Nat) {vari : Int} (low : -2 ≤ vari) (high : vari ≤ 2) :
    regPreOf (calPre freq calN vari) + 1 =
      max 1 (min ((esp8266Clock / (calN + 1) / freq : Nat) + vari).toNat 8192) := by
  have small : esp8266Clock / (calN + 1) / freq ≤ esp8266Clock :=
    Nat.le_trans (Nat.div_le_self _ _) (Nat.div_le_self _ _)
  unfold calPre
  generalize esp8266Clock / (calN + 1) / freq = q at small ⊢
  have clock : esp8266Clock = 80000000 := rfl
  have value : ((q : Int) - 1 + vari).bmod (2 ^ 32) = (q : Int) - 1 + vari := by
    rw [Int.bmod_eq_of_le] <;> omega
  rw [value]
  have limit : regPreMax = 8191 := rfl
  unfold regPreOf
  rw [limit]
  split
  · omega
  · split <;> omega

/-! ## The search -/

/-- The frequency of the divisors `n + 1` and `p`. -/
def frequency (calN p : Nat) : Nat := esp8266Clock / (calN + 1) / p

theorem toFreq_variant (freq : Nat) {calN : Nat} (field : calN < 64) (vari : Int)
    (low : -2 ≤ vari) (high : vari ≤ 2) :
    (variant freq calN vari).toFreq = frequency calN
      (max 1 (min ((esp8266Clock / (calN + 1) / freq : Nat) + vari).toNat 8192)) := by
  have divisor := regPreOf_calPre freq calN low high
  have fits : regPreOf (calPre freq calN vari) < 2 ^ 13 := by omega
  simp only [SpiClk.toFreq, variant, BitVec.toNat_ofNat]
  rw [Nat.mod_eq_of_lt fits, Nat.mod_eq_of_lt (by omega), divisor, Nat.mul_comm,
    ← Nat.div_div_eq_div_mul]
  rfl

/-- The best register so far is slower than what is asked for, and has the frequency noted. -/
structure Best.Sound (best : Best) (freq : Nat) : Prop where
  slower : best.freq < freq
  noted : best.freq = 0 ∨ best.reg.toFreq = best.freq

/-- Of the variants of one divider, one is accurate, or the best one so far is not slower than any
that is slow enough. -/
theorem tryVariants_spec {freq calN : Nat} (varis : List Int) :
    ∀ best : Best, best.Sound freq →
      ((tryVariants freq calN varis best).2 = true ∧
        (tryVariants freq calN varis best).1.reg.toFreq = freq) ∨
      ((tryVariants freq calN varis best).2 = false ∧
        (tryVariants freq calN varis best).1.Sound freq ∧
        best.freq ≤ (tryVariants freq calN varis best).1.freq ∧
        ∀ vari ∈ varis, (variant freq calN vari).toFreq ≤ freq →
          (variant freq calN vari).toFreq ≤ (tryVariants freq calN varis best).1.freq) := by
  induction varis with
  | nil =>
    intro best sound
    exact .inr ⟨rfl, sound, Nat.le_refl _, fun vari none => absurd none List.not_mem_nil⟩
  | cons vari rest ih =>
    intro best sound
    have slower := sound.slower
    have noted := sound.noted
    by_cases accurate : (variant freq calN vari).toFreq = freq
    · refine .inl ?_
      simp only [tryVariants, accurate, if_true, and_self]
    · by_cases slow : (variant freq calN vari).toFreq < freq
      · by_cases closer : ((freq : Int) - (variant freq calN vari).toFreq).natAbs <
            ((freq : Int) - best.freq).natAbs
        · simp only [tryVariants, if_neg accurate, if_pos slow, if_pos closer]
          rcases ih ⟨variant freq calN vari, (variant freq calN vari).toFreq⟩ ⟨slow, .inr rfl⟩ with
            found | ⟨goes, sound', more, all⟩
          · exact .inl found
          · refine .inr ⟨goes, sound', ?_, List.forall_mem_cons.2 ⟨fun _ => more, all⟩⟩
            dsimp only at more
            omega
        · simp only [tryVariants, if_neg accurate, if_pos slow, if_neg closer]
          rcases ih best sound with found | ⟨goes, sound', more, all⟩
          · exact .inl found
          · refine .inr ⟨goes, sound', more, List.forall_mem_cons.2 ⟨fun _ => ?_, all⟩⟩
            omega
      · simp only [tryVariants, if_neg accurate, if_neg slow]
        rcases ih best sound with found | ⟨goes, sound', more, all⟩
        · exact .inl found
        · refine .inr ⟨goes, sound', more, List.forall_mem_cons.2 ⟨fun le => ?_, all⟩⟩
          omega

/-- A variant is accurate, or one is not slower than any other prescaler that is slow enough. -/
theorem variant_best {freq calN p : Nat} (some : 0 < freq) (field : calN < 64) (positive : 0 < p)
    (inside : p ≤ 8192) (slow : frequency calN p ≤ freq) :
    (variant freq calN 0).toFreq = freq ∨
      (frequency calN p ≤ (variant freq calN 1).toFreq ∧
        (variant freq calN 1).toFreq < freq) := by
  have same := toFreq_variant freq field 0 (by decide) (by decide)
  have next := toFreq_variant freq field 1 (by decide) (by decide)
  have zero : ∀ q : Nat, max 1 (min ((q : Int) + 0).toNat 8192) = max 1 (min q 8192) := by
    intro q
    rw [Int.add_zero, Int.toNat_natCast]
  have one : ∀ q : Nat, max 1 (min ((q : Int) + 1).toNat 8192) = min (q + 1) 8192 := by
    intro q
    have next : ((q : Int) + 1).toNat = q + 1 := Int.toNat_natCast (q + 1)
    rw [next]
    exact Nat.max_eq_right (Nat.le_min.2 ⟨Nat.succ_pos q, by decide⟩)
  rw [zero] at same
  rw [one] at next
  rw [same, next]
  exact best_divisor positive inside some slow

/-- The search ends with an accurate register, or with the fastest one that is slow enough. -/
theorem search_spec {freq : Nat} (some : 0 < freq) (ns : List Nat) :
    ∀ best : Best, (∀ calN ∈ ns, calN < 64) → best.Sound freq →
      (search freq ns best).toFreq = freq ∨
      ∃ last : Best, search freq ns best = last.reg ∧ last.Sound freq ∧ best.freq ≤ last.freq ∧
        ∀ calN ∈ ns, ∀ p, 0 < p → p ≤ 8192 → frequency calN p ≤ freq →
          frequency calN p ≤ last.freq := by
  induction ns with
  | nil =>
    intro best _ sound
    exact .inr ⟨best, rfl, sound, Nat.le_refl _, fun calN none => absurd none List.not_mem_nil⟩
  | cons calN rest ih =>
    intro best fields sound
    have field := fields calN List.mem_cons_self
    rcases tryVariants_spec [-1, 0, 1, 2] best sound with
      ⟨found, accurate⟩ | ⟨goes, sound', more, all⟩
    · refine .inl ?_
      rw [search]
      split
      · rename_i best' same
        rw [same] at accurate
        exact accurate
      · rename_i best' same
        rw [same] at found
        cases found
    · have step : search freq (calN :: rest) best =
          search freq rest (tryVariants freq calN [-1, 0, 1, 2] best).1 := by
        rw [search]
        split
        · rename_i best' same
          rw [same] at goes
          cases goes
        · rename_i best' same
          rw [same]
      rw [step]
      rcases ih _ (fun other member => fields other (List.mem_cons_of_mem _ member)) sound' with
        accurate | ⟨last, ends, sound'', more', rest'⟩
      · exact .inl accurate
      · refine .inr ⟨last, ends, sound'', Nat.le_trans more more',
          List.forall_mem_cons.2 ⟨fun p positive inside slow => ?_, rest'⟩⟩
        have tried0 := all 0 (by decide)
        have tried1 := all 1 (by decide)
        have slower := sound'.slower
        rcases variant_best some field positive inside slow with accurate | ⟨below, less⟩
        · have := tried0 (Nat.le_of_eq accurate)
          omega
        · have := tried1 (Nat.le_of_lt less)
          omega

theorem minFreq_eq : minFreq = frequency 63 8192 := by
  decide

/-- **The clock is the best one.** -/
theorem bestReg_spec {freq : Nat} (low : minFreq ≤ freq) :
    (bestReg freq).toFreq ≤ freq ∧ ∀ calN pre, 1 ≤ calN → calN ≤ 63 → pre ≤ 8191 →
      esp8266Clock / ((pre + 1) * (calN + 1)) ≤ freq →
      esp8266Clock / ((pre + 1) * (calN + 1)) ≤ (bestReg freq).toFreq := by
  have positive : 0 < minFreq := by decide
  have fields : ∀ calN ∈ List.range' 1 63, calN < 64 := by
    intro calN member
    have := List.mem_range'_1.1 member
    omega
  have some : 0 < freq := Nat.lt_of_lt_of_le positive low
  rcases search_spec some (List.range' 1 63) ⟨⟨0, 0, 0, 0, 0⟩, 0⟩ fields
    ⟨by omega, .inl rfl⟩ with accurate | ⟨last, ends, sound, -, all⟩
  · have accurate' : (bestReg freq).toFreq = freq := accurate
    rw [accurate']
    exact ⟨Nat.le_refl _, fun _ _ _ _ _ slow => slow⟩
  · have ends' : bestReg freq = last.reg := ends
    rw [ends']
    -- The slowest clock of all is slow enough, so that some register has been taken.
    have least := all 63 (by decide) 8192 (by decide) (Nat.le_refl _) (minFreq_eq ▸ low)
    rw [← minFreq_eq] at least
    have noted := sound.noted.resolve_left (by omega)
    rw [noted]
    refine ⟨Nat.le_of_lt sound.slower, fun calN pre first last' inside slow => ?_⟩
    rw [Nat.mul_comm, ← Nat.div_div_eq_div_mul] at slow ⊢
    exact all calN (List.mem_range'_1.2 ⟨first, by omega⟩) (pre + 1) (Nat.succ_pos _)
      (Nat.succ_le_succ inside) slow

/-! ## The cache -/

theorem tryVariants_regEQU {freq calN : Nat} (varis : List Int) :
    ∀ best : Best, best.reg.regEQU = 0 →
      (tryVariants freq calN varis best).1.reg.regEQU = 0 := by
  induction varis with
  | nil => intro best clear; exact clear
  | cons vari rest ih =>
    intro best clear
    rw [tryVariants]
    dsimp only
    split
    · rfl
    · split
      · split
        · exact ih _ rfl
        · exact ih best clear
      · exact ih best clear

theorem search_regEQU {freq : Nat} (ns : List Nat) :
    ∀ best : Best, best.reg.regEQU = 0 → (search freq ns best).regEQU = 0 := by
  induction ns with
  | nil => intro best clear; exact clear
  | cons calN rest ih =>
    intro best clear
    have kept := @tryVariants_regEQU freq calN [-1, 0, 1, 2] best clear
    rw [search]
    split
    · rename_i best' same
      rw [same] at kept
      exact kept
    · rename_i best' same
      rw [same] at kept
      exact ih best' kept

namespace Clock

/-- The register for a frequency below the clock. -/
def register (freq : UInt32) : UInt32 :=
  if freq.toNat < minFreq then minFreqReg else (bestReg freq.toNat).regValue

theorem computeFrequency_eq (freq : UInt32) (s : Clock) :
    s.computeFrequency freq = s.remember freq (register freq) := by
  unfold computeFrequency register
  split <;> rfl

/-- No frequency below the clock gets the number that stands for the clock itself. -/
theorem register_ne (freq : UInt32) : register freq ≠ 0x80000000 := by
  unfold register
  split
  · decide
  · intro same
    have clear : (bestReg freq.toNat).regEQU = 0 :=
      search_regEQU _ ⟨⟨0, 0, 0, 0, 0⟩, 0⟩ rfl
    rw [← SpiClk.ofValue_regValue (bestReg freq.toNat), same] at clear
    exact absurd clear (by decide)

theorem remember_register (freq : UInt32) (s : Clock) :
    s.remember freq (register freq) =
      ⟨register freq, s.gpmux &&& ~~~((1 : UInt32) <<< 9), freq, register freq⟩ := by
  simp only [remember, setClockDivider, if_neg (register_ne freq)]

/-- What is remembered is what has been computed, and the sysclock bit is clear as long as the
register is the one remembered. -/
structure Cached (s : Clock) : Prop where
  register : s.lastSetRegister = register s.lastSetFrequency
  sysclock : s.spi1Clk = s.lastSetRegister →
    s.gpmux &&& ~~~((1 : UInt32) <<< 9) = s.gpmux

/-- Nothing has been remembered. -/
def Fresh (s : Clock) : Prop := s.lastSetFrequency = 0 ∧ s.lastSetRegister = 0

/-- The register and the sysclock bit are those of the full computation. -/
def Agrees (s : Clock × Clock) : Prop :=
  s.1.spi1Clk = s.2.spi1Clk ∧ s.1.gpmux &&& (1 : UInt32) <<< 9 = s.2.gpmux &&& (1 : UInt32) <<< 9

/-- The call does not find the state before any frequency as if it were 0 Hz. -/
def Uncached (call : Call) (s : Clock) : Prop :=
  call = .setFrequency 0 → s.Fresh → s.spi1Clk ≠ 0

instance (s : Clock) : Decidable s.Fresh := inferInstanceAs (Decidable (_ ∧ _))

instance (call : Call) (s : Clock) : Decidable (Uncached call s) :=
  inferInstanceAs (Decidable (_ → _ → _))

/-- What holds of the component with and without its cache, side by side. -/
structure Together (s : Clock × Clock) : Prop where
  spi1Clk : s.1.spi1Clk = s.2.spi1Clk
  gpmux : s.1.gpmux = s.2.gpmux
  cache : s.1.Fresh ∨ s.1.Cached

theorem Together.agrees {s : Clock × Clock} (together : Together s) : Agrees s :=
  ⟨together.spi1Clk, by rw [together.gpmux]⟩

theorem cached_remember (freq : UInt32) (s : Clock) :
    (s.remember freq (register freq)).Cached := by
  rw [remember_register]
  refine ⟨rfl, fun _ => ?_⟩
  dsimp only
  rw [UInt32.and_assoc, UInt32.and_self]

/-- A divider that is set keeps the cache in order. -/
theorem setClockDivider_cache {s : Clock} (clockDiv : UInt32) (cache : s.Fresh ∨ s.Cached) :
    (s.setClockDivider clockDiv).Fresh ∨ (s.setClockDivider clockDiv).Cached := by
  rcases cache with fresh | cached
  · exact .inl fresh
  · refine .inr ⟨cached.register, fun same => ?_⟩
    have other : clockDiv ≠ 0x80000000 := by
      intro sysclock
      have value : clockDiv = register s.lastSetFrequency := same.trans cached.register
      exact register_ne _ (value.symm.trans sysclock)
    simp only [setClockDivider, if_neg other]
    rw [UInt32.and_assoc, UInt32.and_self]

theorem serve_together {call : Call} {s : Clock × Clock} (uncached : Uncached call s.1)
    (together : Together s) : Together (Runs.both serve serveFully call s).2 := by
  obtain ⟨c, f⟩ := s
  obtain ⟨spi1Clk, gpmux, cache⟩ := together
  dsimp only at spi1Clk gpmux cache
  cases call with
  | setClockDivider clockDiv =>
    refine ⟨rfl, ?_, setClockDivider_cache clockDiv cache⟩
    show (c.setClockDivider clockDiv).gpmux = (f.setClockDivider clockDiv).gpmux
    simp only [setClockDivider, gpmux]
  | setFrequency freq =>
    show Together (c.setFrequency freq, f.setFrequencyFully freq)
    unfold setFrequency setFrequencyFully
    by_cases fast : esp8266Clock ≤ freq.toNat
    · rw [if_pos fast, if_pos fast]
      refine ⟨rfl, ?_, setClockDivider_cache _ cache⟩
      simp only [setClockDivider, gpmux]
    · rw [if_neg fast, if_neg fast, computeFrequency_eq, computeFrequency_eq]
      by_cases hit : c.lastSetFrequency = freq ∧ c.lastSetRegister = c.spi1Clk
      · rw [if_pos hit]
        obtain ⟨frequency, register'⟩ := hit
        rcases cache with fresh | cached
        · exact absurd (register'.symm.trans fresh.2)
            (uncached (by rw [← frequency, fresh.1]) fresh)
        · rw [remember_register]
          refine ⟨?_, ?_, .inr cached⟩
          · rw [← register', cached.register, frequency]
          · rw [← gpmux]
            exact (cached.sysclock register'.symm).symm
      · rw [if_neg hit]
        refine ⟨?_, ?_, .inr (cached_remember freq c)⟩
        · rw [remember_register, remember_register]
        · rw [remember_register, remember_register, gpmux]

/-- Where 0 Hz are taken for set already, the registers are left as they are. -/
theorem serve_shows {call : Call} {s : Clock × Clock} (cachedZero : ¬Uncached call s.1) :
    ¬Agrees (Runs.both serve serveFully call s).2 := by
  obtain ⟨c, f⟩ := s
  unfold Uncached at cachedZero
  push Not at cachedZero
  obtain ⟨rfl, fresh, zero⟩ := cachedZero
  dsimp only at fresh zero
  intro agrees
  have kept : c.setFrequency 0 = c := by
    rw [setFrequency, if_neg (by decide), if_pos ⟨fresh.1, fresh.2.trans zero.symm⟩]
  have full : f.setFrequencyFully 0 = f.remember 0 minFreqReg := by
    rw [setFrequencyFully, if_neg (by decide), computeFrequency, if_pos (by decide)]
  have same : (c.setFrequency 0).spi1Clk = (f.setFrequencyFully 0).spi1Clk := agrees.1
  rw [kept, full, zero] at same
  exact absurd (show (0 : UInt32) = minFreqReg from same) (by decide)

/-- **The clock that is set is the best one, from below**, and whatever calls are made, the shortcut
leaves the registers of the full computation, unless it takes 0 Hz for set. -/
theorem clock_best (spi1Clk gpmux : UInt32) (calls : List Call) :
    (∀ (freq : UInt32) (s : Clock), minFreq ≤ freq.toNat → freq.toNat < esp8266Clock →
      let f := (SpiClk.ofValue (s.setFrequencyFully freq).spi1Clk).toFreq
      f ≤ freq.toNat ∧ ∀ calN pre, 1 ≤ calN → calN ≤ 63 → pre ≤ 8191 →
        ¬(f < esp8266Clock / ((pre + 1) * (calN + 1)) ∧
          esp8266Clock / ((pre + 1) * (calN + 1)) ≤ freq.toNat)) ∧
    ((∀ front, front <+: calls →
        Agrees (Runs.after serve front (start spi1Clk gpmux),
          Runs.after serveFully front (start spi1Clk gpmux))) ↔
      Runs.Admits serve Uncached calls (start spi1Clk gpmux)) := by
  refine ⟨fun freq s low high => ?_, ?_⟩
  · have set : (s.setFrequencyFully freq).spi1Clk = (bestReg freq.toNat).regValue := by
      rw [setFrequencyFully, if_neg (Nat.not_le.2 high), computeFrequency,
        if_neg (Nat.not_lt.2 low)]
      rfl
    dsimp only
    rw [set, SpiClk.ofValue_regValue]
    obtain ⟨slow, best⟩ := bestReg_spec low
    refine ⟨slow, fun calN pre first last inside between => ?_⟩
    exact Nat.not_le.2 between.1 (best calN pre first last inside between.2)
  · have initial : Together (start spi1Clk gpmux, start spi1Clk gpmux) :=
      ⟨rfl, rfl, .inl ⟨rfl, rfl⟩⟩
    have always : (∀ front, front <+: calls → Agrees (Runs.after (Runs.both serve serveFully) front
          (start spi1Clk gpmux, start spi1Clk gpmux))) ↔
        Runs.Admits (Runs.both serve serveFully) (fun call s => Uncached call s.1) calls
          (start spi1Clk gpmux, start spi1Clk gpmux) :=
      Runs.always_iff_admits (fun _ _ uncached together => serve_together uncached together)
        (fun _ together => together.agrees) (fun _ _ cachedZero _ => serve_shows cachedZero) calls _
        initial
    rw [Runs.admits_both] at always
    simpa only [Runs.after_both] using always

/-- 1 MHz, and a run in which 0 Hz are set behind another frequency. -/
theorem clock_best_example :
    (let f := (SpiClk.ofValue ((start 0x80003043 0).setFrequencyFully 1000000).spi1Clk).toFreq
     f ≤ 1000000 ∧ ∀ calN pre, 1 ≤ calN → calN ≤ 63 → pre ≤ 8191 →
        ¬(f < esp8266Clock / ((pre + 1) * (calN + 1)) ∧
          esp8266Clock / ((pre + 1) * (calN + 1)) ≤ 1000000)) ∧
    ∀ front, front <+: [.setFrequency 100, .setClockDivider 0, .setFrequency 0] →
      Agrees (Runs.after serve front (start 0x80003043 0),
        Runs.after serveFully front (start 0x80003043 0)) :=
  ⟨(clock_best 0 0 []).1 1000000 (start 0x80003043 0) (by decide) (by decide),
    (clock_best 0x80003043 0 _).2.2 (by decide)⟩

/-- Behind the divider 0, which is what nothing remembered looks like, 0 Hz are not set. -/
theorem setFrequency_zero_skipped :
    let calls : List Call := [.setClockDivider 0, .setFrequency 0]
    (Runs.after serve calls (start 0x80003043 0)).spi1Clk = 0 ∧
      (Runs.after serveFully calls (start 0x80003043 0)).spi1Clk = minFreqReg := by
  decide

end Clock

end Esp8266.Source.SpiClass
