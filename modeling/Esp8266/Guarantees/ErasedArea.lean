import Esp8266.Source.EraseArea

/-!
# Which sectors an erased area covers

The three loops of `SPIEraseAreaEx` cut the range of sectors where blocks begin and end. Each
erases the sectors from where it starts to where it stops, in order. The boot loader lets an
even start pass that is not sector aligned, and erases from the sector below it.
-/
set_option autoImplicit false

namespace Esp8266.Source.EraseArea
open Esp8266.Lib.Word32
open Esp8266.Source.Esp (flashSectorSize)

/-- The sectors of an erase. -/
def Erase.sectors : Erase → List Nat
  | .sector n => [n]
  | .block n => List.range' (n * sectorsPerBlock) sectorsPerBlock

/-- Every erase made has succeeded. -/
def Succeeded (fails : List Erase → Erase → Bool) (erased : List Erase) : Prop :=
  ∀ front e, front ++ [e] <+: erased → fails front e = false

/-- The sector holds a byte of the area. -/
def Intersects (start size sector : Nat) : Prop :=
  ∃ address, start ≤ address ∧ address < start + size ∧ address / flashSectorSize = sector

/-- An unaligned start is refused. Otherwise, unless an erase fails, every sector of the area is
erased once and no other one is. -/
def ErasesArea (spiEraseAreaEx : (List Erase → Erase → Bool) → Nat → Nat → Nat × List Erase)
    (start size : Nat) : Prop :=
  ∀ fails,
    (start % flashSectorSize ≠ 0 → spiEraseAreaEx fails start size = (1, [])) ∧
    (start % flashSectorSize = 0 → Succeeded fails (spiEraseAreaEx fails start size).2 →
      (spiEraseAreaEx fails start size).1 = 0 ∧
      ∀ sector, ((spiEraseAreaEx fails start size).2.flatMap Erase.sectors).count sector = 1 ∧
          Intersects start size sector ∨
        ((spiEraseAreaEx fails start size).2.flatMap Erase.sectors).count sector = 0 ∧
          ¬ Intersects start size sector)

/-! ## The loops -/

/-- A loop has ended at a failed erase, or has erased the sectors from `current` on to where it
stops. -/
def Covers (fails : List Erase → Erase → Bool) (current last : Nat) (erased : List Erase)
    (ended : Nat → Prop) : Except (Nat × List Erase) (Nat × List Erase) → Prop
  | .error (code, log) => code ≠ 0 ∧ ¬ Succeeded fails log
  | .ok (stop, log) => current ≤ stop ∧ stop ≤ last ∧ ended stop ∧
      log.flatMap Erase.sectors =
        erased.flatMap Erase.sectors ++ List.range' current (stop - current)

section Loops

variable (fails : List Erase → Erase → Bool) {last : Nat}

/-- The sectors of two stretches that follow each other. -/
theorem range'_join {current next stop : Nat} (above : current ≤ next) (most : next ≤ stop) :
    List.range' current (next - current) ++ List.range' next (stop - next) =
      List.range' current (stop - current) := by
  have start : next = current + (next - current) := by omega
  calc List.range' current (next - current) ++ List.range' next (stop - next)
      = List.range' current (next - current) ++
          List.range' (current + (next - current)) (stop - next) := by rw [← start]
    _ = List.range' current (next - current + (stop - next)) := List.range'_append_1
    _ = List.range' current (stop - current) := by
      congr 1
      omega

variable {fails}

/-- What comes after a stretch covers the rest. -/
theorem Covers.extend {current next : Nat} {erased log : List Erase} {ended : Nat → Prop}
    {result : Except (Nat × List Erase) (Nat × List Erase)} (above : current ≤ next)
    (stretch : log.flatMap Erase.sectors =
      erased.flatMap Erase.sectors ++ List.range' current (next - current))
    (rest : Covers fails next last log ended result) :
    Covers fails current last erased ended result := by
  cases result with
  | error stopped => exact rest
  | ok done =>
    obtain ⟨most, below, ends, covered⟩ := rest
    refine ⟨Nat.le_trans above most, below, ends, ?_⟩
    rw [covered, stretch, List.append_assoc, range'_join above most]

/-- One loop after the other. -/
theorem Covers.bind {current : Nat} {erased : List Erase} {ended ended' : Nat → Prop}
    {result : Except (Nat × List Erase) (Nat × List Erase)}
    {next : Nat → List Erase → Except (Nat × List Erase) (Nat × List Erase)}
    (first : Covers fails current last erased ended result)
    (second : ∀ stop log, stop ≤ last → ended stop →
      Covers fails stop last log ended' (next stop log)) :
    Covers fails current last erased ended' (result.bind fun done => next done.1 done.2) := by
  cases result with
  | error stopped => exact first
  | ok done =>
    obtain ⟨most, below, ends, covered⟩ := first
    exact (second done.1 done.2 below ends).extend most covered

variable (fails)

/-- `aligned` is what the loop keeps of the sector it has reached. -/
theorem eraseLoop_covers {continues : Nat → Bool} {erase : Nat → Erase} {width code : Nat}
    {ended : Nat → Prop} (codes : code ≠ 0) (moves : 0 < width) (aligned : Nat → Prop)
    (inside : ∀ c, continues c = true → c + width ≤ last)
    (step : ∀ c, aligned c → continues c = true →
      aligned (c + width) ∧ (erase c).sectors = List.range' c width)
    (ends : ∀ c, c ≤ last → ¬ continues c = true → ended c) (passes current : Nat)
    (erased : List Erase) (enough : last - current ≤ passes) (below : current ≤ last)
    (start : aligned current) :
    Covers fails current last erased ended
      (eraseLoop fails continues erase width code passes current erased) := by
  have stays : ∀ c l, c ≤ last → ¬ continues c = true →
      Covers fails c last l ended (.ok (c, l)) := fun c l below none_left => by
    refine ⟨Nat.le_refl _, below, ends c below none_left, ?_⟩
    rw [Nat.sub_self, List.range'_zero, List.append_nil]
  induction passes generalizing current erased with
  | zero =>
    refine stays _ _ below fun more => ?_
    have := inside current more
    omega
  | succ passes ih =>
    unfold eraseLoop
    by_cases more : continues current = true
    · obtain ⟨next, sectors⟩ := step current start more
      have room := inside current more
      rw [if_pos more]
      by_cases failed : fails erased (erase current) = true
      · rw [if_pos failed]
        refine ⟨codes, fun succeeded => ?_⟩
        rw [succeeded erased (erase current) (List.prefix_refl _)] at failed
        exact absurd failed Bool.false_ne_true
      · rw [if_neg failed]
        have rest := ih (current + width) (erased ++ [erase current]) (by omega) room next
        refine rest.extend (Nat.le_add_right _ _) ?_
        rw [List.flatMap_append, Nat.add_sub_cancel_left, ← sectors]
        exact congrArg _ (List.append_nil _)
    · rw [if_neg more]
      exact stays _ _ below more

theorem and_sectorsPerBlock (c : Nat) : c &&& (sectorsPerBlock - 1) = c % 16 :=
  Nat.and_two_pow_sub_one_eq_mod c 4

/-- The head ends where a block begins, or where the area ends. -/
theorem headLoop_covers {current : Nat} (erased : List Erase) (below : current ≤ last) :
    Covers fails current last erased (fun stop => stop = last ∨ stop % 16 = 0)
      (headLoop fails last current erased) := by
  refine eraseLoop_covers fails (by decide) Nat.one_pos (fun _ => True)
    (fun c more => (of_decide_eq_true more).1) (fun c _ _ => ⟨trivial, rfl⟩) ?_ _ _ _
    (Nat.le_refl _) below trivial
  intro c inside stopped
  rw [decide_eq_true_iff, and_sectorsPerBlock] at stopped
  omega

/-- The blocks that are erased begin where the loop stands. -/
theorem blockLoop_covers {current : Nat} (erased : List Erase) (below : current ≤ last)
    (aligned : current = last ∨ current % 16 = 0) :
    Covers fails current last erased (fun _ => True) (blockLoop fails last current erased) := by
  have block : sectorsPerBlock = 16 := rfl
  refine eraseLoop_covers fails (by decide) (by decide) (fun c => c = last ∨ c % 16 = 0)
    (fun c more => of_decide_eq_true more) ?_ (fun _ _ _ => trivial) _ _ _ (Nat.le_refl _) below
    aligned
  intro c aligned more
  have room := of_decide_eq_true more
  have first : c / sectorsPerBlock * sectorsPerBlock = c := by
    rw [block] at room ⊢
    omega
  refine ⟨.inr (by omega), ?_⟩
  rw [Erase.sectors, first]

/-- The tail ends with the area. -/
theorem tailLoop_covers {current : Nat} (erased : List Erase) (below : current ≤ last) :
    Covers fails current last erased (fun stop => stop = last)
      (tailLoop fails last current erased) := by
  refine eraseLoop_covers fails (by decide) Nat.one_pos (fun _ => True)
    (fun c more => of_decide_eq_true more) (fun c _ _ => ⟨trivial, rfl⟩) ?_ _ _ _ (Nat.le_refl _)
    below trivial
  intro c inside stopped
  rw [decide_eq_true_iff] at stopped
  omega

end Loops

/-- The call fails at a failed erase, or has erased `sectors` in order. -/
def Outcome (fails : List Erase → Erase → Bool) (sectors : List Nat) (r : Nat × List Erase) :
    Prop :=
  (r.1 ≠ 0 ∧ ¬ Succeeded fails r.2) ∨ (r.1 = 0 ∧ r.2.flatMap Erase.sectors = sectors)

theorem eraseSectors_outcome (fails : List Erase → Erase → Bool) (start size : Nat) :
    Outcome fails (List.range' (start / flashSectorSize)
      (add32 size (flashSectorSize - 1) / flashSectorSize)) (eraseSectors fails start size) := by
  unfold eraseSectors
  generalize start / flashSectorSize = current
  generalize add32 size (flashSectorSize - 1) / flashSectorSize = count
  have loops := (headLoop_covers fails [] (Nat.le_add_right current count)).bind
    fun stop log below aligned => (blockLoop_covers fails log below aligned).bind
      fun stop log below _ => tailLoop_covers fails log below
  cases head : headLoop fails (current + count) current [] with
  | error stopped =>
    simp only [head, Except.bind] at loops
    simp only [head]
    exact .inl loops
  | ok first =>
    simp only [head, Except.bind] at loops
    cases blocks : blockLoop fails (current + count) first.1 first.2 with
    | error stopped =>
      simp only [blocks] at loops
      simp only [head, Except.bind, bind, blocks]
      exact .inl loops
    | ok second =>
      simp only [blocks] at loops
      cases tail : tailLoop fails (current + count) second.1 second.2 with
      | error stopped =>
        simp only [tail] at loops
        simp only [head, Except.bind, bind, blocks, tail]
        exact .inl loops
      | ok third =>
        simp only [tail] at loops
        obtain ⟨-, -, ended, covered⟩ := loops
        simp only [head, Except.bind, bind, blocks, tail]
        refine .inr ⟨rfl, covered.trans ?_⟩
        rw [ended, Nat.add_sub_cancel_left]
        rfl

theorem intersects_iff {start size : Nat} (aligned : start % flashSectorSize = 0) (sector : Nat) :
    Intersects start size sector ↔ start / flashSectorSize ≤ sector ∧
      sector < start / flashSectorSize + (size + (flashSectorSize - 1)) / flashSectorSize := by
  have width : flashSectorSize = 4096 := rfl
  unfold Intersects
  rw [width] at aligned ⊢
  constructor
  · rintro ⟨address, above, below, rfl⟩
    omega
  · rintro ⟨above, below⟩
    exact ⟨max start (sector * 4096), by omega, by omega, by omega⟩

/-! ## The two copies -/

/-- A copy erases the area where its test refuses all that is unaligned, and only that. -/
theorem erasesArea_of_test
    {spiEraseAreaEx : (List Erase → Erase → Bool) → Nat → Nat → Nat × List Erase}
    {start size : Nat} (inside : start + size < 2 ^ 32 - 4096)
    (test : ∀ fails, spiEraseAreaEx fails start size =
      if start % flashSectorSize ≠ 0 then (1, []) else eraseSectors fails start size) :
    ErasesArea spiEraseAreaEx start size := by
  intro fails
  rw [test]
  refine ⟨fun unaligned => if_pos unaligned, fun aligned succeeded => ?_⟩
  rw [if_neg (not_not.2 aligned)] at succeeded ⊢
  rcases eraseSectors_outcome fails start size with ⟨-, failed⟩ | ⟨returned, covered⟩
  · exact absurd succeeded failed
  have rounded : add32 size (flashSectorSize - 1) = size + (flashSectorSize - 1) :=
    add32_of_lt (by rw [show flashSectorSize = 4096 from rfl]; omega)
  refine ⟨returned, fun sector => ?_⟩
  rw [covered, rounded, List.count_range_1', intersects_iff aligned]
  split
  · exact .inl ⟨rfl, ‹_›⟩
  · exact .inr ⟨rfl, ‹_›⟩

theorem core_test (start size : Nat) (fails : List Erase → Erase → Bool) :
    Core.spiEraseAreaEx fails start size =
      if start % flashSectorSize ≠ 0 then (1, []) else eraseSectors fails start size := by
  have low : start &&& (flashSectorSize - 1) = start % flashSectorSize :=
    Nat.and_two_pow_sub_one_eq_mod start 12
  rw [Core.spiEraseAreaEx, low]

/-- The boot loader looks at the lowest bit of the start. -/
theorem eboot_test (start size : Nat) (fails : List Erase → Erase → Bool) :
    Eboot.spiEraseAreaEx fails start size =
      if start % 2 ≠ 0 then (1, []) else eraseSectors fails start size := by
  have low : start &&& (if flashSectorSize - 1 ≠ 0 then 1 else 0) = start % 2 :=
    Nat.and_two_pow_sub_one_eq_mod start 1
  rw [Eboot.spiEraseAreaEx, low]

/-- Both copies erase the area and agree, exactly where the start is aligned or odd. -/
theorem both_erase_area_iff (start size : Nat) (inside : start + size < 2 ^ 32 - 4096) :
    (ErasesArea Core.spiEraseAreaEx start size ∧ ErasesArea Eboot.spiEraseAreaEx start size ∧
      ∀ fails, Core.spiEraseAreaEx fails start size = Eboot.spiEraseAreaEx fails start size) ↔
    start % flashSectorSize = 0 ∨ start % 2 = 1 := by
  have width : flashSectorSize = 4096 := rfl
  have core := core_test start size
  have eboot := eboot_test start size
  constructor
  · rintro ⟨-, erases, -⟩
    by_contra passes
    have refused := (erases fun _ _ => false).1 fun aligned => passes (.inl aligned)
    have even : ¬ start % 2 ≠ 0 := by omega
    rw [eboot, if_neg even] at refused
    -- Nothing fails, so that the call has returned 0.
    rcases eraseSectors_outcome (fun _ _ => false) start size with ⟨-, failed⟩ | ⟨returned, -⟩
    · exact failed fun _ _ _ => rfl
    · rw [refused] at returned
      exact absurd returned (by decide)
  · intro starts
    have same : ∀ fails, Core.spiEraseAreaEx fails start size =
        Eboot.spiEraseAreaEx fails start size := by
      intro fails
      rw [core, eboot]
      by_cases odd : start % 2 ≠ 0
      · have unaligned : start % flashSectorSize ≠ 0 := by
          rw [width]
          omega
        rw [if_pos odd, if_pos unaligned]
      · have aligned : ¬ start % flashSectorSize ≠ 0 := by
          rw [width] at starts ⊢
          omega
        rw [if_neg odd, if_neg aligned]
    exact ⟨erasesArea_of_test inside core, erasesArea_of_test inside fun fails =>
      (same fails).symm.trans (core fails), same⟩

/-- From the end of the first block on: a sector, a block and a sector. -/
theorem both_erase_area_of_block :
    (ErasesArea Core.spiEraseAreaEx 0xf000 0x12000 ∧
      ErasesArea Eboot.spiEraseAreaEx 0xf000 0x12000 ∧
      ∀ fails, Core.spiEraseAreaEx fails 0xf000 0x12000 =
        Eboot.spiEraseAreaEx fails 0xf000 0x12000) ↔
    0xf000 % flashSectorSize = 0 ∨ 0xf000 % 2 = 1 :=
  both_erase_area_iff 0xf000 0x12000 (by decide)

/-- The boot loader takes an address in the middle of a sector, and erases that sector. -/
theorem eboot_takes_unaligned_start :
    ¬ (ErasesArea Core.spiEraseAreaEx 0x1800 16 ∧ ErasesArea Eboot.spiEraseAreaEx 0x1800 16 ∧
        ∀ fails, Core.spiEraseAreaEx fails 0x1800 16 = Eboot.spiEraseAreaEx fails 0x1800 16) ∧
      Eboot.spiEraseAreaEx (fun _ _ => false) 0x1800 16 = (0, [.sector 1]) ∧
      Core.spiEraseAreaEx (fun _ _ => false) 0x1800 16 = (1, []) := by
  refine ⟨?_, by decide, by decide⟩
  rintro ⟨-, erases, -⟩
  exact absurd ((erases fun _ _ => false).1 (by decide)) (by decide)

end Esp8266.Source.EraseArea
