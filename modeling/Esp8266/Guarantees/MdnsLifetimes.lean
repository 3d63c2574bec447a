import Mathlib.Data.List.Chain
import Mathlib.Data.List.TakeWhile
import Mathlib.Tactic.IntervalCases
import Esp8266.Source.MdnsAnswers

/-!
# The lifetime of what other hosts announce

A TTL is looked at time and again, and restarted when it has expired. The first expiry comes
behind 80 percent of it, four more come behind 5 percent each, and the last of them is the final
one. The times are computed in milliseconds with 32 bits, so that this is so for a TTL of up to
5368709 seconds.
-/
set_option autoImplicit false

namespace Esp8266.Source.Mdns

/-- `millis()` at a time that does not wrap. -/
def millis (m : Nat) : UInt32 := UInt32.ofNat m

theorem toNat_elapsed {s m : Nat} (order : s ≤ m) :
    (millis m - millis s).toNat = (m - s) % 2 ^ 32 := by
  rw [millis, millis, UInt32.toNat_sub, UInt32.toNat_ofNat', UInt32.toNat_ofNat']
  omega

namespace TTL

/-- A look at a TTL: the report of an expiry, with whether it is the final one, and the restart. -/
def look (m : Nat) (t : TTL) : Option (Nat × Bool) × TTL :=
  if t.flagged (millis m) then (some (m, t.finalTimeoutLevel), (t.restart (millis m)).2)
  else (none, t)

/-- The reports of looks at these times. -/
def reports : List Nat → TTL → List (Nat × Bool)
  | [], _ => []
  | m :: times, t =>
    match t.look m with
    | (some report, t) => report :: reports times t
    | (none, t) => reports times t

/-- What is said of the expiries of a TTL that is set: looked at whenever, none is early; looked at
in every millisecond, they are 5 percent apart, and the final one ends the lifetime. -/
def Kept (ttl : UInt32) : Prop :=
  ∀ (t : TTL) (start : Nat),
    (∀ times : List Nat, (start :: times).IsChain (· ≤ ·) →
      (∀ e ∈ reports times (t.set (millis start) ttl), start + 800 * ttl.toNat ≤ e.1) ∧
      (reports times (t.set (millis start) ttl)).IsChain
        (fun e f => e.1 + 50 * ttl.toNat ≤ f.1) ∧
      ∀ e ∈ reports times (t.set (millis start) ttl),
        e.2 = true → start + 1000 * ttl.toNat ≤ e.1) ∧
    ∀ n : Nat,
      (reports (List.range' start n) (t.set (millis start) ttl)).IsChain
        (fun e f => f.1 = e.1 + 50 * ttl.toNat) ∧
      (∀ e ∈ reports (List.range' start n) (t.set (millis start) ttl),
        e.2 = true ↔ e.1 = start + 1000 * ttl.toNat) ∧
      (ttl ≠ 0 → 1000 * ttl.toNat < n →
        (start + 1000 * ttl.toNat, true) ∈
          reports (List.range' start n) (t.set (millis start) ttl))

/-! ## The stages of a TTL -/

/-- The level of a stage, of which there are five. -/
def stageLevel (k : Nat) : UInt8 := levelBase + levelInterval * UInt8.ofNat k

/-- What a stage waits, without the limit of 32 bits. -/
def stageWait (ttl k : Nat) : Nat := if k = 0 then ttl * 800 else ttl * 50

/-- A TTL in a stage that began at `s`. -/
def staged (ttl : UInt32) (k s : Nat) : TTL :=
  ⟨ttl, .reset (millis s) (if k = 0 then ttl * 800 else ttl * 50), stageLevel k⟩

theorem set_eq {ttl : UInt32} (some : ttl ≠ 0) (t : TTL) (s : Nat) :
    t.set (millis s) ttl = staged ttl 0 s := by
  rw [set, if_pos some]
  rfl

theorem restart_staged (ttl : UInt32) {k : Nat} (more : k < 4) (s m : Nat) :
    ((staged ttl k s).restart (millis m)).2 = staged ttl (k + 1) m := by
  interval_cases k <;> rfl

theorem final_staged (ttl : UInt32) {k : Nat} (stage : k ≤ 4) (s : Nat) :
    (staged ttl k s).finalTimeoutLevel = decide (k = 4) := by
  interval_cases k <;> rfl

/-- Behind the last stage nothing expires. -/
theorem reports_ended (ttl : UInt32) (s m : Nat) (times : List Nat) :
    reports times ((staged ttl 4 s).restart (millis m)).2 = [] := by
  induction times with
  | nil => rfl
  | cons time times ih =>
    have still : ((staged ttl 4 s).restart (millis m)).2.flagged (millis time) = false :=
      Bool.and_eq_false_iff.mpr (.inl (Bool.and_eq_false_iff.mpr (.inr rfl)))
    rw [reports, look, still]
    exact ih

theorem reports_zero (t : TTL) (s : Nat) (times : List Nat) :
    reports times (t.set (millis s) 0) = [] := by
  induction times with
  | nil => rfl
  | cons time times ih =>
    have still : (t.set (millis s) 0).flagged (millis time) = false := rfl
    rw [reports, look, still]
    exact ih

/-- The timeout of a stage has 32 bits; being even, it is not the one that stands for never. -/
theorem flagged_staged {ttl : UInt32} (some : ttl ≠ 0) {k s m : Nat} (stage : k ≤ 4)
    (order : s ≤ m) :
    (staged ttl k s).flagged (millis m) = true ↔
      stageWait ttl.toNat k % 2 ^ 32 ≤ (m - s) % 2 ^ 32 := by
  have level : decide (stageLevel k ≠ levelUnset) = true := by
    interval_cases k <;> rfl
  have wait : (if k = 0 then ttl * 800 else ttl * 50 : UInt32).toNat =
      stageWait ttl.toNat k % 2 ^ 32 := by
    rw [stageWait]
    split
    · exact UInt32.toNat_mul ttl 800
    · exact UInt32.toNat_mul ttl 50
  have even : stageWait ttl.toNat k % 2 ^ 32 ≠ 0xffffffff := by
    rw [stageWait]
    split <;> omega
  have bound : stageWait ttl.toNat k % 2 ^ 32 < 2 ^ 32 := Nat.mod_lt _ (by decide)
  have expires :
      decide ((if k = 0 then ttl * 800 else ttl * 50 : UInt32) > 0xfffffffe) = false := by
    rw [decide_eq_false_iff_not, gt_iff_lt, UInt32.lt_iff_toNat_lt, wait]
    change ¬ 0xfffffffe < _
    omega
  rw [flagged, staged, OneShotMs.expired, OneShotMs.reset]
  simp only
  rw [level, decide_eq_true some, expires, Bool.not_false, Bool.true_and, Bool.true_and,
    Bool.true_and, Bool.or_eq_true, decide_eq_true_eq, decide_eq_true_eq, ge_iff_le,
    UInt32.le_iff_toNat_le, toNat_elapsed order, ← UInt32.toNat_inj, wait]
  change _ = 0 ∨ _ ↔ _
  omega

/-! ## Looks at any times -/

/-- What is said of the reports of looks from a stage on. -/
structure Late (ttl k s : Nat) (reports : List (Nat × Bool)) : Prop where
  first : ∀ e ∈ reports, s + stageWait ttl k ≤ e.1
  apart : reports.IsChain fun e f => e.1 + 50 * ttl ≤ f.1
  last : ∀ e ∈ reports, e.2 = true → s + stageWait ttl k + (4 - k) * (50 * ttl) ≤ e.1

theorem Late.nil (ttl k s : Nat) : Late ttl k s [] :=
  ⟨fun _ mem => absurd mem List.not_mem_nil, List.isChain_nil,
    fun _ mem => absurd mem List.not_mem_nil⟩

/-- A report in front of those of the next stage. -/
theorem Late.cons {ttl k s m : Nat} {reports : List (Nat × Bool)} (more : k < 4)
    (late : Late ttl (k + 1) m reports) (expired : s + stageWait ttl k ≤ m) :
    Late ttl k s ((m, false) :: reports) := by
  have wait : stageWait ttl (k + 1) = 50 * ttl := by
    rw [stageWait, if_neg (Nat.succ_ne_zero k), Nat.mul_comm]
  have left : (4 - k) * (50 * ttl) = 50 * ttl + (4 - (k + 1)) * (50 * ttl) := by
    rw [show 4 - k = 4 - (k + 1) + 1 by omega, Nat.succ_mul, Nat.add_comm]
  refine ⟨?_, ?_, ?_⟩
  · rintro e mem
    rcases List.mem_cons.mp mem with rfl | mem
    · exact expired
    · have := late.first e mem
      omega
  · refine List.IsChain.cons late.apart fun f mem => ?_
    have := late.first f (List.mem_of_mem_head? mem)
    rw [wait] at this
    exact this
  · intro e mem final
    rcases List.mem_cons.mp mem with rfl | mem
    · exact absurd final Bool.false_ne_true
    · have := late.last e mem final
      rw [wait] at this
      omega

theorem reports_late {ttl : UInt32} (some : ttl ≠ 0) (small : ttl.toNat * 800 < 2 ^ 32)
    (times : List Nat) : ∀ (k s : Nat), k ≤ 4 → (∀ m ∈ times, s ≤ m) → times.IsChain (· ≤ ·) →
      Late ttl.toNat k s (reports times (staged ttl k s)) := by
  induction times with
  | nil => intro k s _ _ _; exact .nil _ _ _
  | cons m times ih =>
    intro k s stage behind order
    have sm := behind m List.mem_cons_self
    have fits : stageWait ttl.toNat k < 2 ^ 32 := by
      rw [stageWait]
      split <;> omega
    have following : ∀ m' ∈ times, m ≤ m' := by
      intro m' mem
      exact (List.pairwise_cons.mp (List.isChain_iff_pairwise.mp order)).1 m' mem
    rw [reports, look]
    split
    · rename_i report t same
      split at same
      · rename_i expired
        rw [flagged_staged some stage sm, Nat.mod_eq_of_lt fits] at expired
        have due : s + stageWait ttl.toNat k ≤ m := by
          have := Nat.mod_le (m - s) (2 ^ 32)
          omega
        obtain ⟨told, rfl⟩ := Prod.mk.inj same
        obtain rfl := Option.some.inj told
        rw [final_staged ttl stage]
        by_cases ends : k = 4
        · subst ends
          rw [reports_ended]
          refine ⟨fun e mem => ?_, List.isChain_singleton _, fun e mem _ => ?_⟩
          · rw [List.mem_singleton.mp mem]
            exact due
          · rw [List.mem_singleton.mp mem, Nat.sub_self, Nat.zero_mul]
            exact due
        · rw [restart_staged ttl (by omega), decide_eq_false ends]
          exact (ih (k + 1) m (by omega) following order.tail).cons (by omega) due
      · cases same
    · rename_i t same
      split at same
      · cases same
      · obtain ⟨-, rfl⟩ := Prod.mk.inj same
        exact ih k s stage (fun m' mem => behind m' (List.mem_cons_of_mem _ mem)) order.tail

/-! ## Looks in every millisecond -/

/-- From `j` milliseconds into a stage on, the next report is when all of it is waited. -/
theorem reports_next {ttl : UInt32} (some : ttl ≠ 0) {k : Nat} (stage : k ≤ 4) (s : Nat)
    (fits : stageWait ttl.toNat k < 2 ^ 32) (n : Nat) : ∀ j w, j + w = stageWait ttl.toNat k →
      reports (List.range' (s + j) n) (staged ttl k s) =
        if w < n then
          (s + stageWait ttl.toNat k, decide (k = 4)) ::
            reports (List.range' (s + stageWait ttl.toNat k + 1) (n - w - 1))
              ((staged ttl k s).restart (millis (s + stageWait ttl.toNat k))).2
        else [] := by
  induction n with
  | zero => intro j w _; rfl
  | succ n ih =>
    intro j w sum
    rw [List.range'_succ, reports, look]
    have due := flagged_staged some stage (Nat.le_add_right s j)
    rw [Nat.mod_eq_of_lt fits, Nat.add_sub_cancel_left, Nat.mod_eq_of_lt (by omega)] at due
    by_cases now : w = 0
    · subst now
      rw [Nat.add_zero] at sum
      subst sum
      rw [if_pos (due.mpr (Nat.le_refl _)), if_pos (Nat.succ_pos n), final_staged ttl stage]
      rfl
    · rw [if_neg (fun expired => by have := due.mp expired; omega)]
      have rest := ih (j + 1) (w - 1) (by omega)
      rw [← Nat.add_assoc] at rest
      simp only
      rw [rest]
      by_cases inside : w < n + 1
      · rw [if_pos inside, if_pos (by omega), show n - (w - 1) - 1 = n + 1 - w - 1 by omega]
      · rw [if_neg inside, if_neg (by omega)]

/-- The expiries of the stages behind the first, with how many are behind the next one. -/
def expiries (ttl : Nat) : Nat → Nat → List (Nat × Bool)
  | 0, s => [(s + ttl * 50, true)]
  | left + 1, s => (s + ttl * 50, false) :: expiries ttl left (s + ttl * 50)

/-- Of an expiry and those behind it, what is reported in front of an end. -/
theorem takeWhile_reported (e : Nat × Bool) (later : List (Nat × Bool)) (limit : Nat) :
    (e :: later).takeWhile (fun e => decide (e.1 < limit)) =
      if e.1 < limit then e :: later.takeWhile (fun e => decide (e.1 < limit)) else [] := by
  rw [List.takeWhile_cons]
  by_cases inside : e.1 < limit
  · rw [if_pos inside, decide_eq_true inside]
    rfl
  · rw [if_neg inside, decide_eq_false inside]
    rfl

theorem reports_stages {ttl : UInt32} (some : ttl ≠ 0) (small : ttl.toNat * 800 < 2 ^ 32)
    (left : Nat) : ∀ (s n : Nat), left < 4 →
      reports (List.range' (s + 1) n) (staged ttl (4 - left) s) =
        (expiries ttl.toNat left s).takeWhile fun e => decide (e.1 < s + 1 + n) := by
  have positive : 0 < ttl.toNat :=
    Nat.pos_of_ne_zero fun zero => some (UInt32.toNat_inj.mp zero)
  induction left with
  | zero =>
    intro s n _
    have wait : stageWait ttl.toNat 4 = ttl.toNat * 50 := rfl
    have next := reports_next some (Nat.le_refl 4) s (by omega) n 1 (ttl.toNat * 50 - 1) (by omega)
    rw [Nat.sub_zero, next, reports_ended, wait, expiries, takeWhile_reported]
    by_cases inside : ttl.toNat * 50 - 1 < n
    · rw [if_pos inside, if_pos (by simp only; omega)]
      rfl
    · rw [if_neg inside, if_neg (by simp only; omega)]
  | succ left ih =>
    intro s n inner
    have wait : stageWait ttl.toNat (4 - (left + 1)) = ttl.toNat * 50 := by
      rw [stageWait, if_neg (by omega)]
    have next := reports_next some (Nat.sub_le 4 (left + 1)) s (by omega) n 1
      (ttl.toNat * 50 - 1) (by omega)
    rw [next, restart_staged ttl (by omega), wait, expiries, takeWhile_reported]
    by_cases inside : ttl.toNat * 50 - 1 < n
    · rw [if_pos inside, if_pos (by simp only; omega),
        show 4 - (left + 1) + 1 = 4 - left by omega, ih _ _ (by omega),
        decide_eq_false (by omega),
        show s + ttl.toNat * 50 + 1 + (n - (ttl.toNat * 50 - 1) - 1) = s + 1 + n by omega]
    · rw [if_neg inside, if_neg (by simp only; omega)]

/-- All expiries of a TTL that is looked at in every millisecond. -/
theorem reports_set {ttl : UInt32} (some : ttl ≠ 0) (small : ttl.toNat * 800 < 2 ^ 32)
    (t : TTL) (start n : Nat) :
    reports (List.range' start n) (t.set (millis start) ttl) =
      ((start + ttl.toNat * 800, false) ::
        expiries ttl.toNat 3 (start + ttl.toNat * 800)).takeWhile
          fun e => decide (e.1 < start + n) := by
  have wait : stageWait ttl.toNat 0 = ttl.toNat * 800 := rfl
  have next := reports_next some (Nat.zero_le 4) start (by omega) n 0 (ttl.toNat * 800) (by omega)
  rw [Nat.add_zero] at next
  rw [set_eq some, next, restart_staged ttl (by decide), wait, takeWhile_reported]
  by_cases inside : ttl.toNat * 800 < n
  · have rest := reports_stages some small 3 (start + ttl.toNat * 800)
      (n - ttl.toNat * 800 - 1) (by decide)
    rw [show start + ttl.toNat * 800 + 1 + (n - ttl.toNat * 800 - 1) = start + n by omega] at rest
    rw [if_pos inside, if_pos (by simp only; omega)]
    exact congrArg _ rest
  · rw [if_neg inside, if_neg (by simp only; omega)]

/-! ## The lifetime -/

theorem kept_of_small {ttl : UInt32} (small : ttl.toNat ≤ 5368709) : Kept ttl := by
  intro t start
  by_cases some : ttl = 0
  · subst some
    constructor
    · intro times _
      rw [reports_zero]
      exact ⟨fun _ mem => absurd mem List.not_mem_nil, List.isChain_nil,
        fun _ mem => absurd mem List.not_mem_nil⟩
    · intro n
      rw [reports_zero]
      exact ⟨List.isChain_nil, fun _ mem => absurd mem List.not_mem_nil,
        fun differs => absurd rfl differs⟩
  · have fits : ttl.toNat * 800 < 2 ^ 32 := by omega
    constructor
    · intro times order
      have pairs := List.pairwise_cons.mp (List.isChain_iff_pairwise.mp order)
      have late := reports_late some fits times 0 start (Nat.zero_le 4) pairs.1 order.tail
      have wait : stageWait ttl.toNat 0 = ttl.toNat * 800 := rfl
      rw [set_eq some]
      refine ⟨fun e mem => ?_, late.apart, fun e mem final => ?_⟩
      · have := late.first e mem
        omega
      · have := late.last e mem final
        omega
    · intro n
      rw [reports_set some fits]
      generalize inside : (fun e : Nat × Bool => decide (e.1 < start + n)) = p
      have chain : ((start + ttl.toNat * 800, false) ::
          expiries ttl.toNat 3 (start + ttl.toNat * 800)).IsChain
            fun e f => f.1 = e.1 + 50 * ttl.toNat := by
        simp only [expiries, List.isChain_cons_cons, List.isChain_singleton, and_true]
        omega
      refine ⟨ List.IsChain.prefix chain ( List.takeWhile_prefix p), fun e mem => ?_,
        fun _ enough => ?_⟩
      · have listed := ( List.takeWhile_prefix p).subset mem
        have positive : 0 < ttl.toNat :=
          Nat.pos_of_ne_zero fun zero => some (UInt32.toNat_inj.mp zero)
        simp only [expiries, List.mem_cons, List.not_mem_nil, or_false] at listed
        rcases listed with rfl | rfl | rfl | rfl | rfl <;> simp <;> omega
      · have all : ∀ e ∈ (start + ttl.toNat * 800, false) ::
            expiries ttl.toNat 3 (start + ttl.toNat * 800), p e = true := by
          rw [← inside]
          intro e listed
          simp only [expiries, List.mem_cons, List.not_mem_nil, or_false] at listed
          rcases listed with rfl | rfl | rfl | rfl | rfl <;> simp <;> omega
        rw [List.takeWhile_eq_self_iff.mpr all]
        simp only [expiries, List.mem_cons, Prod.mk.injEq, and_true, List.not_mem_nil, or_false]
        omega

theorem not_kept_of_large {ttl : UInt32} (large : 5368709 < ttl.toNat) : ¬ Kept ttl := by
  intro kept
  have some : ttl ≠ 0 := by
    rintro rfl
    exact absurd large (by decide)
  have early := (kept (TTL.new 0) 0).1 [ttl.toNat * 800 % 2 ^ 32]
    (List.isChain_cons_cons.mpr ⟨Nat.zero_le _, List.isChain_singleton _⟩)
  have expired := (flagged_staged some (Nat.zero_le 4)
    (Nat.zero_le (ttl.toNat * 800 % 2 ^ 32))).mpr (by
      rw [Nat.sub_zero, Nat.mod_mod]
      exact Nat.le_refl _)
  rw [set_eq some, reports, look, if_pos expired] at early
  have first := early.1 _ List.mem_cons_self
  have bound : ttl.toNat * 800 % 2 ^ 32 < 2 ^ 32 := Nat.mod_lt _ (by decide)
  simp only at first
  omega

/-- **The lifetime of a record.** What is said of the expiries holds for a TTL of up to 5368709
seconds, and for no other: then 80 percent of it in milliseconds do not fit into 32 bits. -/
theorem lifetime_kept (ttl : UInt32) : Kept ttl ↔ ttl.toNat ≤ 5368709 :=
  ⟨fun kept => by
    by_contra large
    exact not_kept_of_large (by omega) kept, kept_of_small⟩

/-- A TTL of 5368710 seconds, which are 62 days, expires behind 704 milliseconds. -/
theorem lifetime_wraps :
    reports [704] ((TTL.new 0).set (millis 0) 5368710) = [(704, false)] ∧ ¬ Kept 5368710 := by
  refine ⟨by decide, fun kept => ?_⟩
  have early := ((kept (TTL.new 0) 0).1 [704] (by decide)).1 (704, false)
  exact absurd (early (by decide)) (by decide)

end TTL

end Esp8266.Source.Mdns
