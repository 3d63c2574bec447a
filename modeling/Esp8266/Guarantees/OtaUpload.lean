import Esp8266.Lib.Runs
import Esp8266.Source.Espota

/-!
# What the upload of espota.py reports

The upload phase is set against what the device does from the connection on, whatever it reads
at a time and however its replies are cut. It ends with the right exit code exactly when the reply
to the last chunk leaves the OK to the second loop, or that loop hears of the failure.
-/
set_option autoImplicit false

namespace Esp8266.Source.Espota
open Esp8266.Lib.Decimal Esp8266.Lib.Runs Esp8266.Source.WString Esp8266.Source.Ota

/-! ## The device -/

/-- What `Update.end` returns, if the update comes that far. -/
def updateEnd : List Answer → Device → Option Bool
  | [], _ => none
  | a :: answers, d =>
    match d.pc with
    | .receiving _ => if a.again then updateEnd answers (d.goOn a).2 else some a.ok
    | _ => updateEnd answers (d.goOn a).2

/-- `Update.end` returned true, and all of the OK arrived. -/
def OkArrived (answers : List Answer) (d : Device) (bytes : List UInt8) : Prop :=
  updateEnd answers d = some true ∧ ofString "OK" <:+ bytes

/-- The places from the connection to `Update.end`. -/
def Uploading : Pc → Prop
  | .connecting | .notConnected | .receiving _ | .late _ | .writing _ => True
  | _ => False

/-- A device whose update has ended prints the OK and nothing else. -/
theorem printed_succeeded (answers : List Answer) : ∀ d : Device,
    (d.pc = .flushed → (after Device.goOn answers d).printed = d.printed ∨
      (after Device.goOn answers d).printed = d.printed ++ ofString "OK") ∧
    (d.pc = .succeeded ∨ d.pc = .restarted ∨ d.pc = .outside ∧ d.ota.state = .idle →
      (after Device.goOn answers d).printed = d.printed) := by
  induction answers with
  | nil =>
    intro d
    exact ⟨fun _ => .inl rfl, fun _ => rfl⟩
  | cons a answers ih =>
    intro d
    obtain ⟨ota, pc, printed⟩ := d
    rw [after_cons]
    constructor
    · rintro rfl
      exact .inr ((ih _).2 (.inl rfl))
    · rintro (rfl | rfl | ⟨rfl, idle⟩)
      · cases reboot : ota.rebootOnSuccess with
        | true =>
          have run :
              Device.goOn a ⟨ota, .succeeded, printed⟩ = ([], ⟨ota, .restarted, printed⟩) := by
            simp only [Device.goOn, if_pos reboot]
          rw [run]
          exact (ih _).2 (.inr (.inl rfl))
        | false =>
          have run : Device.goOn a ⟨ota, .succeeded, printed⟩ =
              ([], Device.handled ⟨ota, .succeeded, printed⟩) := by
            simp only [Device.goOn, reboot, Bool.false_eq_true, if_false]
          rw [run]
          exact (ih _).2 (.inr (.inr ⟨rfl, rfl⟩))
      · exact (ih _).2 (.inr (.inl rfl))
      · have other : ota.state ≠ .runUpdate := by
          rw [show ota.state = .idle from idle]
          decide
        have run : Device.goOn a ⟨ota, .outside, printed⟩ = ([], ⟨ota, .outside, printed⟩) := by
          simp only [Device.goOn, if_neg other]
        rw [run]
        exact (ih _).2 (.inr (.inr ⟨rfl, idle⟩))

/-- With a successful end the device prints digits and then the OK. -/
theorem printed_ended (answers : List Answer) : ∀ d : Device, Uploading d.pc →
    (∀ c ∈ d.printed, IsDigit c) → updateEnd answers d = some true →
    ∃ digits, (∀ c ∈ digits, IsDigit c) ∧ ((after Device.goOn answers d).printed = digits ∨
      (after Device.goOn answers d).printed = digits ++ ofString "OK") := by
  induction answers with
  | nil =>
    intro d _ _ ended
    cases ended
  | cons a answers ih =>
    intro d uploading digits ended
    obtain ⟨ota, pc, printed⟩ := d
    rw [after_cons]
    cases pc with
    | connecting =>
      refine ih _ ?_ digits ended
      simp only [Device.goOn]
      split_ifs
      all_goals trivial
    | notConnected => exact ih _ trivial digits ended
    | receiving total =>
      cases again : a.again with
      | true =>
        simp only [updateEnd, again, if_true] at ended
        have run : ∃ pc', Device.goOn a ⟨ota, .receiving total, printed⟩ =
            ([], ⟨ota, pc', printed⟩) ∧ Uploading pc' := by
          simp only [Device.goOn, if_pos again]
          split_ifs
          all_goals exact ⟨_, rfl, trivial⟩
        obtain ⟨pc', run, uploading'⟩ := run
        rw [run] at ended ⊢
        exact ih _ uploading' digits ended
      | false =>
        simp only [updateEnd, again, Bool.false_eq_true, if_false, Option.some.injEq] at ended
        have run : Device.goOn a ⟨ota, .receiving total, printed⟩ =
            ([], ⟨ota, .flushed, printed⟩) := by
          simp only [Device.goOn, again, ended, Bool.false_eq_true, if_false, if_true]
        rw [run]
        exact ⟨printed, digits, (printed_succeeded answers ⟨ota, .flushed, printed⟩).1 rfl⟩
    | late total => exact ih _ trivial digits ended
    | writing total =>
      by_cases some : 0 < a.written
      · have run : (Device.goOn a ⟨ota, .writing total, printed⟩).2 =
            ⟨ota, .receiving (total + a.written), printed ++ decimal a.written⟩ := by
          simp only [Device.goOn, if_pos some, Device.print]
        simp only [updateEnd] at ended
        rw [run] at ended ⊢
        refine ih _ trivial ?_ ended
        intro c mem
        rcases List.mem_append.mp mem with before | digit
        · exact digits c before
        · exact isDigit_of_mem_decimal digit
      · have run : (Device.goOn a ⟨ota, .writing total, printed⟩).2 =
            ⟨ota, .receiving total, printed⟩ := by
          simp only [Device.goOn, if_neg some]
        simp only [updateEnd] at ended
        rw [run] at ended ⊢
        exact ih _ trivial digits ended
    | _ => exact uploading.elim

/-- There is only one place for an OK behind digits. -/
theorem ok_last {digits rest : List UInt8} (all : ∀ c ∈ digits, IsDigit c) :
    ∀ front : List UInt8, front ++ ofString "OK" ++ rest = digits ++ ofString "OK" →
      front = digits := by
  induction digits with
  | nil =>
    intro front split
    have lengths := congrArg List.length split
    simp only [List.length_append, List.nil_append] at lengths
    exact List.length_eq_zero_iff.mp (by omega)
  | cons d digits ih =>
    intro front split
    cases front with
    | nil =>
      have digit := all d List.mem_cons_self
      rw [← (List.cons.inj split).1] at digit
      exact absurd digit (by decide)
    | cons c front =>
      obtain ⟨head, tail⟩ := List.cons.inj split
      rw [head, ih (fun c mem => all c (List.mem_cons_of_mem _ mem)) front tail]

/-- What arrives is digits and the OK, when the OK does. -/
theorem okArrived_bytes {answers : List Answer} {d : Device} {bytes : List UInt8} {arrives : Nat}
    (connecting : d.pc = .connecting) (fresh : d.printed = [])
    (arrived : bytes = (after Device.goOn answers d).printed.take arrives)
    (ok : OkArrived answers d bytes) :
    ∃ digits, (∀ c ∈ digits, IsDigit c) ∧ bytes = digits ++ ofString "OK" := by
  obtain ⟨ended, front, suffix⟩ := ok
  obtain ⟨digits, all, printed⟩ := printed_ended answers d (by rw [connecting]; trivial)
    (by rw [fresh]; exact fun c mem => absurd mem List.not_mem_nil) ended
  have whole := List.take_append_drop arrives (after Device.goOn answers d).printed
  rw [← arrived, ← suffix] at whole
  rcases printed with none | some
  · have mem : (0x4f : UInt8) ∈ digits := by
      rw [← none, ← whole]
      simp only [List.mem_append]
      exact .inl (.inr List.mem_cons_self)
    exact absurd (all _ mem) (by decide)
  · rw [some] at whole
    have same := ok_last all front whole
    exact ⟨digits, all, by rw [← suffix, same]⟩

/-- The O is among what is left if no more than the digits are taken. -/
theorem mem_drop_ok (digits : List UInt8) (n : Nat) :
    0x4f ∈ (digits ++ ofString "OK").drop n ↔ n + 2 ≤ (digits ++ ofString "OK").length := by
  have length : (digits ++ ofString "OK").length = digits.length + 2 := by
    rw [List.length_append]
    rfl
  rw [length]
  constructor
  · intro mem
    by_contra beyond
    have skip : (digits ++ ofString "OK").drop n =
        (ofString "K").drop (n - (digits.length + 1)) := by
      have split : digits ++ ofString "OK" = digits ++ [0x4f] ++ ofString "K" := by
        rw [List.append_assoc]
        rfl
      rw [split, List.drop_append, List.drop_of_length_le, List.length_append]
      · rfl
      · simp only [List.length_append, List.length_singleton]
        omega
    rw [skip] at mem
    exact absurd (List.mem_of_mem_drop mem) (by decide)
  · intro within
    rw [List.drop_append_of_le_length (by omega)]
    exact List.mem_append_right _ List.mem_cons_self

/-! ## The replies -/

/-- The replies that the second loop can read. -/
def replies (c : Connection) : Nat → Nat → List UInt8 → List (List UInt8)
  | 0, _, _ => []
  | fuel + 1, i, bytes =>
    if bytes = [] then []
    else
      let n := min 64 (max 1 (c.there i))
      bytes.take n :: replies c fuel (i + 1) (bytes.drop n)

/-- What the replies say, taken in order; `closed` is what comes behind them. -/
def verdict (closed : Bool) : List (List UInt8) → Option Nat
  | [] => if closed then none else some 1
  | reply :: rest =>
    if 0x45 ∈ reply then some 1 else if 0x4f ∈ reply then some 0 else verdict closed rest

theorem resultLoop_closed {c : Connection} (closed : c.closed = true) (fuel : Nat) :
    ∀ u : Upload, u.bytes = [] → resultLoop c fuel u = none := by
  induction fuel with
  | zero =>
    intro u _
    rfl
  | succ fuel ih =>
    intro u none
    have step : c.recv 64 u.calls u.bytes = some ([], []) := by
      rw [Connection.recv, if_pos none, if_pos closed]
    simp only [resultLoop, step, List.not_mem_nil, if_false]
    exact ih _ rfl

theorem exists_succ {f : Nat → Option Nat} {code : Nat} (zero : f 0 = none) :
    (∃ fuel, f fuel = some code) ↔ ∃ fuel, f (fuel + 1) = some code := by
  constructor
  · rintro ⟨fuel, ends⟩
    cases fuel with
    | zero =>
      rw [zero] at ends
      cases ends
    | succ fuel => exact ⟨fuel, ends⟩
  · rintro ⟨fuel, ends⟩
    exact ⟨fuel + 1, ends⟩

/-- Nothing is left to read. -/
theorem resultLoop_end (c : Connection) (code : Nat) {u : Upload} (none : u.bytes = []) :
    (∃ fuel, resultLoop c fuel u = some code) ↔ verdict c.closed [] = some code := by
  cases closed : c.closed with
  | true =>
    simp only [resultLoop_closed closed _ u none]
    exact exists_const Nat
  | false =>
    have step : c.recv 64 u.calls u.bytes = Option.none := by
      rw [Connection.recv, if_pos none, closed]
      rfl
    rw [exists_succ rfl]
    simp only [resultLoop, step]
    exact exists_const Nat

/-- The second loop ends with a code exactly when the replies say so. -/
theorem resultLoop_verdict (c : Connection) (code : Nat) (length : Nat) : ∀ u : Upload,
    u.bytes.length ≤ length →
    ((∃ fuel, resultLoop c fuel u = some code) ↔
      verdict c.closed (replies c length u.calls u.bytes) = some code) := by
  induction length with
  | zero =>
    intro u short
    have none : u.bytes = [] := List.length_eq_zero_iff.mp (Nat.le_zero.mp short)
    exact resultLoop_end c code none
  | succ length ih =>
    intro u short
    by_cases none : u.bytes = []
    · rw [replies, if_pos none]
      exact resultLoop_end c code none
    · have positive : 0 < u.bytes.length := List.length_pos_iff.mpr none
      have step : c.recv 64 u.calls u.bytes = some (u.bytes.take (min 64 (max 1 (c.there u.calls))),
          u.bytes.drop (min 64 (max 1 (c.there u.calls)))) := by
        rw [Connection.recv, if_neg none]
      have shorter : (u.bytes.drop (min 64 (max 1 (c.there u.calls)))).length ≤ length := by
        rw [List.length_drop]
        omega
      have later := ih { u with
        calls := u.calls + 1
        bytes := u.bytes.drop (min 64 (max 1 (c.there u.calls))) } shorter
      rw [replies, if_neg none, exists_succ rfl]
      simp only [resultLoop, step, verdict]
      split_ifs
      · exact exists_const Nat
      · exact exists_const Nat
      · exact later

/-! ## What can be told from the replies -/

/-- Some reply has the E of an error text, and none before it an O. -/
def ErrorSeen (replies : List (List UInt8)) : Prop :=
  ∃ before reply later, replies = before ++ reply :: later ∧ 0x45 ∈ reply ∧ ∀ r ∈ before, 0x4f ∉ r

theorem verdict_one (closed : Bool) (replies : List (List UInt8)) :
    verdict closed replies = some 1 ↔
      ErrorSeen replies ∨ closed = false ∧ ∀ r ∈ replies, 0x4f ∉ r := by
  induction replies with
  | nil =>
    have unseen : ¬ ErrorSeen [] := by
      rintro ⟨before, reply, later, split, -⟩
      exact List.append_ne_nil_of_right_ne_nil _ (List.cons_ne_nil _ _) split.symm
    cases closed with
    | true => simp [verdict, unseen]
    | false => simp [verdict]
  | cons reply rest ih =>
    rw [verdict]
    by_cases error : 0x45 ∈ reply
    · rw [if_pos error]
      exact ⟨fun _ => .inl ⟨[], reply, rest, rfl, error, fun r mem => absurd mem List.not_mem_nil⟩,
        fun _ => rfl⟩
    · rw [if_neg error]
      by_cases ok : 0x4f ∈ reply
      · rw [if_pos ok]
        constructor
        · intro impossible
          cases impossible
        · rintro (⟨before, reply', later, split, error', clear⟩ | ⟨-, clear⟩)
          · cases before with
            | nil =>
              rw [List.nil_append, List.cons.injEq] at split
              rw [split.1] at error
              exact absurd error' error
            | cons first before =>
              rw [List.cons_append, List.cons.injEq] at split
              exact absurd (split.1 ▸ ok) (clear first List.mem_cons_self)
          · exact absurd ok (clear reply List.mem_cons_self)
      · rw [if_neg ok, ih]
        constructor
        · rintro (⟨before, reply', later, split, error', clear⟩ | ⟨raises, clear⟩)
          · refine .inl ⟨reply :: before, reply', later, congrArg (reply :: ·) split, error', ?_⟩
            exact List.forall_mem_cons.mpr ⟨ok, clear⟩
          · exact .inr ⟨raises, List.forall_mem_cons.mpr ⟨ok, clear⟩⟩
        · rintro (⟨before, reply', later, split, error', clear⟩ | ⟨raises, clear⟩)
          · cases before with
            | nil =>
              rw [List.nil_append, List.cons.injEq] at split
              rw [split.1] at error
              exact absurd error' error
            | cons first before =>
              rw [List.cons_append, List.cons.injEq] at split
              exact .inl ⟨before, reply', later, split.2, error',
                fun r mem => clear r (List.mem_cons_of_mem _ mem)⟩
          · exact .inr ⟨raises, fun r mem => clear r (List.mem_cons_of_mem _ mem)⟩

/-- Without an E among them, the replies tell of the OK when they hold its O. -/
theorem verdict_zero (closed : Bool) {replies : List (List UInt8)}
    (clear : ∀ r ∈ replies, 0x45 ∉ r) :
    verdict closed replies = some 0 ↔ ∃ r ∈ replies, 0x4f ∈ r := by
  induction replies with
  | nil =>
    cases closed with
    | true => simp [verdict]
    | false => simp [verdict]
  | cons reply rest ih =>
    have later := ih fun r mem => clear r (List.mem_cons_of_mem _ mem)
    rw [verdict, if_neg (clear reply List.mem_cons_self)]
    by_cases ok : 0x4f ∈ reply
    · simp only [if_pos ok, true_iff]
      exact ⟨reply, List.mem_cons_self, ok⟩
    · rw [if_neg ok, later]
      simp only [List.mem_cons, exists_eq_or_imp, ok, false_or]

theorem verdict_cases (closed : Bool) (replies : List (List UInt8)) :
    verdict closed replies = none ∨ verdict closed replies = some 0 ∨
      verdict closed replies = some 1 := by
  induction replies with
  | nil => cases closed <;> simp [verdict]
  | cons reply rest ih =>
    rw [verdict]
    split_ifs
    · exact .inr (.inr rfl)
    · exact .inr (.inl rfl)
    · exact ih

/-- The replies hold what is left of the bytes. -/
theorem flatten_replies (c : Connection) (length : Nat) : ∀ (i : Nat) (bytes : List UInt8),
    bytes.length ≤ length → (replies c length i bytes).flatten = bytes := by
  induction length with
  | zero =>
    intro i bytes short
    rw [List.length_eq_zero_iff.mp (Nat.le_zero.mp short)]
    rfl
  | succ length ih =>
    intro i bytes short
    by_cases none : bytes = []
    · rw [replies, if_pos none, none]
      rfl
    · have positive : 0 < bytes.length := List.length_pos_iff.mpr none
      have shorter : (bytes.drop (min 64 (max 1 (c.there i)))).length ≤ length := by
        rw [List.length_drop]
        omega
      simp only [replies, if_neg none, List.flatten_cons, ih (i + 1) _ shorter,
        List.take_append_drop]

theorem mem_replies (c : Connection) (i : Nat) (bytes : List UInt8) (ch : UInt8) :
    (∃ r ∈ replies c bytes.length i bytes, ch ∈ r) ↔ ch ∈ bytes := by
  rw [← List.mem_flatten, flatten_replies c bytes.length i bytes (Nat.le_refl _)]

/-! ## The first loop -/

/-- How often the first loop sends. -/
def chunkCount (contents : List UInt8) : Nat := (contents.length + 1459) / 1460

/-- How much the first calls of `recv` take, while there is enough. -/
def taken (c : Connection) : Nat → Nat
  | 0 => 0
  | n + 1 => taken c n + min 32 (max 1 (c.there n))

/-- One of the first calls of `sendall` or `recv` raises. -/
def Raises (c : Connection) (n : Nat) : Prop :=
  ∃ i < n, c.sends i = false ∨ c.closed = false ∧ c.bytes.length ≤ taken c i

theorem raises_succ {c : Connection} {n : Nat} : Raises c (n + 1) ↔
    Raises c n ∨ c.sends n = false ∨ c.closed = false ∧ c.bytes.length ≤ taken c n := by
  simp only [Raises, Nat.lt_succ_iff_lt_or_eq, or_and_right, exists_or, exists_eq_left]

theorem Raises.mono {c : Connection} {m n : Nat} (raises : Raises c m) (le : m ≤ n) :
    Raises c n := by
  obtain ⟨i, lt, fails⟩ := raises
  exact ⟨i, Nat.lt_of_lt_of_le lt le, fails⟩

/-- A call of `recv` that does not raise takes its share of what is there. -/
theorem recv_taken {c : Connection} {i : Nat}
    (works : ¬ (c.closed = false ∧ c.bytes.length ≤ taken c i)) : ∃ reply,
    c.recv 32 i (c.bytes.drop (taken c i)) = some (reply, c.bytes.drop (taken c (i + 1))) := by
  rw [Connection.recv]
  by_cases none : c.bytes.drop (taken c i) = []
  · have all := List.drop_eq_nil_iff.mp none
    have closed : c.closed = true := by
      rw [← Bool.not_eq_false]
      exact fun silent => works ⟨silent, all⟩
    have still : c.bytes.drop (taken c (i + 1)) = [] :=
      List.drop_eq_nil_iff.mpr (Nat.le_trans all (Nat.le_add_right _ _))
    rw [if_pos none, if_pos closed, still]
    exact ⟨[], rfl⟩
  · simp only [if_neg none, List.drop_drop]
    exact ⟨_, rfl⟩

theorem chunkCount_drop {f : List UInt8} (some : f ≠ []) :
    chunkCount f = chunkCount (f.drop 1460) + 1 := by
  have positive := List.length_pos_iff.mpr some
  rw [chunkCount, chunkCount, List.length_drop]
  omega

/-- The first loop raises, or leaves what its calls of `recv` do not take. -/
theorem uploadLoop_eq (c : Connection) (fuel : Nat) : ∀ (f : List UInt8) (i : Nat) (ok : Bool),
    f.length < fuel → ¬ Raises c i →
    (Raises c (i + chunkCount f) →
      uploadLoop c fuel f ⟨ok, i, c.bytes.drop (taken c i)⟩ = none) ∧
    (¬ Raises c (i + chunkCount f) → ∃ ok',
      uploadLoop c fuel f ⟨ok, i, c.bytes.drop (taken c i)⟩ =
        some ⟨ok', i + chunkCount f, c.bytes.drop (taken c (i + chunkCount f))⟩) := by
  induction fuel with
  | zero =>
    intro f i ok short
    cases short
  | succ fuel ih =>
    intro f i ok short clear
    by_cases none : f = []
    · subst none
      exact ⟨fun raises => absurd raises clear, fun _ => ⟨ok, rfl⟩⟩
    · have chunk : f.take 1460 ≠ [] := by
        rw [Ne, List.take_eq_nil_iff]
        exact not_or.mpr ⟨by decide, none⟩
      have positive := List.length_pos_iff.mpr none
      have count : i + chunkCount f = i + 1 + chunkCount (f.drop 1460) := by
        rw [chunkCount_drop none]
        omega
      by_cases fails : c.sends i = false ∨ c.closed = false ∧ c.bytes.length ≤ taken c i
      · have raises : Raises c (i + chunkCount f) :=
          (raises_succ.mpr (.inr fails)).mono (by omega)
        refine ⟨fun _ => ?_, fun works => absurd raises works⟩
        cases sends : c.sends i with
        | false => simp only [uploadLoop, if_neg chunk, sends, Bool.not_false, if_true]
        | true =>
          rcases fails with silent | ⟨silent, all⟩
          · rw [sends] at silent
            cases silent
          · have raised : c.recv 32 i (c.bytes.drop (taken c i)) = Option.none := by
              rw [Connection.recv, if_pos (List.drop_eq_nil_iff.mpr all), silent]
              rfl
            simp only [uploadLoop, if_neg chunk, sends, Bool.not_true, Bool.false_eq_true, if_false,
              raised]
      · obtain ⟨sends, works⟩ := not_or.mp fails
        obtain ⟨reply, received⟩ := recv_taken works
        have shorter : (f.drop 1460).length < fuel := by
          rw [List.length_drop]
          omega
        have later := ih (f.drop 1460) (i + 1) (ok || decide (0x4f ∈ reply)) shorter
          (fun raises => (raises_succ.mp raises).elim clear fails)
        rw [count]
        simp only [uploadLoop, if_neg chunk, sends, received]
        exact later

/-! ## The exit code -/

/-- The upload phase ends, and with 0 if and only if `ok`. -/
def Reports (c : Connection) (contents : List UInt8) (ok : Prop) : Prop :=
  ∃ code, (∃ fuel, upload c contents fuel = some code) ∧ (code = 0 ↔ ok)

/-- When the exit code is right. An OK that arrives must not be reached by the replies that are
read between the chunks. Without it, one of the calls in between raises, or of what is left then
the E of the error text is read, and no O before it, or no O is left and the connection
ends with an exception. -/
def Legible (c : Connection) (contents : List UInt8) (ok : Prop) : Prop :=
  let n := chunkCount contents
  let left := c.bytes.drop (taken c n)
  (ok → ¬ Raises c n ∧ taken c n + 2 ≤ c.bytes.length) ∧
    (¬ ok → Raises c n ∨ ErrorSeen (replies c left.length n left) ∨
      c.closed = false ∧ 0x4f ∉ left)

theorem reports_raised {c : Connection} {contents : List UInt8} {ok : Prop}
    (raises : Raises c (chunkCount contents)) : Reports c contents ok ↔ ¬ ok := by
  have raised := (uploadLoop_eq c (contents.length + 1) contents 0 false (Nat.lt_succ_self _)
    (fun ⟨_, lt, _⟩ => absurd lt (Nat.not_lt_zero _))).1
  simp only [Nat.zero_add, taken, List.drop_zero] at raised
  simp only [Reports, upload, raised raises, Option.some.injEq, exists_const, exists_eq_left',
    Nat.one_ne_zero, false_iff]

theorem reports_verdict {c : Connection} {contents : List UInt8} {ok : Prop}
    (clear : ¬ Raises c (chunkCount contents)) :
    Reports c contents ok ↔ ∃ code, verdict c.closed
      (replies c (c.bytes.drop (taken c (chunkCount contents))).length (chunkCount contents)
        (c.bytes.drop (taken c (chunkCount contents)))) = some code ∧ (code = 0 ↔ ok) := by
  have leaves := (uploadLoop_eq c (contents.length + 1) contents 0 false (Nat.lt_succ_self _)
    (fun ⟨_, lt, _⟩ => absurd lt (Nat.not_lt_zero _))).2
  simp only [Nat.zero_add, taken, List.drop_zero] at leaves
  obtain ⟨ok', leaves⟩ := leaves clear
  simp only [Reports, upload, leaves]
  exact exists_congr fun code => and_congr_left fun _ =>
    resultLoop_verdict c code _ ⟨false, chunkCount contents, _⟩ (Nat.le_refl _)

/-- `serve` reports what the device did exactly when its replies are legible. -/
theorem upload_reported (c : Connection) (contents : List UInt8) {d : Device}
    (connecting : d.pc = .connecting) (fresh : d.printed = []) (answers : List Answer)
    (arrives : Nat) (bytes : c.bytes = (after Device.goOn answers d).printed.take arrives) :
    Reports c contents (OkArrived answers d c.bytes) ↔
      Legible c contents (OkArrived answers d c.bytes) := by
  rw [Legible]
  by_cases raises : Raises c (chunkCount contents)
  · rw [reports_raised raises]
    exact ⟨fun lost => ⟨fun ok => absurd ok lost, fun _ => .inl raises⟩,
      fun legible ok => (legible.1 ok).1 raises⟩
  · rw [reports_verdict raises]
    by_cases ok : OkArrived answers d c.bytes
    · obtain ⟨digits, all, split⟩ := okArrived_bytes connecting fresh bytes ok
      have clear : ∀ r ∈ replies c (c.bytes.drop (taken c (chunkCount contents))).length
          (chunkCount contents) (c.bytes.drop (taken c (chunkCount contents))), 0x45 ∉ r := by
        intro r mem error
        have there := List.mem_of_mem_drop ((mem_replies c _ _ _).mp ⟨r, mem, error⟩)
        rw [split] at there
        rcases List.mem_append.mp there with digit | text
        · exact absurd (all _ digit) (by decide)
        · exact absurd text (by decide)
      have told := verdict_zero c.closed clear
      rw [mem_replies, split, mem_drop_ok, ← split] at told
      simp only [ok, iff_true, true_imp_iff, not_true, false_imp_iff, and_true]
      constructor
      · rintro ⟨code, ends, rfl⟩
        exact ⟨raises, told.mp ends⟩
      · rintro ⟨-, within⟩
        exact ⟨0, told.mpr within, rfl⟩
    · simp only [ok, iff_false, false_imp_iff, true_and, not_false_eq_true, true_imp_iff, raises,
        false_or]
      rw [← mem_replies c (chunkCount contents)]
      have told := verdict_one c.closed
        (replies c (c.bytes.drop (taken c (chunkCount contents))).length (chunkCount contents)
          (c.bytes.drop (taken c (chunkCount contents))))
      simp only [not_exists, not_and]
      rw [← told]
      constructor
      · rintro ⟨code, ends, other⟩
        rcases verdict_cases c.closed _ with never | zero | one
        · rw [never] at ends
          cases ends
        · rw [zero] at ends
          exact absurd (Option.some.inj ends).symm other
        · exact one
      · intro one
        exact ⟨1, one, Nat.one_ne_zero⟩

/-- One byte; the reply to it comes before the OK. -/
theorem upload_reported_byte :
    let d : Device := ⟨ArduinoOTAClass.construct 0, .connecting, []⟩
    let go : Answer := ⟨true, true, false, 1, []⟩
    let answers := [go, go, go, ⟨true, false, false, 0, []⟩, go]
    let c : Connection := ⟨ofString "1OK", fun _ => 1, true, fun _ => true⟩
    Reports c [7] (OkArrived answers d c.bytes) := by
  intro d go answers c
  have clear : ¬ Raises c (chunkCount [7]) := by
    rintro ⟨i, -, silent | ⟨silent, -⟩⟩
    · cases silent
    · cases silent
  have ok : OkArrived answers d c.bytes := ⟨rfl, ofString "1", rfl⟩
  have arrived : c.bytes = (after Device.goOn answers d).printed.take 3 := by decide
  refine (upload_reported c [7] (d := d) rfl rfl answers 3 arrived).mpr
    ⟨fun _ => ⟨clear, ?_⟩, ?_⟩
  · decide
  · intro lost
    exact absurd ok lost

/-- The reply comes late, together with the OK: the first loop reads both, and the second one
waits for an OK on a closed connection. -/
theorem ok_with_last_reply :
    let d : Device := ⟨ArduinoOTAClass.construct 0, .connecting, []⟩
    let go : Answer := ⟨true, true, false, 1, []⟩
    let answers := [go, go, go, ⟨true, false, false, 0, []⟩, go]
    let c : Connection := ⟨ofString "1OK", fun _ => 3, true, fun _ => true⟩
    c.bytes = (after Device.goOn answers d).printed ∧ OkArrived answers d c.bytes ∧
      ¬ Reports c [7] (OkArrived answers d c.bytes) := by
  intro d go answers c
  refine ⟨by decide, ⟨rfl, ofString "1", rfl⟩, ?_⟩
  rintro ⟨code, ⟨fuel, ends⟩, -⟩
  have never : resultLoop c fuel ⟨false, 1, []⟩ = none := resultLoop_closed rfl fuel _ rfl
  have run : upload c [7] fuel = resultLoop c fuel ⟨false, 1, []⟩ := rfl
  rw [run, never] at ends
  cases ends

end Esp8266.Source.Espota
