import Esp8266.Lib.Runs
import Esp8266.Source.Eeprom

/-!
# What a commit of the EEPROM emulation stores

As long as nothing is marked dirty the buffer shows the sector. A commit that returns true
therefore leaves the whole buffer in the flash, and with it every value written since `begin` has
loaded the buffer. `begin` and `end` forget what a commit has not stored.
-/
set_option autoImplicit false

namespace Esp8266.Source.Eeprom
open Esp8266.Lib Esp8266.Lib.NorFlash

/-! ## The object with its history -/

structure Session where
  eeprom : Eeprom
  /-- The last value written to an address since `begin` loaded the buffer. -/
  written : Nat → Option UInt8
  /-- The last value ever written to an address. -/
  everWritten : Nat → Option UInt8

/-- The bytes that a call writes, and where. -/
def Call.writes : Call → Option (Int × List UInt8)
  | .write address value => some (address, [value])
  | .put address bytes => some (address, bytes)
  | .assign address value => some (address, [value])
  | _ => none

/-- Note what is written to addresses inside of the buffer. -/
def note (request : Call) (size : Nat) (written : Nat → Option UInt8) : Nat → Option UInt8 :=
  match request.writes with
  | none => written
  | some (address, bytes) =>
    if address < 0 ∨ address.toNat + bytes.length > size then written
    else Ring.overlay address.toNat (bytes.map some) written

/-- The call loads the buffer or gives it up. -/
def Call.renews : Call → Eeprom → Bool
  | .begin size, _ => decide (0 < size)
  | .end_ _, e => decide (0 < e.size)
  | _, _ => false

namespace Session

def fresh (flash : Flash) : Session := ⟨construct flash, fun _ => none, fun _ => none⟩

def call (request : Call) (s : Session) : Answer × Session :=
  let (answer, eeprom) := Eeprom.call request s.eeprom
  (answer, ⟨eeprom,
    if request.renews s.eeprom then fun _ => none else note request s.eeprom.size s.written,
    note request s.eeprom.size s.everWritten⟩)

/-- The state that a run of calls leads to. -/
def reached (flash : Flash) (requests : List Call) : Session :=
  Runs.after call requests (fresh flash)

end Session

/-! ## What the calls keep -/

/-- The buffer shows what is in the flash, unless something waits for a commit, and what was
written. -/
structure Kept (e : Eeprom) (written : Nat → Option UInt8) : Prop where
  buffer : e.data = none → e.size = 0
  fits : e.size ≤ spiFlashSecSize
  clean : ∀ data, e.data = some data → e.dirty = false → ∀ i < e.size, data i = e.flash i
  written : ∀ i v, written i = some v → i < e.size ∧ ∀ data, e.data = some data → data i = v

theorem kept_construct (flash : Flash) : Kept (construct flash) fun _ => none :=
  ⟨fun _ => rfl, Nat.zero_le _, fun _ absent => absurd absent.symm (Option.some_ne_none _),
    fun _ _ absent => absurd absent.symm (Option.some_ne_none _)⟩

theorem rounded_eq (size : Nat) : rounded size = (min size spiFlashSecSize + 3) / 4 * 4 := by
  have width : spiFlashSecSize = 4096 := rfl
  have cut : (if size > spiFlashSecSize then spiFlashSecSize else size) =
      min size spiFlashSecSize := by
    split <;> omega
  unfold rounded
  rw [cut]
  exact Word32.and_clear_low _ 2 (by omega) (by decide)

theorem rounded_le (size : Nat) : rounded size ≤ spiFlashSecSize := by
  have width : spiFlashSecSize = 4096 := rfl
  rw [rounded_eq]
  omega

theorem le_rounded (size : Nat) : min size spiFlashSecSize ≤ rounded size := by
  rw [rounded_eq]
  omega

def Session.Keeps (s : Session) : Prop := Kept s.eeprom s.written

namespace Kept

variable {e : Eeprom} {written : Nat → Option UInt8} (kept : Kept e written)
include kept

/-- Bytes are put into the buffer, which is dirty then unless they were there already. -/
theorem stored {data : Nat → UInt8} (held : e.data = some data) {p : Nat} {bytes : List UInt8}
    (inside : p + bytes.length ≤ e.size) {dirty : Bool}
    (marks : dirty = true ∨ dirty = e.dirty ∧ Ring.overlay p bytes data = data) :
    Kept { e with data := some (Ring.overlay p bytes data), dirty }
      (Ring.overlay p (bytes.map some) written) := by
  refine ⟨fun absent => absurd absent (Option.some_ne_none _), kept.fits, ?_, ?_⟩
  · rintro data' same clean i below
    obtain rfl := Option.some.inj same
    rcases marks with rfl | ⟨rfl, there⟩
    · exact absurd clean Bool.noConfusion
    · rw [there]
      exact kept.clean data held clean i below
  · intro i v noted
    by_cases within : p ≤ i ∧ i < p + bytes.length
    · have below : i - p < (bytes.map some).length := by
        rw [List.length_map]
        omega
      rw [Ring.overlay_inside within.1 below, List.getElem_map] at noted
      refine ⟨Nat.lt_of_lt_of_le within.2 inside, ?_⟩
      rintro data' same
      obtain rfl := Option.some.inj same
      rw [Ring.overlay_inside within.1 (by omega)]
      exact Option.some.inj noted
    · rw [Ring.overlay_outside (by rw [List.length_map]; omega)] at noted
      obtain ⟨below, shows⟩ := kept.written i v noted
      refine ⟨below, ?_⟩
      rintro data' same
      obtain rfl := Option.some.inj same
      rw [Ring.overlay_outside (by omega)]
      exact shows data held

/-- The buffer that bytes fit into is there. -/
theorem held {n : Nat} (inside : n ≤ e.size) (positive : 0 < n) :
    ∃ data, e.data = some data := by
  cases held : e.data with
  | none =>
    have := kept.buffer held
    omega
  | some data => exact ⟨data, rfl⟩

theorem write (address : Int) (value : UInt8) :
    Kept (e.write address value) (note (.write address value) e.size written) := by
  unfold Eeprom.write note Call.writes
  dsimp only
  by_cases refused : address < 0 ∨ address.toNat ≥ e.size
  · rw [if_pos refused, if_pos (by rw [List.length_singleton]; omega)]
    exact kept
  · have inside : address.toNat + [value].length ≤ e.size := by
      rw [List.length_singleton]
      omega
    obtain ⟨data, held⟩ := kept.held inside (Nat.succ_pos _)
    rw [if_neg refused, if_neg (by omega), held]
    dsimp only
    split
    · exact kept.stored held inside (.inl rfl)
    · rename_i same
      have there : Ring.overlay address.toNat [value] data = data := by
        refine Ring.overlay_self fun i below => ?_
        obtain rfl : i = 0 := by
          rw [List.length_singleton] at below
          omega
        exact not_not.1 same
      have stored := kept.stored held inside (.inr ⟨rfl, there⟩)
      rw [there, ← held] at stored
      exact stored

theorem put (address : Int) (bytes : List UInt8) :
    Kept (e.put address bytes) (note (.put address bytes) e.size written) := by
  unfold Eeprom.put note Call.writes
  dsimp only
  by_cases refused : address < 0 ∨ address.toNat + bytes.length > e.size
  · rw [if_pos refused, if_pos refused]
    exact kept
  · have inside : address.toNat + bytes.length ≤ e.size := by omega
    rw [if_neg refused, if_neg refused]
    cases held : e.data with
    | none =>
      -- Only a `T` without bytes fits into no buffer.
      have size := kept.buffer held
      obtain rfl : bytes = [] := List.length_eq_zero_iff.1 (by omega)
      rw [List.map_nil, Ring.overlay_nil]
      exact kept
    | some data =>
      dsimp only
      split
      · exact kept.stored held inside (.inl rfl)
      · rename_i same
        have there : Ring.overlay address.toNat bytes data = data := by
          refine Ring.overlay_self fun i below => ?_
          rw [← getElem_readRange data address.toNat bytes.length i (by simpa using below)]
          exact List.getElem_of_eq (not_not.1 same) _
        have stored := kept.stored held inside (.inr ⟨rfl, there⟩)
        rw [there, ← held] at stored
        exact stored

/-- A byte assigned outside of the buffer leaves the buffer as it is, but dirty. -/
theorem assign (address : Int) (value : UInt8) :
    Kept (e.assign address value) (note (.assign address value) e.size written) := by
  unfold Eeprom.assign note Call.writes getDataPtr
  dsimp only
  by_cases negative : address < 0
  · rw [if_pos negative, if_pos (.inl negative)]
    exact ⟨kept.buffer, kept.fits, fun _ _ clean => Bool.noConfusion clean, kept.written⟩
  rw [if_neg negative]
  by_cases outside : address.toNat + [value].length > e.size
  · rw [if_pos (.inr outside)]
    refine ⟨fun absent => kept.buffer (Option.map_eq_none_iff.1 absent), kept.fits,
      fun _ _ clean => Bool.noConfusion clean, fun i v noted => ?_⟩
    obtain ⟨below, shows⟩ := kept.written i v noted
    refine ⟨below, fun data' same => ?_⟩
    obtain ⟨data, held, rfl⟩ := Option.map_eq_some_iff.1 same
    rw [List.length_singleton] at outside
    rw [Ring.overlay_outside (.inl (by omega))]
    exact shows data held
  · have inside : address.toNat + [value].length ≤ e.size := by omega
    obtain ⟨data, held⟩ := kept.held inside (Nat.succ_pos _)
    rw [if_neg (by omega), held]
    exact kept.stored held inside (.inl rfl)

omit kept in
theorem begin (size : Nat) (positive : 0 < size) : Kept (e.begin size) fun _ => none := by
  unfold Eeprom.begin
  rw [if_neg (by omega)]
  refine ⟨fun absent => absurd absent (Option.some_ne_none _), rounded_le size, ?_,
    fun _ _ absent => absurd absent.symm (Option.some_ne_none _)⟩
  rintro data same - i -
  rw [← Option.some.inj same]

omit kept in
theorem end_ (outcome : Outcome) (positive : 0 < e.size) :
    Kept (e.end_ outcome) fun _ => none := by
  unfold Eeprom.end_
  rw [if_neg (by omega)]
  exact ⟨fun _ => rfl, Nat.zero_le _, fun _ absent => absurd absent.symm (Option.some_ne_none _),
    fun _ _ absent => absurd absent.symm (Option.some_ne_none _)⟩

omit kept in
/-- A commit of a dirty buffer either stores it or leaves it dirty. -/
theorem commit_dirty (outcome : Outcome) {data : Nat → UInt8} (held : e.data = some data)
    (size : e.size ≠ 0) (fits : e.size ≤ spiFlashSecSize) (dirty : e.dirty = true) :
    (∃ flash, e.commit outcome = (true, { e with flash, dirty := false }) ∧
      ∀ i < e.size, data i = flash i) ∨
    ∃ flash, e.commit outcome = (false, { e with flash }) := by
  unfold Eeprom.commit
  rw [if_neg size, dirty, if_neg (by decide), held]
  cases outcome with
  | done =>
    refine .inl ⟨_, rfl, fun i below => ?_⟩
    have inside : 0 ≤ i ∧ i < 0 + e.size := by omega
    have erased : erase 0 spiFlashSecSize e.flash i = 0xff := erase_inside _ (by omega)
    rw [program_erased data _ inside erased]
    rfl
  | eraseFails junk => exact .inr ⟨_, rfl⟩
  | writeFails junk => exact .inr ⟨_, rfl⟩

/-- A commit that returns true leaves the buffer in the flash. -/
theorem commit_true (outcome : Outcome) (stored : (e.commit outcome).1 = true) :
    ∃ data flash, e.data = some data ∧ (∀ i < e.size, data i = flash i) ∧
      (e.commit outcome).2 = { e with flash, dirty := false } := by
  by_cases size : e.size = 0
  · rw [Eeprom.commit, if_pos size] at stored
    exact absurd stored Bool.noConfusion
  obtain ⟨data, held⟩ := kept.held (Nat.le_refl _) (Nat.pos_of_ne_zero size)
  cases dirty : e.dirty with
  | false =>
    have done : e.commit outcome = (true, e) := by
      rw [Eeprom.commit, if_neg size, dirty]
      rfl
    refine ⟨data, e.flash, held, kept.clean data held dirty, ?_⟩
    rw [done, ← dirty]
  | true =>
    rcases commit_dirty outcome held size kept.fits dirty with ⟨flash, done, shows⟩ |
      ⟨flash, failed⟩
    · exact ⟨data, flash, held, shows, by rw [done]⟩
    · rw [failed] at stored
      exact absurd stored Bool.noConfusion

theorem commit (outcome : Outcome) : Kept (e.commit outcome).2 written := by
  by_cases size : e.size = 0
  · rw [Eeprom.commit, if_pos size]
    exact kept
  obtain ⟨data, held⟩ := kept.held (Nat.le_refl _) (Nat.pos_of_ne_zero size)
  cases dirty : e.dirty with
  | false =>
    rw [Eeprom.commit, if_neg size, dirty]
    exact kept
  | true =>
    rcases commit_dirty outcome held size kept.fits dirty with ⟨flash, done, shows⟩ |
      ⟨flash, failed⟩
    · rw [done]
      refine ⟨kept.buffer, kept.fits, fun data' same _ => ?_, kept.written⟩
      rw [← Option.some.inj (held.symm.trans same)]
      exact shows
    · rw [failed]
      refine ⟨kept.buffer, kept.fits, fun _ _ clean => ?_, kept.written⟩
      exact absurd (dirty.symm.trans clean) Bool.noConfusion

end Kept

theorem kept_call (request : Call) (s : Session) (kept : s.Keeps) : (s.call request).2.Keeps := by
  cases request with
  | begin size =>
    by_cases positive : 0 < size
    · have renewed : (s.call (.begin size)).2.written = fun _ => none :=
        if_pos (decide_eq_true positive)
      show Kept (s.eeprom.begin size) _
      rw [renewed]
      exact Kept.begin size positive
    · have same : s.eeprom.begin size = s.eeprom := if_pos (by omega)
      have written : (s.call (.begin size)).2.written = s.written :=
        if_neg (by simpa [Call.renews] using positive)
      show Kept (s.eeprom.begin size) _
      rw [written, same]
      exact kept
  | read address => exact kept
  | write address value => exact kept.write address value
  | get address width => exact kept
  | put address bytes => exact kept.put address bytes
  | assign address value => exact kept.assign address value
  | commit outcome => exact kept.commit outcome
  | end_ outcome =>
    by_cases positive : 0 < s.eeprom.size
    · have renewed : (s.call (.end_ outcome)).2.written = fun _ => none :=
        if_pos (decide_eq_true positive)
      show Kept (s.eeprom.end_ outcome) _
      rw [renewed]
      exact Kept.end_ outcome positive
    · have same : s.eeprom.end_ outcome = s.eeprom := if_pos (by omega)
      have written : (s.call (.end_ outcome)).2.written = s.written :=
        if_neg (by simpa [Call.renews] using positive)
      show Kept (s.eeprom.end_ outcome) _
      rw [written, same]
      exact kept

theorem kept_reached (flash : Flash) (requests : List Call) :
    (Session.reached flash requests).Keeps :=
  Runs.after_preserves kept_call requests _ (kept_construct flash)

/-! ## Commits -/

/-- The buffer loaded after `end` shows what the flash holds. -/
theorem read_reloaded (e : Eeprom) (clean : e.dirty = false) (size : e.size ≠ 0)
    (fits : e.size ≤ spiFlashSecSize) (outcome : Outcome) {n address : Nat}
    (inside : address < min n e.size) :
    ((e.end_ outcome).begin n).read address = e.flash address := by
  have ended : e.end_ outcome = { e with data := none, size := 0, dirty := false } := by
    rw [end_, if_neg size, commit, if_neg size, clean]
    rfl
  have enough := le_rounded n
  rw [ended, begin, if_neg (by omega), read, if_neg (by
    show ¬ ((address : Int) < 0 ∨ (address : Int).toNat ≥ rounded n)
    omega)]
  rfl

/-- In every state reached the buffer shows the sector unless it is dirty. A commit that returns
true leaves the whole buffer in the flash, with all that was written since `begin` loaded it;
and what was in the buffer is read back after `end` and another `begin`. -/
theorem commit_stores_session (flash : Flash) (requests : List Call) :
    (∀ data, (Session.reached flash requests).eeprom.data = some data →
      (Session.reached flash requests).eeprom.dirty = false →
      ∀ i < (Session.reached flash requests).eeprom.size,
        data i = (Session.reached flash requests).eeprom.flash i) ∧
    ∀ outcome e stored, (Session.reached flash requests).eeprom = e →
      e.commit outcome = (true, stored) →
      (∀ i v, (Session.reached flash requests).written i = some v → stored.flash i = v) ∧
      (∀ i < e.size, stored.flash i = e.read i) ∧
      ∀ outcome' n, ∀ i < min n e.size,
        ((stored.end_ outcome').begin n).read i = e.read i ∧
        ∀ v, (Session.reached flash requests).written i = some v →
          ((stored.end_ outcome').begin n).read i = v := by
  have kept := kept_reached flash requests
  refine ⟨kept.clean, ?_⟩
  rintro outcome _ stored rfl committed
  obtain ⟨data, flash', held, shows, done⟩ := kept.commit_true outcome (by rw [committed])
  rw [committed] at done
  replace done : stored = { (Session.reached flash requests).eeprom with
    flash := flash', dirty := false } := done
  have written : ∀ i v, (Session.reached flash requests).written i = some v → flash' i = v := by
    intro i v noted
    obtain ⟨below, value⟩ := kept.written i v noted
    rw [← shows i below, value data held]
  have reads : ∀ i < (Session.reached flash requests).eeprom.size,
      flash' i = (Session.reached flash requests).eeprom.read i := by
    intro i below
    rw [read, if_neg (by omega), held]
    exact (shows i below).symm
  have size : stored.size = (Session.reached flash requests).eeprom.size := by
    rw [done]
  have clean : stored.dirty = false := by
    rw [done]
  have holds : stored.flash = flash' := by
    rw [done]
  rw [holds]
  refine ⟨written, reads, fun outcome' n i below => ?_⟩
  rw [read_reloaded stored clean (by omega) (size ▸ kept.fits) outcome' (size ▸ below), holds]
  exact ⟨reads i (by omega), written i⟩

/-- What `begin` throws away is in no flash, though a commit then returns true. -/
theorem begin_discards_write :
    ¬ ∀ flash requests outcome stored,
      (Session.reached flash requests).eeprom.commit outcome = (true, stored) →
      ∀ i v, (Session.reached flash requests).everWritten i = some v → stored.flash i = v := by
  intro always
  have stored := always (fun _ => 0xff) [.begin 4, .write 0 5, .begin 4] .done _ rfl 0 5 (by decide)
  exact absurd stored (by decide)

end Esp8266.Source.Eeprom
