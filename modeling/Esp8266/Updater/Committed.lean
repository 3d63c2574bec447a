import Esp8266.Updater.Remaining

/-!
# What a successful end leaves

`end` returns true where the image that it takes has passed the checks. Nothing is written to flash
then but the last flush, and the command for a sketch names what was taken.
-/
set_option autoImplicit false

namespace Esp8266.Updater
open Esp8266.Lib.NorFlash Esp8266.Lib.Word32 Esp8266.Source.RtcCommand Esp8266.Source.Esp
  Esp8266.Source.Updater

/-- A sketch begins here, compressed or not. -/
def BeginsSketch (flash : Flash) (start : Nat) : Prop :=
  flash start = 0xe9 ∨ (flash start = 0x1f ∧ flash (start + 1) = 0x8b)

theorem verifyEnd_header {env : Env} {m : Machine} (sketch : m.updater.command = uFlash)
    (passed : (verifyEnd env m).1 = true) :
    BeginsSketch m.board.flash m.updater.startAddress := by
  unfold verifyEnd at passed
  rw [if_pos sketch] at passed
  rcases read : flashRead env m.updater.startAddress (List.replicate 4 0) m.board
    with ⟨ok, buf, board⟩
  rw [read] at passed
  dsimp only at passed
  cases ok with
  | false => cases passed
  | true =>
    have bytes : buf = readRange m.board.flash m.updater.startAddress 4 := by
      have done := flashRead_done (congrArg Prod.fst read)
      rw [read] at done
      exact done
    rw [if_neg (show ¬(!true) = true by decide), bytes] at passed
    by_cases zipped : (readRange m.board.flash m.updater.startAddress 4).getD 0 0 = 0x1f ∧
        (readRange m.board.flash m.updater.startAddress 4).getD 1 0 = 0x8b
    · exact .inr zipped
    · rw [if_neg zipped] at passed
      by_cases plain : (readRange m.board.flash m.updater.startAddress 4).getD 0 0 = 0xe9
      · exact .inl plain
      · rw [if_pos plain] at passed
        cases passed

/-- What a successful `end` leaves of the machine with the image that it took. -/
structure Accepted (env : Env) (taken m' : Machine) : Prop where
  updater : m'.updater = taken.updater.reset
  flash : m'.board.flash = taken.board.flash
  begins : taken.updater.command = uFlash →
    BeginsSketch taken.board.flash taken.updater.startAddress
  rtc : m'.board.rtc = if taken.updater.command = uFlash then
    ebootCommandWrite (copyCommand env taken.updater.startAddress taken.updater.size)
      taken.board.rtc else taken.board.rtc

theorem quiet_rtc {b b' : Board} (quiet : Quiet b b') : b'.rtc = b.rtc := by
  obtain ⟨new, follows, -⟩ := quiet
  exact follows.rtc

/-- **A successful `end`.** -/
theorem endUpdate_accepted {env : Env} {evenIfRemaining : Bool} {m : Machine}
    (ok : (endUpdate env evenIfRemaining m).1 = true) : Checks evenIfRemaining m.updater ∧
      Accepted env (takeRemaining env evenIfRemaining m) (endUpdate env evenIfRemaining m).2 := by
  by_cases checks : Checks evenIfRemaining m.updater
  · refine ⟨checks, ?_⟩
    rw [endUpdate_checks checks] at ok ⊢
    have checked := checkImage_checked env (takeRemaining env evenIfRemaining m)
    rcases imageEq : checkImage env (takeRemaining env evenIfRemaining m) with ⟨passed, m₁⟩
    rw [imageEq] at checked ok
    cases passed with
    | false => cases ok
    | true =>
      have same₁ : m₁.updater = (takeRemaining env evenIfRemaining m).updater := by
        rcases checked.outcome with ⟨-, same⟩ | ⟨failed, -⟩
        · exact same
        · cases failed
      have verified := verifyEnd_cases env m₁
      have header := @verifyEnd_header env m₁
      dsimp only at ok ⊢
      rcases endEq : verifyEnd env m₁ with ⟨ended, m₂⟩
      rw [endEq] at verified header ok
      cases ended with
      | false => cases ok
      | true =>
        have quiet := checked.quiet.trans verified.1
        have same : m₂.updater = (takeRemaining env evenIfRemaining m).updater :=
          (verified.2 rfl).1.trans same₁
        have flash₁ : m₁.board.flash = (takeRemaining env evenIfRemaining m).board.flash :=
          checked.quiet.flash
        rw [same₁, flash₁] at header
        dsimp only
        have committed : (commit env m₂).updater = m₂.updater ∧
            (commit env m₂).board.flash = m₂.board.flash ∧
            (commit env m₂).board.rtc = if m₂.updater.command = uFlash then
              ebootCommandWrite (copyCommand env m₂.updater.startAddress m₂.updater.size)
                m₂.board.rtc else m₂.board.rtc := by
          unfold commit
          split
          · exact ⟨rfl, rfl, rfl⟩
          · exact ⟨rfl, rfl, rfl⟩
        obtain ⟨updater, flash, rtc⟩ := committed
        rw [same, quiet_rtc quiet] at rtc
        exact {
          updater := congrArg UpdaterClass.reset (updater.trans same)
          flash := flash.trans quiet.flash
          begins := fun sketch => header sketch rfl
          rtc := rtc }
  · rw [endUpdate_skips checks] at ok
    cases ok

/-- A complete image is taken as it is. -/
theorem Staging.takeRemaining_complete {env : Env} {s : Session} {t : Trail} {m : Machine}
    (st : Staging env s t m) (complete : t.flushed = s.size) (evenIfRemaining : Bool) :
    takeRemaining env evenIfRemaining m = m := by
  have empty := st.complete complete
  cases evenIfRemaining with
  | false => rw [takeRemaining, if_neg Bool.false_ne_true]
  | true =>
    rw [takeRemaining_eq, if_neg (by omega), st.progress_eq]
    exact resize_self (by rw [st.size, complete])

end Esp8266.Updater
