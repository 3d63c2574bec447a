import Esp8266.Updater.Calls

/-!
# write and write<T>

Both take bytes up to the end of the image and leave the buffer to the next call where it does
not complete the image.
-/
set_option autoImplicit false

namespace Esp8266.Updater
open Esp8266.Lib.NorFlash Esp8266.Lib.Word32 Esp8266.Source.Esp Esp8266.Source.Updater

/-! ## write(data, len) -/

theorem writeLoop_spec {env : Env} {s : Session} (len fuel : Nat) :
    ∀ (rest : List UInt8) (t : Trail) (m : Machine), Staging env s t m →
      t.accepted.length + rest.length ≤ s.size → Closed s t →
      rest.length + (if m.updater.bufferLen = s.bufferSize then 1 else 0) < fuel →
      ∃ new, Traced s t (t.flushed < s.size ∨ s.size % flashSectorSize ≠ 0) m new
          (writeLoop env len fuel rest m).2 ∧
        (((writeLoop env len fuel rest m).1 = len ∧
            Kept env s t rest new (writeLoop env len fuel rest m).2) ∨
          Lost new (writeLoop env len fuel rest m).2) := by
  induction fuel with
  | zero => intro rest t m _ _ _ enough; omega
  | succ fuel ih =>
    intro rest t m st within closed enough
    have length := st.length
    have size := s.size_lt
    have bufferSize := s.bufferSize_eq
    have fits := st.fits
    have sum : add32 m.updater.bufferLen rest.length = m.updater.bufferLen + rest.length :=
      add32_of_lt (by omega)
    by_cases above : m.updater.bufferLen + rest.length > s.bufferSize
    · -- a full buffer goes to flash and the loop takes the rest
      have room : sub32 s.bufferSize m.updater.bufferLen = s.bufferSize - m.updater.bufferLen :=
        sub32_of_le fits (by omega)
      rw [writeLoop, if_pos (by rw [sum, st.bufferSize]; exact above), st.bufferSize, room]
      generalize part : s.bufferSize - m.updater.bufferLen = toBuff
      obtain ⟨new, traced, outcome⟩ := st.fill_full rest (show _ + toBuff = _ by omega)
        (by omega) (by omega)
      rcases flush : writeBuffer env (m.fill (rest.take toBuff)) with ⟨ok, m'⟩
      rw [flush] at traced outcome
      simp only [flush]
      rcases outcome with ⟨rfl, mode, kept, emptied⟩ | ⟨rfl, lost⟩
      · rw [if_pos rfl]
        have grown : (t.accepted ++ rest.take toBuff).length = t.accepted.length + toBuff := by
          rw [List.length_append, List.length_take]
          omega
        obtain ⟨new', traced', outcome'⟩ := ih (rest.drop toBuff) _ m' kept
          (by simp only [grown, List.length_drop]; omega)
          (.inl (by simp only [grown]; omega))
          (by
            rw [emptied, if_neg (by omega), List.length_drop]
            split at enough <;> omega)
        refine ⟨new' ++ new, Traced.trans traced traced' rfl fun _ => .inl ?_, ?_⟩
        · change t.accepted.length + toBuff < s.size
          omega
        · rcases outcome' with ⟨all, keeps⟩ | lost
          · left
            have whole := keeps.after
            rw [List.take_append_drop] at whole
            exact ⟨all, whole⟩
          · exact .inr (lost.after new)
      · rw [if_neg (by decide)]
        exact ⟨new, traced, .inr lost⟩
    · -- what is left fits; it is flushed when it completes the image
      have filled : (m.fill rest).updater.bufferLen = m.updater.bufferLen + rest.length := sum
      have missing : (m.fill rest).updater.remaining = m.updater.remaining := rfl
      rw [writeLoop, if_neg (by rw [sum, st.bufferSize]; exact above)]
      simp only [filled, missing, st.completes rest.length within]
      by_cases last : t.accepted.length + rest.length = s.size
      · obtain ⟨new, traced, outcome⟩ := st.fill_flush rest (by omega) (.inr last)
        rw [if_pos last]
        rcases flush : writeBuffer env (m.fill rest) with ⟨ok, m'⟩
        rw [flush] at traced outcome
        have first : Traced s t (t.flushed < s.size ∨ s.size % flashSectorSize ≠ 0) m new _ :=
          traced.weaken fun before => ⟨within, before⟩
        rcases outcome with ⟨rfl, mode, kept⟩ | ⟨rfl, lost⟩
        · simp only [if_true]
          refine ⟨new, first, .inl ⟨trivial, _, mode, kept, .inr ⟨?_, last⟩⟩⟩
          rw [List.length_append]
          exact last
        · exact ⟨new, first, .inr lost⟩
      · rw [if_neg last]
        exact ⟨[], ⟨Follows.refl _, st.writes, by simp⟩,
          .inl ⟨rfl, st.fill_open rest (by omega) (by omega)⟩⟩

/-- **`write(data, len)`.** It takes all of the data, refuses what does not fit the image, or
fails with a flash call; after the last byte it only opens a sector when it is given nothing. -/
theorem write_spec {env : Env} {s : Session} {t : Trail} {m : Machine}
    (st : Staging env s t m) (closed : Closed s t) (data : List UInt8)
    (small : data.length < 2 ^ 31) :
    ∃ new, Traced s t (t.flushed < s.size ∨ s.size % flashSectorSize ≠ 0 ∨ data ≠ []) m new
        (write env data m).2 ∧
      (((write env data m).1 = data.length ∧ Kept env s t data new (write env data m).2) ∨
        Lost new (write env data m).2 ∨
        (GivenUp (write env data m).2.updater ∧ s.size < t.accepted.length + data.length)) := by
  have length := st.length
  have bound := st.bound
  have bufferLen := st.bufferLen_le
  have sum : add32 (add32 m.updater.progress m.updater.bufferLen) data.length =
      t.accepted.length + data.length := by
    rw [st.progress_eq, add32_of_lt (a := t.flushed) (by omega), length, add32_of_lt (by omega)]
  unfold write
  rw [if_neg (by rw [st.running]; decide), sum, st.size]
  by_cases above : t.accepted.length + data.length > s.size
  · rw [if_pos above]
    exact ⟨[], ⟨Follows.refl _, st.writes, by simp⟩,
      .inr (.inr ⟨givenUp_setError (by decide) _, above⟩)⟩
  · rw [if_neg above]
    obtain ⟨new, traced, outcome⟩ := writeLoop_spec data.length (data.length + 2) data t m st
      (by omega) closed (by split <;> omega)
    refine ⟨new, traced.weaken ?_, ?_⟩
    · rintro (before | unaligned | some)
      · exact .inl before
      · exact .inr unaligned
      · left
        have positive := List.length_pos_iff.mpr some
        rcases closed with open_ | ⟨complete, -⟩ <;> omega
    · rcases outcome with kept | lost
      · exact .inl kept
      · exact .inr (.inl lost)

/-! ## write<T>(source) -/

/-- What is left of the `available` bytes once they are cut at the end of the image. -/
theorem Staging.available_eq {env : Env} {s : Session} {t : Trail} {m : Machine}
    (st : Staging env s t m) (closed : Closed s t) {available : Nat} (small : available < 2 ^ 31) :
    (if add32 m.updater.bufferLen available > m.updater.remaining then
        sub32 m.updater.remaining m.updater.bufferLen else available) =
      min available (s.size - t.accepted.length) := by
  have length := st.length
  have size := s.size_lt
  have bufferLen := st.bufferLen_le
  have inside : t.accepted.length ≤ s.size := by
    rcases closed with open_ | ⟨complete, -⟩ <;> omega
  rw [st.remaining_of_le (by omega), add32_of_lt (by omega), sub32_of_le (by omega) (by omega)]
  split <;> omega

theorem writeSourceLoop_spec {env : Env} {s : Session} (polls : List Nat) :
    ∀ (bytes : List UInt8) (written : Nat) (t : Trail) (m : Machine), Staging env s t m →
      Closed s t → (∀ poll ∈ polls, poll < 2 ^ 31) →
      ∃ n new, Traced s t (t.flushed < s.size ∨ s.size % flashSectorSize ≠ 0) m new
          (writeSourceLoop env polls bytes written m).2 ∧
        (((writeSourceLoop env polls bytes written m).1 = written + n ∧ n ≤ bytes.length ∧
            Kept env s t (bytes.take n) new (writeSourceLoop env polls bytes written m).2 ∧
            ((∀ poll ∈ polls, 0 < poll) →
              2 * bytes.length + (if m.updater.bufferLen = s.bufferSize then 1 else 0) ≤
                polls.length →
              t.accepted.length + bytes.length ≤ s.size → n = bytes.length)) ∨
          Lost new (writeSourceLoop env polls bytes written m).2) := by
  induction polls with
  | nil =>
    intro bytes written t m st closed _
    refine ⟨0, [], Traced.refl st _, .inl ⟨rfl, Nat.zero_le _, Kept.refl st closed, ?_⟩⟩
    intro _ enough _
    simp only [List.length_nil] at enough
    omega
  | cons poll polls ih =>
    intro bytes written t m st closed small
    have length := st.length
    have size := s.size_lt
    have bufferSize := s.bufferSize_eq
    have fits := st.fits
    have poll_small := small poll List.mem_cons_self
    have polls_small : ∀ p ∈ polls, p < 2 ^ 31 :=
      fun p member => small p (List.mem_cons_of_mem _ member)
    rw [writeSourceLoop]
    by_cases dry : min poll bytes.length = 0
    · simp only [if_pos dry]
      refine ⟨0, [], Traced.refl st _, .inl ⟨rfl, Nat.zero_le _, Kept.refl st closed, ?_⟩⟩
      intro live _ _
      have positive := live poll List.mem_cons_self
      omega
    · have inside : t.accepted.length ≤ s.size := by
        rcases closed with open_ | ⟨complete, -⟩ <;> omega
      simp only [if_neg dry, st.available_eq closed (show min poll bytes.length < 2 ^ 31 by omega)]
      generalize offer : min (min poll bytes.length) (s.size - t.accepted.length) = available
      have within : t.accepted.length + available ≤ s.size := by omega
      have sum : add32 m.updater.bufferLen available = m.updater.bufferLen + available :=
        add32_of_lt (by omega)
      by_cases above : m.updater.bufferLen + available > s.bufferSize
      · -- the pass fills the buffer and leaves bytes of the offer to the next one
        have room : sub32 s.bufferSize m.updater.bufferLen =
            s.bufferSize - m.updater.bufferLen := sub32_of_le fits (by omega)
        rw [if_pos (by rw [sum, st.bufferSize]; exact above), st.bufferSize, room]
        generalize part : s.bufferSize - m.updater.bufferLen = toBuff
        obtain ⟨new, traced, outcome⟩ := st.fill_full bytes (show _ + toBuff = _ by omega)
          (by omega) (by omega)
        rcases flush : writeBuffer env (m.fill (bytes.take toBuff)) with ⟨ok, m'⟩
        rw [flush] at traced outcome
        rcases outcome with ⟨rfl, mode, kept, emptied⟩ | ⟨rfl, lost⟩
        · have grown : (t.accepted ++ bytes.take toBuff).length =
              t.accepted.length + toBuff := by
            rw [List.length_append, List.length_take]
            omega
          have missing : m'.updater.remaining ≠ 0 := by
            rw [ne_eq, kept.remaining_eq_zero]
            change t.accepted.length + toBuff ≠ s.size
            omega
          simp only [Bool.not_true, Bool.false_eq_true, if_false, if_neg missing]
          obtain ⟨n, new', traced', outcome'⟩ := ih (bytes.drop toBuff) (written + toBuff) _ m'
            kept (.inl (by simp only [grown]; omega)) polls_small
          refine ⟨toBuff + n, new' ++ new, Traced.trans traced traced' rfl fun _ => .inl ?_, ?_⟩
          · change t.accepted.length + toBuff < s.size
            omega
          · rcases outcome' with ⟨count, most, keeps, all⟩ | lost
            · rw [List.length_drop] at most all
              refine .inl ⟨by omega, by omega, ?_, ?_⟩
              · rw [List.take_add]
                exact keeps.after
              · intro live enough fit
                have rest := all (fun p member => live p (List.mem_cons_of_mem _ member))
                  (by
                    rw [emptied, if_neg (by omega)]
                    simp only [List.length_cons] at enough
                    split at enough <;> omega)
                  (by simp only [grown]; omega)
                omega
            · exact .inr (lost.after new)
        · exact ⟨0, new, traced, .inr lost⟩
      · -- the offer fits; it is flushed when it completes the image
        have taken : (bytes.take available).length = available := by
          rw [List.length_take]
          omega
        have filled : (m.fill (bytes.take available)).updater.bufferLen =
            m.updater.bufferLen + available := by
          rw [← sum]
          exact congrArg (add32 m.updater.bufferLen) taken
        have missing : (m.fill (bytes.take available)).updater.remaining =
            m.updater.remaining := rfl
        rw [if_neg (by rw [sum, st.bufferSize]; exact above)]
        simp only [filled, missing, st.completes available within]
        by_cases last : t.accepted.length + available = s.size
        · obtain ⟨new, traced, outcome⟩ := st.fill_flush (bytes.take available)
            (by omega) (.inr (by omega))
          rw [taken] at traced outcome
          rcases flush : writeBuffer env (m.fill (bytes.take available)) with ⟨ok, m'⟩
          rw [flush] at traced outcome
          have only : Traced s t (t.flushed < s.size ∨ s.size % flashSectorSize ≠ 0) m new _ :=
            traced.weaken fun before => ⟨within, before⟩
          rcases outcome with ⟨rfl, mode, kept⟩ | ⟨rfl, lost⟩
          · have finished : m'.updater.remaining = 0 := kept.remaining_eq_zero.mpr last
            simp only [if_pos last, Bool.not_true, Bool.false_eq_true, if_false,
              if_pos finished]
            refine ⟨available, new, only, .inl ⟨rfl, by omega, ⟨_, mode, kept, ?_⟩, ?_⟩⟩
            · right
              refine ⟨?_, last⟩
              change (t.accepted ++ bytes.take available).length = s.size
              rw [List.length_append, taken]
              exact last
            · intro _ _ fit
              omega
          · simp only [if_pos last, Bool.not_false, if_true]
            exact ⟨0, new, only, .inr lost⟩
        · have unfinished : m.updater.remaining ≠ 0 := by
            rw [ne_eq, st.remaining_eq_zero]
            omega
          simp only [if_neg last, if_neg unfinished]
          have kept := st.fill (bytes.take available) (by omega) (.inr (by omega))
          have grown : (t.accepted ++ bytes.take available).length =
              t.accepted.length + available := by
            rw [List.length_append, taken]
          obtain ⟨n, new, traced, outcome⟩ := ih (bytes.drop available) (written + available) _ _
            kept (.inl (by simp only [grown]; omega)) polls_small
          refine ⟨available + n, new, ⟨traced.follows, traced.writes, traced.inside⟩, ?_⟩
          rcases outcome with ⟨count, most, keeps, all⟩ | lost
          · rw [List.length_drop] at most all
            refine .inl ⟨by omega, by omega, ?_, ?_⟩
            · rw [List.take_add]
              unfold Kept at keeps ⊢
              simpa only [List.append_assoc] using keeps
            · intro live enough fit
              have rest := all (fun p member => live p (List.mem_cons_of_mem _ member))
                (by
                  have positive := live poll List.mem_cons_self
                  simp only [List.length_cons] at enough
                  split <;> split at enough <;> omega)
                (by simp only [grown]; omega)
              omega
          · exact .inr lost

/-- **`write<T>(source)`.** It takes the bytes that the source reports, up to the end of the
image, or fails with a flash call; when the source reports bytes after the image is complete, it
only opens a sector. A source that reports all it has is taken whole. -/
theorem writeSource_spec {env : Env} {s : Session} {t : Trail} {m : Machine}
    (st : Staging env s t m) (closed : Closed s t) (polls : List Nat) (bytes : List UInt8)
    (small : ∀ poll ∈ polls, poll < 2 ^ 31) :
    ∃ n new, Traced s t (t.flushed < s.size ∨ s.size % flashSectorSize ≠ 0 ∨
          min (polls.headD 0) bytes.length = 0) m new (writeSource env polls bytes m).2 ∧
      (((writeSource env polls bytes m).1 = n ∧ n ≤ bytes.length ∧
          Kept env s t (bytes.take n) new (writeSource env polls bytes m).2 ∧
          ((∀ poll ∈ polls, 0 < poll) → 2 * bytes.length < polls.length →
            t.accepted.length + bytes.length ≤ s.size → n = bytes.length)) ∨
        Lost new (writeSource env polls bytes m).2) := by
  unfold writeSource
  rw [if_neg (by rw [st.running]; decide)]
  by_cases dry : min (polls.headD 0) bytes.length = 0
  · have nothing : writeSourceLoop env polls bytes 0 m = (0, m) := by
      cases polls with
      | nil => rfl
      | cons poll polls => exact if_pos dry
    rw [nothing]
    refine ⟨0, [], Traced.refl st _, .inl ⟨rfl, Nat.zero_le _, Kept.refl st closed, ?_⟩⟩
    intro live enough _
    cases polls with
    | nil => exact absurd enough (Nat.not_lt_zero _)
    | cons poll polls =>
      have positive := live poll List.mem_cons_self
      simp only [List.headD_cons] at dry
      omega
  · obtain ⟨n, new, traced, outcome⟩ := writeSourceLoop_spec polls bytes 0 t m st closed small
    refine ⟨n, new, traced.weaken ?_, ?_⟩
    · rintro (before | unaligned | none)
      · exact .inl before
      · exact .inr unaligned
      · exact absurd none dry
    · rcases outcome with ⟨count, most, keeps, all⟩ | lost
      · refine .inl ⟨by omega, most, keeps, ?_⟩
        intro live enough
        exact all live (by split <;> omega)
      · exact .inr lost

end Esp8266.Updater
