import Esp8266.Lib.Runs
import Esp8266.Updater.Begin
import Esp8266.Updater.Writes
import Esp8266.Updater.StreamWrites
import Esp8266.Updater.Outcomes

/-!
# Runs of calls

Calls of `setMD5` and of the three writing functions after a successful `begin`, in any order and
with any result. Beside the machine a run keeps the bytes that the calls have accepted.
-/
set_option autoImplicit false

namespace Esp8266.Updater
open Esp8266.Lib Esp8266.Lib.NorFlash Esp8266.Lib.Word32 Esp8266.Source.Esp
  Esp8266.Source.Updater

/-- A call of `write(data, len)`, of `write<T>(source)`, of `writeStream(stream)` or of
`setMD5(expected)`. -/
inductive UpdateCall where
  | write (data : List UInt8)
  | source (polls : List Nat) (bytes : List UInt8)
  | stream (input : Stream)
  | setMD5 (expected : List UInt8)

namespace UpdateCall

/-- The bytes that are offered. -/
def bytes : UpdateCall → List UInt8
  | .write data => data
  | .source _ bytes => bytes
  | .stream input => input.bytes
  | .setMD5 _ => []

def make (env : Env) (m : Machine) : UpdateCall → Nat × Machine
  | .write data => Source.Updater.write env data m
  | .source polls bytes => writeSource env polls bytes m
  | .stream input => writeStream env input m
  | .setMD5 expected => (0, (Source.Updater.setMD5 expected m).2)

/-- The data lie in memory, and `available()` returns an `int`. -/
def Sized : UpdateCall → Prop
  | .write data => data.length < 2 ^ 31
  | .source polls _ => ∀ poll ∈ polls, poll < 2 ^ 31
  | .stream _ => True
  | .setMD5 _ => True

instance (call : UpdateCall) : Decidable call.Sized :=
  match call with
  | .write data => inferInstanceAs (Decidable (data.length < 2 ^ 31))
  | .source polls _ => inferInstanceAs (Decidable (∀ poll ∈ polls, poll < 2 ^ 31))
  | .stream _ => inferInstanceAs (Decidable True)
  | .setMD5 _ => inferInstanceAs (Decidable True)

/-- The call does not go behind the image: a call on a complete image whose size is a multiple of
a sector brings no empty data, and no read of a stream goes over the end. -/
def Stays (u : UpdaterClass) : UpdateCall → Prop
  | .write data => u.remaining ≠ 0 ∨ u.size % flashSectorSize ≠ 0 ∨ data ≠ []
  | .source polls bytes =>
    u.remaining ≠ 0 ∨ u.size % flashSectorSize ≠ 0 ∨ min (polls.headD 0) bytes.length = 0
  | .stream input =>
    overruns u.bufferSize input.grants input.bytes.length u.bufferLen u.remaining = false
  | .setMD5 _ => True

end UpdateCall

/-- The machine, and what was accepted. -/
structure Upload where
  machine : Machine
  accepted : List UInt8

/-- A call returns how many bytes it has accepted. -/
def perform (env : Env) (call : UpdateCall) (r : Upload) : Nat × Upload :=
  let (n, m) := call.make env r.machine
  (n, ⟨m, r.accepted ++ call.bytes.take n⟩)

/-- What a run of calls has recorded and left; `contained` says that the calls stay. -/
structure Uploads (env : Env) (s : Session) (contained : Prop) (events : List Event)
    (r : Upload) : Prop where
  follows : Follows s.board events r.machine.board
  writes : WellErased events
  inside : contained → ∀ event ∈ events, s.Inside event
  held : GivenUp r.machine.updater ∨ ∃ flushed mode,
    Staging env s ⟨r.accepted, flushed, mode, events⟩ r.machine ∧
      Closed s ⟨r.accepted, flushed, mode, events⟩

/-- `setMD5` stores the text or does nothing. -/
theorem setMD5_cases (expected : List UInt8) (m : Machine) :
    ∃ target, (setMD5 expected m).2 =
      { m with updater := { m.updater with targetMd5 := target } } := by
  unfold setMD5
  split
  · exact ⟨m.updater.targetMd5, rfl⟩
  · exact ⟨expected, rfl⟩

/-- Staging has nothing to do with the expected MD5. -/
theorem Staging.retarget {env : Env} {s : Session} {t : Trail} {m : Machine}
    (st : Staging env s t m) (target : List UInt8) :
    Staging env s t { m with updater := { m.updater with targetMd5 := target } } :=
  { st with }

/-- No call writes anything to an update that was given up. -/
theorem make_givenUp (env : Env) {m : Machine} (givenUp : GivenUp m.updater) (call : UpdateCall) :
    (call.make env m).1 = 0 ∧ (call.make env m).2.board = m.board ∧
      GivenUp (call.make env m).2.updater := by
  have error := givenUp.hasError
  cases call with
  | write data =>
    rw [UpdateCall.make, write_givenUp env data givenUp]
    exact ⟨rfl, rfl, givenUp⟩
  | source polls bytes =>
    have nothing : writeSource env polls bytes m = (0, m) := by
      rw [writeSource, error]
      rfl
    rw [UpdateCall.make, nothing]
    exact ⟨rfl, rfl, givenUp⟩
  | stream input =>
    have nothing : writeStream env input m = (0, m) := by
      rw [writeStream, error]
      rfl
    rw [UpdateCall.make, nothing]
    exact ⟨rfl, rfl, givenUp⟩
  | setMD5 expected =>
    obtain ⟨target, set⟩ := setMD5_cases expected m
    rw [UpdateCall.make, set]
    exact ⟨rfl, rfl, ⟨givenUp.idle.size, givenUp.idle.buffer, givenUp.idle.bufferLen,
      givenUp.idle.startAddress, givenUp.idle.currentAddress, givenUp.idle.command⟩,
      givenUp.error⟩

theorem make_spec {env : Env} {s : Session} {t : Trail} {m : Machine} (st : Staging env s t m)
    (closed : Closed s t) (call : UpdateCall) (sized : call.Sized) :
    ∃ new, Traced s t (call.Stays m.updater) m new (call.make env m).2 ∧
      (Kept env s t (call.bytes.take (call.make env m).1) new (call.make env m).2 ∨
        GivenUp (call.make env m).2.updater) := by
  have length := st.length
  have inside : t.accepted.length ≤ s.size := by
    rcases closed with open_ | ⟨complete, -⟩ <;> omega
  have remaining : m.updater.remaining ≠ 0 → t.flushed < s.size := by
    intro more
    rw [ne_eq, st.remaining_eq_zero] at more
    omega
  cases call with
  | write data =>
    obtain ⟨new, traced, outcome⟩ := write_spec st closed data sized
    refine ⟨new, traced.weaken ?_, ?_⟩
    · rintro (more | unaligned | some)
      · exact .inl (remaining more)
      · rw [st.size] at unaligned
        exact .inr (.inl unaligned)
      · exact .inr (.inr some)
    · rcases outcome with ⟨all, kept⟩ | lost | ⟨givenUp, -⟩
      · left
        rw [UpdateCall.make, all]
        rw [UpdateCall.bytes, List.take_length]
        exact kept
      · exact .inr lost.1
      · exact .inr givenUp
  | source polls bytes =>
    obtain ⟨n, new, traced, outcome⟩ := writeSource_spec st closed polls bytes sized
    refine ⟨new, traced.weaken ?_, ?_⟩
    · rintro (more | unaligned | none)
      · exact .inl (remaining more)
      · rw [st.size] at unaligned
        exact .inr (.inl unaligned)
      · exact .inr (.inr none)
    · rcases outcome with ⟨count, -, kept, -⟩ | lost
      · left
        rw [UpdateCall.make, count]
        exact kept
      · exact .inr lost.1
  | stream input =>
    obtain ⟨n, new, traced, outcome⟩ := writeStream_spec st input
    refine ⟨new, traced.weaken ?_, ?_⟩
    · intro stays
      rw [UpdateCall.Stays, st.bufferSize, st.remaining_of_le (by omega)] at stays
      exact ⟨inside, stays⟩
    · rcases outcome with ⟨count, -, kept, -⟩ | lost | ⟨givenUp, -⟩
      · left
        rw [UpdateCall.make, count]
        exact kept
      · exact .inr lost.1
      · exact .inr givenUp
  | setMD5 expected =>
    obtain ⟨target, set⟩ := setMD5_cases expected m
    rw [UpdateCall.make, set]
    refine ⟨[], ⟨Follows.refl _, st.writes, by simp⟩, .inl ⟨t.flushed, t.mode, ?_, ?_⟩⟩
    · rw [List.take_zero, List.append_nil, List.nil_append]
      exact st.retarget target
    · rw [List.take_zero, List.append_nil, List.nil_append]
      exact closed

/-- One call. -/
theorem perform_uploads {env : Env} {s : Session} {contained : Prop} {events : List Event}
    {r : Upload} (uploads : Uploads env s contained events r) (call : UpdateCall)
    (sized : call.Sized) (stays : contained → call.Stays r.machine.updater) :
    ∃ new, Uploads env s contained (new ++ events) (perform env call r).2 := by
  rcases uploads.held with givenUp | ⟨flushed, mode, st, closed⟩
  · obtain ⟨-, board, lost⟩ := make_givenUp env givenUp call
    refine ⟨[], ?_, uploads.writes, uploads.inside, .inl lost⟩
    change Follows s.board events (call.make env r.machine).2.board
    rw [board]
    exact uploads.follows
  · obtain ⟨new, traced, outcome⟩ := make_spec st closed call sized
    refine ⟨new, uploads.follows.trans traced.follows, traced.writes, ?_, ?_⟩
    · intro holds event member
      rcases List.mem_append.1 member with now | before
      · exact traced.inside (stays holds) event now
      · exact uploads.inside holds event before
    · rcases outcome with ⟨flushed', mode', st', closed'⟩ | givenUp
      · exact .inr ⟨flushed', mode', st', closed'⟩
      · exact .inl givenUp

/-- A run of calls. -/
theorem after_uploads {env : Env} {s : Session} {calls : List UpdateCall} :
    ∀ {events : List Event} {r : Upload}, Uploads env s False events r →
      (∀ call ∈ calls, call.Sized) →
      ∃ new, Uploads env s False (new ++ events) (Runs.after (perform env) calls r) := by
  induction calls with
  | nil => intro events r uploads _; exact ⟨[], uploads⟩
  | cons call calls ih =>
    intro events r uploads sized
    obtain ⟨new, next⟩ := perform_uploads uploads call (sized call List.mem_cons_self) False.elim
    obtain ⟨new', last⟩ := ih next fun c member => sized c (List.mem_cons_of_mem call member)
    refine ⟨new' ++ new, ?_⟩
    rw [List.append_assoc]
    exact last

/-- The machine that a successful `begin` leaves, before any call. -/
theorem begun_uploads {env : Env} {size command : Nat} {around : Surroundings} {m m' : Machine}
    {s : Session} (begun : Begun env size command around m s m') (contained : Prop) :
    Uploads env s contained [] ⟨m', []⟩ where
  follows := begun.staging.follows
  writes := trivial
  inside := by
    intro _ event member
    exact absurd member List.not_mem_nil
  held := .inr ⟨0, s.chipMode, begun.staging, .inl s.size_pos⟩

/-- What a successful `begin` and a run of calls leave. -/
theorem update_uploads {env : Env} {size command : Nat} {around : Surroundings} {m : Machine}
    (fits : size < 2 ^ 32) (began : (begin env size command around m).1 = true)
    {calls : List UpdateCall} (sized : ∀ call ∈ calls, call.Sized) :
    ∃ s events, Begun env size command around m s (begin env size command around m).2 ∧
      Uploads env s False events
        (Runs.after (perform env) calls ⟨(begin env size command around m).2, []⟩) := by
  rcases begin_cases env size command around m fits with ⟨-, refused⟩ | ⟨-, -, outcome⟩
  · rw [refused] at began
    cases began
  · rcases outcome with ⟨failed, -⟩ | ⟨-, s, begun⟩
    · rw [failed] at began
      cases began
    · obtain ⟨events, uploads⟩ := after_uploads (begun_uploads begun False) sized
      refine ⟨s, events ++ [], begun, uploads⟩

end Esp8266.Updater
