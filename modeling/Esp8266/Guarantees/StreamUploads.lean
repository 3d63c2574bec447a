import Esp8266.Source.HttpUpload

/-!
# Uploads from a stream

The retry after a short write counts from the bytes that were asked for. Where the stream has
delivered fewer, the connection can take bytes from behind them; everywhere else what is sent is
what the stream has delivered, and the response is read only when that is all of the body.
-/
set_option autoImplicit false

namespace Esp8266.Source.HttpClient
open Esp8266.Source.WString

namespace Upload

/-- The retry takes more than what is left of the bytes that were read. -/
def Overruns (u : Upload) (buffSize : Nat) (pass : Pass) : Prop :=
  u.bytesWrite buffSize pass < u.bytesRead buffSize pass ∧
    u.bytesRead buffSize pass < u.asked buffSize pass ∧
    u.bytesRead buffSize pass - u.bytesWrite buffSize pass < pass.takenAgain

instance (u : Upload) (buffSize : Nat) (pass : Pass) : Decidable (u.Overruns buffSize pass) :=
  inferInstanceAs (Decidable (_ ∧ _))

/-- All that was delivered is sent, and counted. -/
structure Even (u : Upload) : Prop where
  sent : u.sent = u.delivered
  counted : u.bytesWritten = u.sent.length

theorem Even.within {u : Upload} (even : u.Even) : u.sent <+: u.delivered :=
  ⟨[], by rw [List.append_nil, even.sent]⟩

/-! ## One pass -/

theorem bytesRead_le (u : Upload) (buffSize : Nat) (pass : Pass) :
    u.bytesRead buffSize pass ≤ u.asked buffSize pass ∧
      u.bytesRead buffSize pass ≤ u.source.length := by
  rw [bytesRead]
  omega

theorem bytesWrite_le (u : Upload) (buffSize : Nat) (pass : Pass) :
    u.bytesWrite buffSize pass ≤ u.bytesRead buffSize pass := Nat.min_le_right _ _

/-- The bytes of the block that was read last. -/
theorem bytes_readBytes (u : Upload) {count start number : Nat} (inside : count ≤ u.source.length)
    (short : start + number ≤ count) :
    (u.readBytes count).bytes start number = ((u.source.take count).drop start).take number := by
  have length : (u.source.take count).length = count := by
    rw [List.length_take]
    omega
  apply List.ext_getElem
  · simp only [bytes, List.length_map, List.length_range, List.length_take, List.length_drop]
    omega
  · intro i here _
    simp only [bytes, List.length_map, List.length_range] at here
    have below : start + i < (u.source.take count).length := by omega
    simp only [bytes, List.getElem_map, List.getElem_range, List.getElem_take, List.getElem_drop]
    change (if start + i < (u.source.take count).length
      then (u.source.take count).getD (start + i) 0 else u.buff (start + i)) = _
    rw [if_pos below, List.getD_eq_getElem _ _ below, List.getElem_take]

theorem length_bytes (u : Upload) (start number : Nat) :
    (u.bytes start number).length = number := by
  rw [bytes, List.length_map, List.length_range]

/-- How many bytes the retry sends. -/
def again (u : Upload) (buffSize : Nat) (pass : Pass) : Nat :=
  if u.bytesWrite buffSize pass ≠ u.bytesRead buffSize pass then
    min pass.takenAgain (u.asked buffSize pass - u.bytesWrite buffSize pass)
  else 0

/-- The bytes that a pass sends. -/
def passBytes (u : Upload) (buffSize : Nat) (pass : Pass) : List UInt8 :=
  let read := u.readBytes (u.bytesRead buffSize pass)
  read.bytes 0 (u.bytesWrite buffSize pass) ++
    read.bytes (u.bytesWrite buffSize pass) (u.again buffSize pass)

theorem length_passBytes (u : Upload) (buffSize : Nat) (pass : Pass) :
    (u.passBytes buffSize pass).length = u.bytesWrite buffSize pass + u.again buffSize pass := by
  rw [passBytes, List.length_append, length_bytes, length_bytes]

/-- All that a pass does. -/
structure Passed (u : Upload) (buffSize : Nat) (pass : Pass) (u' : Upload) (code : Option Int) :
    Prop where
  source : u'.source = u.source.drop (u.bytesRead buffSize pass)
  delivered : u'.delivered = u.delivered ++ u.source.take (u.bytesRead buffSize pass)
  sent : u'.sent = u.sent ++ u.passBytes buffSize pass
  counted : u'.bytesWritten = u.bytesWritten + (u.passBytes buffSize pass).length
  failed : ∀ c ∈ code, c = httpcErrorSendPayloadFailed
  complete : code = none → u.bytesWrite buffSize pass ≠ u.bytesRead buffSize pass →
    u.again buffSize pass = u.asked buffSize pass - u.bytesWrite buffSize pass

theorem transfer_passed (u : Upload) (buffSize : Nat) (pass : Pass) :
    u.Passed buffSize pass (u.transfer buffSize pass).1 (u.transfer buffSize pass).2 := by
  have length := u.length_passBytes buffSize pass
  by_cases short : u.bytesWrite buffSize pass ≠ u.bytesRead buffSize pass
  · have retried : u.again buffSize pass =
        min pass.takenAgain (u.asked buffSize pass - u.bytesWrite buffSize pass) := if_pos short
    have sent : ∀ t : Upload, t = (((u.readBytes (u.bytesRead buffSize pass)).write 0
          (u.bytesWrite buffSize pass)).write (u.bytesWrite buffSize pass)
          (u.again buffSize pass)) →
        t.sent = u.sent ++ u.passBytes buffSize pass ∧
          t.bytesWritten = u.bytesWritten + (u.passBytes buffSize pass).length := by
      rintro t rfl
      refine ⟨List.append_assoc _ _ _, ?_⟩
      rw [length, Int.natCast_add, ← Int.add_assoc]
      rfl
    rw [transfer]
    dsimp only
    rw [if_pos short, ← retried]
    obtain ⟨sent, counted⟩ := sent _ rfl
    split
    · rename_i missed
      exact ⟨rfl, rfl, sent, counted, by rintro c ⟨⟩; rfl, nofun⟩
    · rename_i full
      have all : u.again buffSize pass = u.asked buffSize pass - u.bytesWrite buffSize pass :=
        Decidable.not_not.mp full
      split
      · exact ⟨rfl, rfl, sent, counted, by rintro c ⟨⟩; rfl, nofun⟩
      · exact ⟨rfl, rfl, sent, counted, nofun, fun _ _ => all⟩
  · have none : u.again buffSize pass = 0 := if_neg short
    have sent : u.sent ++ u.passBytes buffSize pass =
        u.sent ++ (u.readBytes (u.bytesRead buffSize pass)).bytes 0
          (u.bytesWrite buffSize pass) := by
      rw [passBytes, none]
      exact congrArg (u.sent ++ ·) (List.append_nil _)
    have counted : u.bytesWritten + ((u.passBytes buffSize pass).length : Int) =
        u.bytesWritten + (u.bytesWrite buffSize pass : Int) := by
      rw [length, none, Nat.add_zero]
    rw [transfer]
    dsimp only
    rw [if_neg short]
    split
    · exact ⟨rfl, rfl, sent.symm, counted.symm, by rintro c ⟨⟩; rfl, nofun⟩
    · exact ⟨rfl, rfl, sent.symm, counted.symm, nofun, fun _ other => absurd other short⟩

/-- Without an overrun a pass sends from the start of what it reads. -/
theorem passBytes_take {u : Upload} {buffSize : Nat} {pass : Pass}
    (calm : ¬ u.Overruns buffSize pass) :
    u.bytesWrite buffSize pass + u.again buffSize pass ≤ u.bytesRead buffSize pass ∧
      u.passBytes buffSize pass = (u.source.take (u.bytesRead buffSize pass)).take
        (u.bytesWrite buffSize pass + u.again buffSize pass) := by
  have read := u.bytesRead_le buffSize pass
  have write := u.bytesWrite_le buffSize pass
  have bound : u.bytesWrite buffSize pass + u.again buffSize pass ≤ u.bytesRead buffSize pass := by
    rw [Overruns] at calm
    rw [again]
    split
    · omega
    · omega
  refine ⟨bound, ?_⟩
  rw [passBytes, bytes_readBytes u read.2 (by omega), bytes_readBytes u read.2 bound,
    List.drop_zero, ← List.take_add]

variable {u : Upload} {buffSize : Nat} {pass : Pass}

/-- A pass without an overrun sends what it delivers, from the start. -/
theorem transfer_prefix (even : u.Even) (calm : ¬ u.Overruns buffSize pass) :
    (u.transfer buffSize pass).1.sent <+: (u.transfer buffSize pass).1.delivered := by
  have passed := u.transfer_passed buffSize pass
  rw [passed.sent, passed.delivered, even.sent, (passBytes_take calm).2]
  exact (List.prefix_append_right_inj _).mpr (List.take_prefix _ _)

theorem transfer_even (even : u.Even) (calm : ¬ u.Overruns buffSize pass)
    (goes : (u.transfer buffSize pass).2 = none) : (u.transfer buffSize pass).1.Even := by
  have passed := u.transfer_passed buffSize pass
  have read := u.bytesRead_le buffSize pass
  have write := u.bytesWrite_le buffSize pass
  obtain ⟨bound, taken⟩ := passBytes_take calm
  have all : u.bytesWrite buffSize pass + u.again buffSize pass = u.bytesRead buffSize pass := by
    by_cases short : u.bytesWrite buffSize pass ≠ u.bytesRead buffSize pass
    · have full := passed.complete goes short
      omega
    · have none : u.again buffSize pass = 0 := if_neg short
      omega
  constructor
  · rw [passed.sent, passed.delivered, even.sent, taken, all, List.take_take, Nat.min_self]
  · rw [passed.counted, passed.sent, even.counted, List.length_append, Int.natCast_add]

/-- An overrun sends more than was delivered. -/
theorem transfer_overrun (even : u.Even) (overrun : u.Overruns buffSize pass) :
    ¬ (u.transfer buffSize pass).1.sent <+: (u.transfer buffSize pass).1.delivered := by
  have passed := u.transfer_passed buffSize pass
  have read := u.bytesRead_le buffSize pass
  obtain ⟨short, asked, taken⟩ := overrun
  have retried : u.again buffSize pass =
      min pass.takenAgain (u.asked buffSize pass - u.bytesWrite buffSize pass) :=
    if_pos (by omega)
  intro within
  have length := within.length_le
  rw [passed.sent, passed.delivered, even.sent, List.length_append, List.length_append,
    length_passBytes, List.length_take] at length
  omega

end Upload

/-! ## The loop -/

/-- No pass that is reached overruns what it reads. -/
def Careful (buffSize : Nat) : List Pass → Upload → Prop
  | [], _ => True
  | pass :: passes, u =>
    u.Continues pass →
      if pass.sizeAvailable ≠ 0 then
        ¬ u.Overruns buffSize pass ∧
          ((u.transfer buffSize pass).2 = none →
            Careful buffSize passes (u.transfer buffSize pass).1)
      else Careful buffSize passes u

/-- What is known of an upload that came from `u`: what it sent, and that only bytes of the
stream were delivered. -/
structure Sends (u u' : Upload) (progress : Progress) : Prop where
  within : u'.sent <+: u'.delivered
  stream : u'.delivered ++ u'.source = u.delivered ++ u.source
  even : (∀ code, progress ≠ .failed code) → u'.Even
  failed : ∀ code, progress = .failed code → code = httpcErrorSendPayloadFailed

theorem uploadLoop_sends (buffSize : Nat) : ∀ {passes : List Pass} {u : Upload}, u.Even →
    Careful buffSize passes u →
      Sends u (uploadLoop buffSize passes u).1 (uploadLoop buffSize passes u).2 := by
  intro passes
  induction passes with
  | nil =>
    intro u even _
    exact ⟨even.within, rfl, fun _ => even, nofun⟩
  | cons pass passes ih =>
    intro u even careful
    rw [uploadLoop]
    by_cases goes : u.Continues pass
    · have later := careful goes
      rw [if_pos goes]
      by_cases some : pass.sizeAvailable ≠ 0
      · rw [if_pos some] at later ⊢
        obtain ⟨calm, rest⟩ := later
        have passed := u.transfer_passed buffSize pass
        have within := Upload.transfer_prefix even calm
        have stream : (u.transfer buffSize pass).1.delivered ++
            (u.transfer buffSize pass).1.source = u.delivered ++ u.source := by
          rw [passed.delivered, passed.source, List.append_assoc, List.take_append_drop]
        have next := @Upload.transfer_even u buffSize pass even calm
        rcases transfer : u.transfer buffSize pass with ⟨u', code⟩
        rw [transfer] at rest within stream next passed
        cases code with
        | some code =>
          refine ⟨within, stream, fun no => absurd rfl (no code), ?_⟩
          rintro other ⟨⟩
          exact passed.failed code rfl
        | none =>
          have sends := ih (next rfl) (rest rfl)
          exact ⟨sends.within, sends.stream.trans stream, sends.even, sends.failed⟩
      · rw [if_neg some] at later ⊢
        exact ih even later
    · rw [if_neg goes]
      exact ⟨even.within, rfl, fun _ => even, nofun⟩

instance decidableCareful (buffSize : Nat) :
    ∀ (passes : List Pass) (u : Upload), Decidable (Careful buffSize passes u)
  | [], _ => inferInstanceAs (Decidable True)
  | pass :: passes, u =>
    have := decidableCareful buffSize passes u
    have := decidableCareful buffSize passes (u.transfer buffSize pass).1
    inferInstanceAs (Decidable (_ → _))

theorem careful_take {buffSize : Nat} : ∀ {passes : List Pass} {u : Upload},
    Careful buffSize passes u → ∀ n, Careful buffSize (passes.take n) u := by
  intro passes
  induction passes with
  | nil =>
    intro u _ n
    rw [List.take_nil]
    exact trivial
  | cons pass passes ih =>
    intro u careful n
    cases n with
    | zero => exact trivial
    | succ n =>
      intro goes
      have later := careful goes
      split
      · rename_i some
        rw [if_pos some] at later
        exact ⟨later.1, fun next => ih (later.2 next) n⟩
      · rename_i none
        rw [if_neg none] at later
        exact ih later n

/-- A loop that sends no more than it has read, at any time, overruns nowhere. -/
theorem careful_of_within (buffSize : Nat) : ∀ {passes : List Pass} {u : Upload}, u.Even →
    (∀ n, (uploadLoop buffSize (passes.take n) u).1.sent <+:
      (uploadLoop buffSize (passes.take n) u).1.delivered) → Careful buffSize passes u := by
  intro passes
  induction passes with
  | nil =>
    intro u _ _
    exact trivial
  | cons pass passes ih =>
    intro u even within goes
    by_cases some : pass.sizeAvailable ≠ 0
    · rw [if_pos some]
      have step : ∀ rest, (u.transfer buffSize pass).2 = none →
          uploadLoop buffSize (pass :: rest) u =
            uploadLoop buffSize rest (u.transfer buffSize pass).1 := by
        intro rest next
        rw [uploadLoop, if_pos goes, if_pos some]
        rcases transfer : u.transfer buffSize pass with ⟨u', code⟩
        rw [transfer] at next
        obtain rfl : code = none := next
        rfl
      have one : (uploadLoop buffSize [pass] u).1 = (u.transfer buffSize pass).1 := by
        rw [uploadLoop, if_pos goes, if_pos some]
        rcases u.transfer buffSize pass with ⟨u', code⟩
        cases code with
        | some code => rfl
        | none => rfl
      have calm : ¬ u.Overruns buffSize pass := by
        intro overrun
        have first := within 1
        rw [List.take_succ_cons, List.take_zero, one] at first
        exact Upload.transfer_overrun even overrun first
      refine ⟨calm, fun next => ih (Upload.transfer_even even calm next) fun n => ?_⟩
      have later := within (n + 1)
      rwa [List.take_succ_cons, step _ next] at later
    · rw [if_neg some]
      refine ih even fun n => ?_
      have later := within (n + 1)
      rwa [List.take_succ_cons, uploadLoop, if_pos goes, if_neg some] at later

/-! ## The call -/

/-- What is sent behind the header was delivered by the stream before; the response is read only
behind the whole body; and other ends give a negative code. -/
structure Uploaded (source : List UInt8) (size : UInt32) (result : WString × Upload × Outcome) :
    Prop where
  within : result.2.1.sent <+: result.2.1.delivered
  stream : result.2.1.delivered <+: source
  complete : result.2.2 = .response →
    size.toNat ≤ source.length ∧ result.2.1.sent = source.take size.toNat
  failed : ∀ code, result.2.2 = .returned code → code < 0

theorem start_even (source : List UInt8) (size : UInt32) (memory : Nat → UInt8) :
    (Upload.start source size memory).Even := ⟨rfl, rfl⟩

theorem sendStream_enters (h : HTTPClient) (type : WString) {stream : Option (List UInt8)}
    (size : UInt32) {opening : Opening} (enters : opening.Enters stream) (passes : List Pass) :
    let loop := uploadLoop (uploadBuffSize size) passes
      (Upload.start (stream.getD []) size opening.memory)
    (h.sendStream type stream size opening passes).2 = (loop.1, loop.1.finish size loop.2) := by
  obtain ⟨given, connects, headerSent, allocates⟩ := enters
  have present : ¬ stream.isNone = true := by
    rw [Option.isNone_iff_eq_none]
    rintro rfl
    cases given
  rw [HTTPClient.sendStream]
  dsimp only
  rw [if_neg present, connects, if_neg (by decide), headerSent, if_neg (by decide),
    if_pos allocates]

/-- A call that does not come as far as its loop sends nothing behind the header. -/
theorem sendStream_refused (h : HTTPClient) (type : WString) {stream : Option (List UInt8)}
    (size : UInt32) {opening : Opening} (refused : ¬ opening.Enters stream) (passes : List Pass) :
    ∃ code < 0, (h.sendStream type stream size opening passes).2 =
      (Upload.start (stream.getD []) size opening.memory, .returned code) := by
  rw [HTTPClient.sendStream]
  dsimp only
  split
  · exact ⟨_, by decide, rfl⟩
  · rename_i given
    split
    · exact ⟨_, by decide, rfl⟩
    · rename_i connects
      split
      · exact ⟨_, by decide, rfl⟩
      · rename_i headerSent
        split
        · rename_i allocates
          have present : stream.isSome = true := by
            rw [← Option.not_isNone, Bool.not_eq_true']
            exact Bool.eq_false_of_not_eq_true given
          exact absurd ⟨present, by simpa using connects, by simpa using headerSent, allocates⟩
            refused
        · exact ⟨_, by decide, rfl⟩

theorem finish_response {u : Upload} (even : u.Even) {source : List UInt8}
    (stream : u.delivered <+: source) {size : UInt32} (positive : 0 < size) {progress : Progress}
    (done : u.finish size progress = .response) :
    size.toNat ≤ source.length ∧ u.sent = source.take size.toNat := by
  cases progress with
  | running => cases done
  | failed code => cases done
  | left =>
    rw [Upload.finish] at done
    have filled : size ≠ 0 := by
      rintro rfl
      exact absurd positive (by decide)
    have equal : toInt size = u.bytesWritten := by
      by_contra other
      rw [if_pos ⟨filled, other⟩] at done
      cases done
    have all : u.sent.length = size.toNat := by
      rw [even.counted, toInt] at equal
      split at equal
      · omega
      · have := size.toNat_lt
        omega
    rw [← even.sent] at stream
    rw [← all]
    exact ⟨stream.length_le, List.prefix_iff_eq_take.mp stream⟩

/-- **A stream is uploaded** whole and in order before the response is read, and only what it
delivers is sent, at any time of a call, exactly where no pass that is reached overruns what it
reads. -/
theorem stream_uploaded (h : HTTPClient) (type : WString) (stream : Option (List UInt8))
    {size : UInt32} (positive : 0 < size) (opening : Opening) (passes : List Pass) :
    (∀ n, Uploaded (stream.getD []) size
        (h.sendStream type stream size opening (passes.take n))) ↔
      (opening.Enters stream → Careful (uploadBuffSize size) passes
        (Upload.start (stream.getD []) size opening.memory)) := by
  have even := start_even (stream.getD []) size opening.memory
  constructor
  · intro uploaded enters
    refine careful_of_within _ even fun n => ?_
    have within := (uploaded n).within
    rwa [sendStream_enters h type size enters] at within
  · intro careful n
    by_cases enters : opening.Enters stream
    · have sends := uploadLoop_sends _ even (careful_take (careful enters) n)
      have result := sendStream_enters h type size enters (passes.take n)
      dsimp only at result
      rcases loop : uploadLoop (uploadBuffSize size) (passes.take n)
        (Upload.start (stream.getD []) size opening.memory) with ⟨u, progress⟩
      rw [loop] at sends result
      have delivered : u.delivered <+: stream.getD [] := ⟨u.source, sends.stream⟩
      constructor
      · rw [result]
        exact sends.within
      · rw [result]
        exact delivered
      · rw [result]
        intro done
        have goes : ∀ code, progress ≠ .failed code := by
          rintro code rfl
          cases done
        exact finish_response (sends.even goes) delivered positive done
      · rw [result]
        intro code done
        cases progress with
        | running => cases done
        | failed other =>
          cases done
          rw [sends.failed code rfl]
          decide
        | left =>
          change (if size ≠ 0 ∧ toInt size ≠ u.bytesWritten
            then Outcome.returned httpcErrorSendPayloadFailed else .response) = _ at done
          split at done
          · cases done
            decide
          · cases done
    · obtain ⟨code, negative, result⟩ := sendStream_refused h type size enters (passes.take n)
      constructor
      · rw [result]
        exact ⟨[], rfl⟩
      · rw [result]
        exact ⟨_, rfl⟩
      · rw [result]
        intro done
        cases done
      · rw [result]
        intro other done
        cases done
        exact negative

theorem stream_uploaded_three :
    let stream := some (ofString "abc")
    let opening : Opening := ⟨true, true, true, fun _ => 0⟩
    let passes : List Pass := [⟨true, 2, 2, 2, 1, 1, false⟩, ⟨true, 1, 1, 1, 1, 0, false⟩,
      ⟨true, 0, 0, 0, 0, 0, false⟩]
    (0 : UInt32) < 3 ∧
      (HTTPClient.sendStream {} (ofString "PUT") stream 3 opening passes).2.2 = .response ∧
      (HTTPClient.sendStream {} (ofString "PUT") stream 3 opening (passes.take 3)).2.1.sent =
        ofString "abc" := by
  intro stream opening passes
  have positive : (0 : UInt32) < 3 := by decide
  have response : (HTTPClient.sendStream {} (ofString "PUT") stream 3 opening
      (passes.take 3)).2.2 = .response := by
    decide
  have uploaded := (stream_uploaded {} (ofString "PUT") stream positive opening passes).mpr
    fun _ => by decide
  exact ⟨positive, response, ((uploaded 3).complete response).2⟩

/-- Two bytes of four are delivered, one of them is taken, and the retry sends the other with two
bytes of memory; the response is read. -/
theorem sendStream_sends_memory :
    let stream := some (ofString "abcd")
    let opening : Opening := ⟨true, true, true, fun _ => 0⟩
    let passes : List Pass := [⟨true, 4, 4, 2, 1, 3, false⟩, ⟨true, 2, 2, 2, 2, 0, false⟩]
    let result := HTTPClient.sendStream {} (ofString "PUT") stream 4 opening passes
    result.2.2 = .response ∧ result.2.1.delivered = ofString "ab" ∧
      result.2.1.sent = ofString "ab" ++ [0, 0] ∧ ¬ Uploaded (ofString "abcd") 4 result := by
  intro stream opening passes result
  have delivered : result.2.1.delivered = ofString "ab" := by decide
  have sent : result.2.1.sent = ofString "ab" ++ [0, 0] := by decide
  refine ⟨by decide, delivered, sent, fun uploaded => ?_⟩
  have within := uploaded.within
  rw [delivered, sent] at within
  exact absurd within (by decide)

end Esp8266.Source.HttpClient
