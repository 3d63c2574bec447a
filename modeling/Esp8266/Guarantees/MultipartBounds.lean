import Esp8266.Source.WebServer

/-!
# Where the parsing of a form ends

The loops of `_parseForm` leave on particular lines only, and no loop looks at the number of
fields. A form is closed if its parts lead to such a line; behind the end of the input there are
empty lines, and none of them is one.
-/
set_option autoImplicit false

namespace Esp8266.Source.WebServer
open Esp8266.Source.QueryString Esp8266.Source.WString

/-- The line begins a part. -/
def BeginsPart (line : WString) : Prop :=
  line.length > 19 ∧ equalsIgnoreCase (substring line 0 19) (ofString "Content-Disposition")

instance (line : WString) : Decidable (BeginsPart line) := inferInstanceAs (Decidable (_ ∧ _))

/-- The lines of a value up to the one that starts with the boundary, and what is behind it. -/
inductive ValueEnds (boundary : WString) : Client → WString → Client → Prop
  | last {client rest : Client} {line : WString} (read : client.readLine = (line, rest))
      (boundaryLine : startsWith line (ofString "--" ++ boundary) = true) :
      ValueEnds boundary client line rest
  | more {client next rest : Client} {line last : WString} (read : client.readLine = (line, next))
      (valueLine : ¬ startsWith line (ofString "--" ++ boundary) = true)
      (ends : ValueEnds boundary next last rest) : ValueEnds boundary client last rest

/-- A form of which `args` fields are stored is closed, with room for every field: it goes on
with lines that begin no part, with fields and files, and ends with a field or a file before the
closing line, or with a file that the client breaks off. -/
inductive Closed (boundary : WString) : Nat → Client → Prop
  | line {args : Nat} {client rest : Client} {line : WString}
      (read : client.readLine = (line, rest))
      (noPart : ¬ BeginsPart line ∨ argOf line = none) (closed : Closed boundary args rest) :
      Closed boundary args client
  | field {args : Nat} {client value rest : Client} {line name last : WString}
      (read : client.readLine = (line, value)) (begins : BeginsPart line)
      (isField : argOf line = some (name, false))
      (ends : ValueEnds boundary (skipType value) last rest) (room : args < webserverMaxPostArgs)
      (goesOn : equals last (ofString "--" ++ boundary ++ ofString "--") = false)
      (closed : Closed boundary (args + 1) rest) : Closed boundary args client
  | lastField {args : Nat} {client value rest : Client} {line name last : WString}
      (read : client.readLine = (line, value)) (begins : BeginsPart line)
      (isField : argOf line = some (name, false))
      (ends : ValueEnds boundary (skipType value) last rest) (room : args < webserverMaxPostArgs)
      (closing : equals last (ofString "--" ++ boundary ++ ofString "--") = true) :
      Closed boundary args client
  | file {args : Nat} {client content rest : Client} {line name : WString}
      (read : client.readLine = (line, content)) (begins : BeginsPart line)
      (isFile : argOf line = some (name, true))
      (ends : (filePart name boundary (skipType content)).2 = .ended rest)
      (goesOn : equalsText rest.readLine.1 (ofString "--") = false)
      (closed : Closed boundary args rest.readLine.2) : Closed boundary args client
  | lastFile {args : Nat} {client content rest : Client} {line name : WString}
      (read : client.readLine = (line, content)) (begins : BeginsPart line)
      (isFile : argOf line = some (name, true))
      (ends : (filePart name boundary (skipType content)).2 = .ended rest)
      (closing : equalsText rest.readLine.1 (ofString "--") = true) : Closed boundary args client
  | brokenOff {args : Nat} {client content : Client} {line name : WString}
      (read : client.readLine = (line, content)) (begins : BeginsPart line)
      (isFile : argOf line = some (name, true))
      (ends : (filePart name boundary (skipType content)).2 = .aborted) :
      Closed boundary args client

/-- A call of `_parseForm` on this input returns, and all of its accesses of `_postArgs` are
inside of the array. -/
def Safe (form : Form) : Prop :=
  form.parsed ≠ .waiting ∧ form.postArgs.length ≤ webserverMaxPostArgs ∧
    ∀ currentArgs, (joinArgs form.postArgs currentArgs).length ≤ webserverMaxPostArgs

theorem safe_iff (form : Form) :
    Safe form ↔ form.parsed ≠ .waiting ∧ form.postArgs.length ≤ webserverMaxPostArgs := by
  constructor
  · exact fun safe => ⟨safe.1, safe.2.1⟩
  · rintro ⟨returns, few⟩
    refine ⟨returns, few, fun currentArgs => ?_⟩
    rw [joinArgs, List.length_append, List.length_take]
    omega

/-! ## Input is used up -/

theorem readUntil_length (terminator : UInt8) :
    ∀ input : List (Option UInt8), (Client.readUntil terminator input).2.length ≤ input.length ∧
      (input ≠ [] → (Client.readUntil terminator input).2.length < input.length)
  | [] => ⟨Nat.le_refl _, fun some => absurd rfl some⟩
  | none :: rest => ⟨Nat.le_succ _, fun _ => Nat.lt_succ_self _⟩
  | some c :: rest => by
    have le := (readUntil_length terminator rest).1
    rw [Client.readUntil]
    split
    · exact ⟨Nat.le_succ _, fun _ => Nat.lt_succ_self _⟩
    · exact ⟨Nat.le_succ_of_le le, fun _ => Nat.lt_succ_of_le le⟩

theorem readLine_length (client : Client) :
    client.readLine.2.input.length ≤ client.input.length ∧
      (client.input ≠ [] → client.readLine.2.input.length < client.input.length) := by
  obtain ⟨le, less⟩ := readUntil_length 0x0d client.input
  have second := (readUntil_length 0x0a (Client.readUntil 0x0d client.input).2).1
  exact ⟨Nat.le_trans second le, fun some => Nat.lt_of_le_of_lt second (less some)⟩

/-- Behind the end of the input there are empty lines. -/
theorem readLine_end {client : Client} (none : client.input = []) : client.readLine = ([], client) := by
  rcases client with ⟨input, closed, lag, stack, reserves⟩
  obtain rfl : input = [] := none
  rfl

/-! ## One pass -/

variable {boundary : WString} {fuel : Nat} {postArgs : List RequestArgument} {client : Client}

theorem formLoop_line {line : WString} {rest : Client} (read : client.readLine = (line, rest))
    (noPart : ¬ BeginsPart line ∨ argOf line = none) :
    formLoop boundary (fuel + 1) postArgs client = formLoop boundary fuel postArgs rest := by
  rw [formLoop, read]
  dsimp only
  split
  · rename_i begins
    rw [noPart.resolve_left fun other => other begins]
  · rfl

section
variable {line name : WString} {next : Client} (read : client.readLine = (line, next))
  (begins : BeginsPart line)
include read begins

theorem formLoop_endless (isField : argOf line = some (name, false))
    (endless : valueLoop boundary ((skipType next).input.length + 1) [] (skipType next) = none) :
    formLoop boundary (fuel + 1) postArgs client = ⟨[], postArgs, .waiting⟩ := by
  rw [BeginsPart] at begins
  rw [formLoop, read]
  dsimp only
  rw [if_pos begins, isField]
  simp only [Bool.not_false, if_true, endless]

theorem formLoop_value (isField : argOf line = some (name, false)) {value last : WString}
    {rest : Client} (ends : valueLoop boundary ((skipType next).input.length + 1) []
      (skipType next) = some (value, last, rest)) :
    formLoop boundary (fuel + 1) postArgs client =
      if equals last (ofString "--" ++ boundary ++ ofString "--") then
        ⟨[], postArgs ++ [⟨name, value⟩], .accepted⟩
      else formLoop boundary fuel (postArgs ++ [⟨name, value⟩]) rest := by
  rw [BeginsPart] at begins
  rw [formLoop, read]
  dsimp only
  rw [if_pos begins, isField]
  simp only [Bool.not_false, if_true, ends]

/-- The result of a file, but for the uploads. -/
theorem formLoop_fileEnd (isFile : argOf line = some (name, true)) :
    ((filePart name boundary (skipType next)).2 = .aborted →
      (formLoop boundary (fuel + 1) postArgs client).parsed = .refused ∧
        (formLoop boundary (fuel + 1) postArgs client).postArgs = postArgs) ∧
    ((filePart name boundary (skipType next)).2 = .waiting →
      (formLoop boundary (fuel + 1) postArgs client).parsed = .waiting) ∧
    (∀ rest, (filePart name boundary (skipType next)).2 = .ended rest →
      (equalsText rest.readLine.1 (ofString "--") = true →
        (formLoop boundary (fuel + 1) postArgs client).parsed = .accepted ∧
          (formLoop boundary (fuel + 1) postArgs client).postArgs = postArgs) ∧
      (equalsText rest.readLine.1 (ofString "--") = false →
        (formLoop boundary (fuel + 1) postArgs client).parsed =
            (formLoop boundary fuel postArgs rest.readLine.2).parsed ∧
          (formLoop boundary (fuel + 1) postArgs client).postArgs =
            (formLoop boundary fuel postArgs rest.readLine.2).postArgs)) := by
  rw [BeginsPart] at begins
  rw [formLoop, read]
  dsimp only
  rw [if_pos begins, isFile]
  rcases part : filePart name boundary (skipType next) with ⟨uploads, fileEnd⟩
  simp only [Bool.not_true, Bool.false_eq_true, if_false, part]
  cases fileEnd with
  | aborted => exact ⟨fun _ => ⟨rfl, rfl⟩, fun no => (nomatch no), fun _ no => (nomatch no)⟩
  | waiting => exact ⟨fun no => (nomatch no), fun _ => rfl, fun _ no => (nomatch no)⟩
  | ended rest =>
    refine ⟨fun no => (nomatch no), fun no => (nomatch no), fun rest' same => ?_⟩
    obtain rfl : rest = rest' := FileEnd.ended.inj same
    constructor
    · intro closing
      simp [closing]
    · intro goesOn
      simp [goesOn]

end

/-! ## Values and files -/

theorem dashes_ne_nil (boundary : WString) : ofString "--" ++ boundary ≠ [] := by
  intro none
  exact absurd (List.append_eq_nil_iff.mp none).1 (by decide)

theorem boundaryLine_ne_nil {line : WString}
    (boundaryLine : startsWith line (ofString "--" ++ boundary) = true) : line ≠ [] := by
  rintro rfl
  exact dashes_ne_nil boundary (List.prefix_nil.mp (List.isPrefixOf_iff_prefix.mp boundaryLine))

theorem input_ne_nil {line : WString} {rest : Client} (read : client.readLine = (line, rest))
    (some : line ≠ []) : client.input ≠ [] := by
  intro none
  rw [readLine_end none] at read
  exact some (Prod.mk.inj read).1.symm

/-- The loop over the lines of a value returns on a value that ends. -/
theorem valueLoop_ends {last : WString} {rest : Client} (ends : ValueEnds boundary client last rest) :
    client.input ≠ [] ∧ rest.input.length < client.input.length ∧
      ∀ {fuel : Nat} {argValue : WString}, client.input.length ≤ fuel →
        ∃ value, valueLoop boundary fuel argValue client = some (value, last, rest) := by
  induction ends with
  | @last client rest line read boundaryLine =>
    have some := input_ne_nil read (boundaryLine_ne_nil boundaryLine)
    have less := (readLine_length client).2 some
    rw [read] at less
    refine ⟨some, less, fun {fuel argValue} enough => ?_⟩
    cases fuel with
    | zero => omega
    | succ fuel =>
      rw [valueLoop, read]
      dsimp only
      rw [if_pos boundaryLine]
      exact ⟨argValue, rfl⟩
  | @more client next rest line last read valueLine ends ih =>
    obtain ⟨someNext, lessRest, loop⟩ := ih
    have some : client.input ≠ [] := by
      intro none
      rw [readLine_end none] at read
      obtain rfl : client = next := (Prod.mk.inj read).2
      exact someNext none
    have less := (readLine_length client).2 some
    rw [read] at less
    refine ⟨some, Nat.lt_trans lessRest less, fun {fuel argValue} enough => ?_⟩
    cases fuel with
    | zero => omega
    | succ fuel =>
      rw [valueLoop, read]
      dsimp only
      rw [if_neg valueLine]
      exact loop (by dsimp only at less; omega)

/-- It returns on no other. -/
theorem ends_of_valueLoop {fuel : Nat} : ∀ {argValue value last : WString} {client rest : Client},
    valueLoop boundary fuel argValue client = some (value, last, rest) →
      ValueEnds boundary client last rest := by
  induction fuel with
  | zero => intro argValue value last client rest returned; cases returned
  | succ fuel ih =>
    intro argValue value last client rest returned
    rcases read : client.readLine with ⟨line, next⟩
    rw [valueLoop, read] at returned
    dsimp only at returned
    split at returned
    · rename_i boundaryLine
      obtain ⟨rfl, rfl, rfl⟩ := by simpa using returned
      exact .last read boundaryLine
    · rename_i valueLine
      exact .more read valueLine (ih returned)

theorem skipType_length (client : Client) :
    (skipType client).input.length ≤ client.input.length := by
  have first := (readLine_length client).1
  have second := (readLine_length client.readLine.2).1
  rw [skipType]
  dsimp only
  split
  · exact Nat.le_trans second first
  · exact first

/-- A file that ends leaves no more than `n` of the input. -/
def EndsWithin (n : Nat) (read : FileRead) : Prop :=
  ∀ rest, read.2 = .ended rest → rest.input.length ≤ n

theorem nextByte_length : ∀ {input rest : List (Option UInt8)} {c : UInt8},
    Client.nextByte input = some (c, rest) → rest.length ≤ input.length
  | [], _, _, no => by cases no
  | none :: input, _, _, found => Nat.le_succ_of_le (@nextByte_length input _ _ found)
  | some _ :: _, _, _, found => by
    obtain ⟨-, rfl⟩ := by simpa [Client.nextByte] using found
    exact Nat.le_succ _

theorem uploadReadByte_length {c : UInt8} {next : Client}
    (read : client.uploadReadByte = some (c, next)) :
    next.input.length ≤ client.input.length := by
  rw [Client.uploadReadByte] at read
  split at read
  · rename_i found
    obtain ⟨-, rfl⟩ := by simpa using read
    exact nextByte_length found
  · split at read
    · obtain ⟨-, rfl⟩ := by simpa using read
      exact Nat.zero_le _
    · cases read

theorem isConnected_input (client : Client) : client.isConnected.2.input = client.input := by
  rw [Client.isConnected]
  split
  · rfl
  · split <;> rfl

theorem takeBytes_length : ∀ (n : Nat) (input : List (Option UInt8)),
    (Client.takeBytes n input).2.length ≤ input.length
  | 0, input => by cases input <;> exact Nat.le_refl _
  | n + 1, [] => Nat.le_refl _
  | n + 1, none :: rest => Nat.le_succ _
  | n + 1, some _ :: rest => Nat.le_succ_of_le (takeBytes_length n rest)

theorem writing_within {n : Nat} (bytes : List UInt8) (upload : HTTPUpload)
    {rest : HTTPUpload → FileRead} (within : ∀ upload, EndsWithin n (rest upload)) :
    EndsWithin n (writing bytes upload rest) := fun left ended => within _ left ended

theorem checkedByte_within {n : Nat} (upload : HTTPUpload) {rest : UInt8 → Client → FileRead}
    (within : ∀ c next, next.input.length ≤ client.input.length → EndsWithin n (rest c next)) :
    EndsWithin n (checkedByte client upload rest) := by
  rw [checkedByte]
  split
  · exact fun _ no => (nomatch no)
  · rename_i c next read
    dsimp only
    split
    · exact fun _ no => (nomatch no)
    · refine within c _ ?_
      rw [isConnected_input]
      exact uploadReadByte_length read

theorem uncheckedByte_within {n fuel : Nat} (few : client.input.length ≤ n)
    (goesOn : ∀ argByte next upload, next.input.length ≤ n →
      EndsWithin n (readFile boundary fuel argByte next upload)) (upload : HTTPUpload) :
    EndsWithin n (match client.uploadReadByte with
      | none => ([], .waiting)
      | some (argByte, client) => readFile boundary fuel argByte client upload) := by
  split
  · exact fun _ no => (nomatch no)
  · rename_i c last read
    exact goesOn c last upload (Nat.le_trans (uploadReadByte_length read) few)

theorem readFile_within (boundary : WString) (n fuel : Nat) :
    ∀ (argByte : UInt8) (client : Client) (upload : HTTPUpload), client.input.length ≤ n →
      EndsWithin n (readFile boundary fuel argByte client upload) := by
  induction fuel with
  | zero => intro argByte client upload _ _ no; cases no
  | succ fuel ih =>
    intro argByte client upload few
    rw [readFile]
    dsimp only
    split
    · split
      · exact fun _ no => (nomatch no)
      · exact writing_within _ _ (uncheckedByte_within (by rw [isConnected_input]; exact few) ih)
    · refine checkedByte_within _ fun second client second_le => ?_
      split
      · refine checkedByte_within _ fun third client third_le => ?_
        split
        · exact writing_within _ _ fun upload => ih _ _ upload (by omega)
        · refine checkedByte_within _ fun fourth client fourth_le => ?_
          split
          · exact writing_within _ _ fun upload => ih _ _ upload (by omega)
          · have taken := takeBytes_length boundary.length client.input
            split
            · intro rest ended
              obtain rfl := FileEnd.ended.inj ended
              exact Nat.le_trans taken (by omega)
            · exact writing_within _ _ (uncheckedByte_within (Nat.le_trans taken (by omega)) ih)
      · exact writing_within _ _ fun upload => ih _ _ upload (by omega)

theorem filePart_length {name : WString} {rest : Client}
    (ends : (filePart name boundary client).2 = .ended rest) :
    rest.input.length ≤ client.input.length := by
  rw [filePart] at ends
  split at ends
  · cases ends
  · rename_i c next read
    exact Nat.le_trans (readFile_within boundary next.input.length _ c next _ (Nat.le_refl _) rest ends)
      (uploadReadByte_length read)

/-! ## Closed forms -/

theorem closed_input {args : Nat} (closed : Closed boundary args client) : client.input ≠ [] := by
  have head : ∀ {client next : Client} {line : WString}, client.readLine = (line, next) →
      BeginsPart line → client.input ≠ [] := by
    intro client next line read begins
    refine input_ne_nil read ?_
    rintro rfl
    exact absurd begins.1 (by decide)
  induction closed with
  | line read noPart closed ih =>
    intro none
    rw [readLine_end none] at read
    obtain rfl := (Prod.mk.inj read).2
    exact ih none
  | field read begins => exact head read begins
  | lastField read begins => exact head read begins
  | file read begins => exact head read begins
  | lastFile read begins => exact head read begins
  | brokenOff read begins => exact head read begins

/-- A closed form is read to its end, within the array. -/
theorem formLoop_closed {args : Nat} (closed : Closed boundary args client) :
    ∀ {fuel : Nat} {postArgs : List RequestArgument}, client.input.length < fuel →
      postArgs.length = args → args ≤ webserverMaxPostArgs →
        (formLoop boundary fuel postArgs client).parsed ≠ .waiting ∧
          (formLoop boundary fuel postArgs client).postArgs.length ≤ webserverMaxPostArgs := by
  induction closed with
  | @line args client rest line read noPart closed ih =>
    intro fuel postArgs enough count few
    obtain ⟨fuel, rfl⟩ : ∃ n, fuel = n + 1 := ⟨fuel - 1, by omega⟩
    have less := (readLine_length client).2 (closed_input (.line read noPart closed))
    rw [read] at less
    rw [formLoop_line read noPart]
    exact ih (by dsimp only at less; omega) count few
  | @field args client value rest line name last read begins isField ends room goesOn closed ih =>
    intro fuel postArgs enough count few
    obtain ⟨fuel, rfl⟩ : ∃ n, fuel = n + 1 := ⟨fuel - 1, by omega⟩
    have first := (readLine_length client).1
    rw [read] at first
    have second := skipType_length value
    obtain ⟨-, less, loop⟩ := valueLoop_ends ends
    obtain ⟨text, returned⟩ := @loop ((skipType value).input.length + 1) [] (Nat.le_succ _)
    rw [formLoop_value read begins isField returned, goesOn, if_neg Bool.false_ne_true]
    exact ih (by dsimp only at first; omega) (by rw [List.length_append, count]; rfl) room
  | @lastField args client value rest line name last read begins isField ends room closing =>
    intro fuel postArgs enough count few
    obtain ⟨fuel, rfl⟩ : ∃ n, fuel = n + 1 := ⟨fuel - 1, by omega⟩
    obtain ⟨-, -, loop⟩ := valueLoop_ends ends
    obtain ⟨text, returned⟩ := @loop ((skipType value).input.length + 1) [] (Nat.le_succ _)
    rw [formLoop_value read begins isField returned, closing, if_pos rfl]
    refine ⟨fun no => (nomatch no), ?_⟩
    rw [List.length_append, count]
    exact room
  | @file args client content rest line name read begins isFile ends goesOn closed ih =>
    intro fuel postArgs enough count few
    obtain ⟨fuel, rfl⟩ : ∃ n, fuel = n + 1 := ⟨fuel - 1, by omega⟩
    have first := (readLine_length client).2
      (closed_input (.file read begins isFile ends goesOn closed))
    rw [read] at first
    have second := skipType_length content
    have third := filePart_length ends
    have fourth := (readLine_length rest).1
    obtain ⟨parsed, stored⟩ :=
      ((@formLoop_fileEnd boundary fuel postArgs client _ _ _ read begins isFile).2.2 rest ends).2 goesOn
    rw [parsed, stored]
    exact ih (by dsimp only at first; omega) count few
  | @lastFile args client content rest line name read begins isFile ends closing =>
    intro fuel postArgs enough count few
    obtain ⟨fuel, rfl⟩ : ∃ n, fuel = n + 1 := ⟨fuel - 1, by omega⟩
    obtain ⟨parsed, stored⟩ :=
      ((@formLoop_fileEnd boundary fuel postArgs client _ _ _ read begins isFile).2.2 rest ends).1 closing
    rw [parsed, stored, count]
    exact ⟨fun no => (nomatch no), few⟩
  | @brokenOff args client content line name read begins isFile ends =>
    intro fuel postArgs enough count few
    obtain ⟨fuel, rfl⟩ : ∃ n, fuel = n + 1 := ⟨fuel - 1, by omega⟩
    obtain ⟨parsed, stored⟩ :=
      (@formLoop_fileEnd boundary fuel postArgs client _ _ _ read begins isFile).1 ends
    rw [parsed, stored, count]
    exact ⟨fun no => (nomatch no), few⟩

/-- A form that is read to its end within the array is closed. -/
theorem closed_of_formLoop {fuel : Nat} : ∀ {postArgs : List RequestArgument} {client : Client},
    (formLoop boundary fuel postArgs client).parsed ≠ .waiting →
      (formLoop boundary fuel postArgs client).postArgs.length ≤ webserverMaxPostArgs →
        Closed boundary postArgs.length client ∧ postArgs.length ≤ webserverMaxPostArgs := by
  induction fuel with
  | zero => intro postArgs client returns; exact absurd rfl returns
  | succ fuel ih =>
    intro postArgs client returns inside
    rcases read : client.readLine with ⟨line, next⟩
    by_cases begins : BeginsPart line
    · rcases arg : argOf line with _ | ⟨name, isFile⟩
      · rw [formLoop_line read (.inr arg)] at returns inside
        obtain ⟨closed, few⟩ := ih returns inside
        exact ⟨.line read (.inr arg) closed, few⟩
      · cases isFile with
        | false =>
          rcases loop : valueLoop boundary ((skipType next).input.length + 1) [] (skipType next)
            with _ | ⟨value, last, rest⟩
          · rw [formLoop_endless read begins arg loop] at returns
            exact absurd rfl returns
          · have ends := ends_of_valueLoop loop
            rw [formLoop_value read begins arg loop] at returns inside
            cases closing : equals last (ofString "--" ++ boundary ++ ofString "--") with
            | true =>
              rw [closing, if_pos rfl] at inside
              have room : postArgs.length < webserverMaxPostArgs := by
                rw [List.length_append] at inside
                exact inside
              exact ⟨.lastField read begins arg ends room closing, Nat.le_of_lt room⟩
            | false =>
              rw [closing, if_neg Bool.false_ne_true] at returns inside
              obtain ⟨closed, few⟩ := ih returns inside
              rw [List.length_append] at closed few
              exact ⟨.field read begins arg ends few closing closed, Nat.le_of_lt few⟩
        | true =>
          obtain ⟨aborted, waits, ended⟩ :=
            @formLoop_fileEnd boundary fuel postArgs client _ _ _ read begins arg
          cases ends : (filePart name boundary (skipType next)).2 with
          | aborted =>
            obtain ⟨-, stored⟩ := aborted ends
            rw [stored] at inside
            exact ⟨.brokenOff read begins arg ends, inside⟩
          | waiting => exact absurd (waits ends) returns
          | ended rest =>
            cases closing : equalsText rest.readLine.1 (ofString "--") with
            | true =>
              obtain ⟨-, stored⟩ := (ended rest ends).1 closing
              rw [stored] at inside
              exact ⟨.lastFile read begins arg ends closing, inside⟩
            | false =>
              obtain ⟨parsed, stored⟩ := (ended rest ends).2 closing
              rw [parsed] at returns
              rw [stored] at inside
              obtain ⟨closed, few⟩ := ih returns inside
              exact ⟨.file read begins arg ends closing closed, few⟩
    · rw [formLoop_line read (.inl begins)] at returns inside
      obtain ⟨closed, few⟩ := ih returns inside
      exact ⟨.line read (.inl begins) closed, few⟩

/-- **Forms that end within the array.** A call of `_parseForm` returns and stays inside of
`_postArgs` exactly if the body does not begin with its boundary, or is a closed form with room
for its fields. -/
theorem parseForm_safe (client : Client) (boundary : WString) :
    (∀ form, parseForm client boundary = some form → Safe form) ↔
      (equals (firstLine 2 client).1 (ofString "--" ++ boundary) = true →
        Closed boundary 0 ((firstLine 2 client).2.readStringUntil 0x0a).2) := by
  rw [parseForm]
  dsimp only
  split
  · rename_i begins
    constructor
    · intro safe _
      obtain ⟨returns, inside, -⟩ := safe _ rfl
      exact (closed_of_formLoop returns inside).1
    · intro closed form same
      obtain rfl := Option.some.inj same
      exact (safe_iff _).mpr (formLoop_closed (closed begins) (Nat.lt_succ_self _) rfl
        (Nat.zero_le _))
  · rename_i other
    exact iff_of_true (fun _ no => (nomatch no)) fun begins => absurd begins other

/-- A body that breaks off behind its first boundary. -/
theorem parseForm_truncated :
    let client : Client := ⟨[0x2d, 0x2d, 0x78, 0x0d, 0x0a].map some, true, 0, [], true⟩
    ∃ form, parseForm client (ofString "x") = some form ∧ form.parsed = .waiting ∧ ¬ Safe form := by
  intro client
  have waits : (parseForm client (ofString "x")).map Form.parsed = some .waiting := by decide
  obtain ⟨form, parsed, waiting⟩ := Option.map_eq_some_iff.mp waits
  exact ⟨form, parsed, waiting, fun safe => safe.1 waiting⟩

end Esp8266.Source.WebServer
