import Esp8266.Guarantees.MultipartFiles

/-!
# Multipart bodies

A body is its parts with the boundary between them. Its files reach the upload handler as they
were sent exactly if the scan of each of them sees its end.
-/
set_option autoImplicit false

namespace Esp8266.Source.WebServer
open Esp8266.Source.QueryString Esp8266.Source.WString

/-! ## Bodies -/

/-- The parts of a form, each with the type that its header may give. A field is the lines of
its value. -/
inductive Part where
  | field (name : WString) (type : Option WString) (lines : List WString)
  | file (name filename : WString) (type : Option WString) (content : List UInt8)

/-- A line in front of other text. -/
def lineThen (line behind : List UInt8) : List UInt8 := line ++ 0x0d :: 0x0a :: behind

theorem lineThen_ne_nil (line behind : List UInt8) : lineThen line behind ≠ [] :=
  List.append_ne_nil_of_right_ne_nil _ (List.cons_ne_nil _ _)

/-- The text up to the name of a part. -/
def formData : WString := ofString "Content-Disposition: form-data; name"

def Part.disposition : Part → WString
  | field name _ _ => formData ++ 0x3d :: 0x22 :: (name ++ ofString "\"")
  | file name filename _ _ =>
    formData ++ 0x3d :: 0x22 :: (name ++ ofString "\"; filename=\"" ++ filename ++ ofString "\"")

def typeThen : Option WString → List UInt8 → List UInt8
  | none, behind => behind
  | some type, behind => lineThen (ofString "Content-Type: " ++ type) behind

/-- The start of a line that ends a part. -/
def dashBoundary (boundary : WString) : WString := ofString "--" ++ boundary

/-- A part and the boundary behind it. -/
def Part.textThen (boundary : WString) (part : Part) (behind : List UInt8) : List UInt8 :=
  lineThen part.disposition <|
    match part with
    | field _ type lines =>
      typeThen type (lineThen [] (lines.foldr lineThen (dashBoundary boundary ++ behind)))
    | file _ _ type content =>
      typeThen type (lineThen [] (content ++ (delimiter boundary ++ behind)))

/-- What is behind a boundary: parts or the end of the body. -/
def partsThen (boundary : WString) : List Part → List UInt8 → List UInt8
  | [], epilogue => lineThen (ofString "--") epilogue
  | part :: parts, epilogue =>
    lineThen [] (part.textThen boundary (partsThen boundary parts epilogue))

def bodyText (boundary : WString) (parts : List Part) (epilogue : List UInt8) : List UInt8 :=
  dashBoundary boundary ++ partsThen boundary parts epilogue

/-- The names, types and values stay within their lines, and the name of a field is none that
the parser takes for the name of a file. -/
def Part.WellFormed (boundary : WString) : Part → Prop
  | field name type lines =>
    (0 ∉ name ∧ 0x0d ∉ name ∧ 0x3d ∉ name) ∧ (∀ text ∈ type, 0x0d ∉ text) ∧
      ∀ line ∈ lines, 0x0d ∉ line ∧ startsWith line (dashBoundary boundary) = false
  | file name filename type _ =>
    (0 ∉ name ∧ 0x0d ∉ name ∧ 0x22 ∉ name) ∧ (0 ∉ filename ∧ 0x0d ∉ filename) ∧
      ∀ text ∈ type, 0x0d ∉ text

/-! ## Headers of parts -/

theorem indexOf_mem {s : WString} (ch : UInt8) (mem : ch ∈ s) (plain : 0 ∉ s) (ch_ne : ch ≠ 0) :
    indexOf s ch 0 ≠ -1 := by
  obtain ⟨before, behind, rfl, first⟩ := List.eq_append_cons_of_mem mem
  rw [List.mem_append, not_or] at plain
  have found := indexOf_found [] before behind plain.1 first ch_ne
  rw [List.nil_append, List.length_nil] at found
  rw [found]
  omega

/-- The name begins behind the first equals sign and a quote. -/
theorem argOf_formData {rest : WString} (plain : 0 ∉ rest) :
    argOf (formData ++ 0x3d :: 0x22 :: rest) =
      if indexOf rest 0x3d 0 = -1 then some (substring rest 0 (rest.length - 1), false)
      else some (substring rest 0 (rightEnd rest (indexOf rest 0x22 0)), true) := by
  have start : indexOf (formData ++ 0x3d :: 0x22 :: rest) 0x3d 0 = formData.length := by
    have found := indexOf_found [] formData (0x22 :: rest) (by decide)
      (by decide) (show (0x3d : UInt8) ≠ 0 by decide)
    rw [List.nil_append, List.length_nil, Nat.zero_add] at found
    exact found
  have name : substring (formData ++ 0x3d :: 0x22 :: rest) (formData.length + 2)
      (formData ++ 0x3d :: 0x22 :: rest).length = rest := by
    have ending := substring_end (formData ++ [0x3d, 0x22]) rest
    rw [List.append_assoc, List.length_append, cstr_of_not_mem plain] at ending
    exact ending
  unfold argOf
  rw [start]
  dsimp only
  rw [if_neg (by omega), Int.toNat_natCast, name]

theorem argOf_field (boundary : WString) {name : WString} {type : Option WString}
    {lines : List WString} (wellFormed : (Part.field name type lines).WellFormed boundary) :
    argOf (Part.field name type lines).disposition = some (name, false) := by
  obtain ⟨⟨plain, -, noEquals⟩, -⟩ := wellFormed
  have wholePlain : 0 ∉ name ++ ofString "\"" := by
    rw [List.mem_append, not_or]
    exact ⟨plain, by decide⟩
  have absent : indexOf (name ++ ofString "\"") 0x3d 0 = -1 := by
    refine indexOf_absent [] (name ++ ofString "\"") ?_ (show (0x3d : UInt8) ≠ 0 by decide)
    rw [cstr_of_not_mem wholePlain, List.mem_append, not_or]
    exact ⟨noEquals, by decide⟩
  rw [Part.disposition, argOf_formData wholePlain, if_pos absent]
  have whole := substring_append [] name (ofString "\"") plain
  rw [List.nil_append, List.length_nil, Nat.zero_add] at whole
  rw [List.length_append, show (ofString "\"").length = 1 from rfl, Nat.add_sub_cancel, whole]

theorem argOf_file (boundary : WString) {name filename : WString} {type : Option WString}
    {content : List UInt8}
    (wellFormed : (Part.file name filename type content).WellFormed boundary) :
    argOf (Part.file name filename type content).disposition = some (name, true) := by
  obtain ⟨⟨plain, -, noQuote⟩, ⟨filePlain, -⟩, -⟩ := wellFormed
  have wholePlain : 0 ∉ name ++ ofString "\"; filename=\"" ++ filename ++ ofString "\"" := by
    simp only [List.mem_append, not_or]
    exact ⟨⟨⟨plain, by decide⟩, filePlain⟩, by decide⟩
  have present := indexOf_mem 0x3d (by
    simp only [List.mem_append]
    exact .inl (.inl (.inr (by decide)))) wholePlain (by decide)
  rw [Part.disposition, argOf_formData wholePlain, if_neg present]
  have text : name ++ ofString "\"; filename=\"" ++ filename ++ ofString "\"" =
      [] ++ (name ++ 0x22 :: (ofString "; filename=\"" ++ filename ++ ofString "\"")) := by
    rw [List.nil_append, List.append_assoc, List.append_assoc, List.append_assoc]
    rfl
  have quote := indexOf_found [] name (ofString "; filename=\"" ++ filename ++ ofString "\"")
    plain noQuote (by decide)
  have whole := substring_append [] name
    (0x22 :: (ofString "; filename=\"" ++ filename ++ ofString "\"")) plain
  rw [List.length_nil, Nat.zero_add] at quote whole
  rw [text, quote, rightEnd_natCast, whole]

/-- The line is one that begins a part. -/
theorem disposition_begins (part : Part) :
    part.disposition.length > 19 ∧
      equalsIgnoreCase (substring part.disposition 0 19) (ofString "Content-Disposition") := by
  have begins : ∀ rest : WString, (formData ++ rest).length > 19 ∧
      equalsIgnoreCase (substring (formData ++ rest) 0 19) (ofString "Content-Disposition") := by
    intro rest
    have head := substring_append [] (ofString "Content-Disposition")
      (ofString ": form-data; name" ++ rest) (by decide)
    rw [List.nil_append, List.length_nil, Nat.zero_add, ← List.append_assoc] at head
    constructor
    · rw [List.length_append, show formData.length = 36 from rfl]
      omega
    · exact (congrArg (equalsIgnoreCase · (ofString "Content-Disposition")) head).trans
        (by decide)
  cases part with
  | field name type lines => exact begins _
  | file name filename type content => exact begins _

theorem disposition_line (boundary : WString) {part : Part}
    (wellFormed : part.WellFormed boundary) : 0x0d ∉ part.disposition := by
  have plain : (0x0d : UInt8) ∉ formData := by decide
  cases part with
  | field name type lines =>
    simp only [Part.disposition, List.mem_append, List.mem_cons, not_or]
    exact ⟨plain, by decide, by decide, wellFormed.1.2.1, by decide⟩
  | file name filename type content =>
    simp only [Part.disposition, List.mem_append, List.mem_cons, not_or]
    exact ⟨plain, by decide, by decide, ⟨⟨wellFormed.1.2.1, by decide⟩,
      wellFormed.2.1.2⟩, by decide⟩

section
variable (client : Client) (stack : List (List UInt8))

theorem skipType_feed {type : Option WString} (plain : ∀ text ∈ type, 0x0d ∉ text)
    (behind : List UInt8) :
    skipType (client.feed (typeThen type (lineThen [] behind)) stack) =
      client.feed behind stack := by
  have blank := readLine_feed client stack [] behind List.not_mem_nil
  cases type with
  | none =>
    rw [skipType]
    simp only [typeThen, lineThen, blank]
    rw [if_neg (by simp)]
  | some text =>
    have head := substring_append [] (ofString "Content-Type") (ofString ": " ++ text)
      (by decide)
    rw [List.nil_append, List.length_nil, Nat.zero_add, ← List.append_assoc] at head
    have first := readLine_feed client stack (ofString "Content-Type: " ++ text) (lineThen [] behind)
      (by
        rw [List.mem_append, not_or]
        exact ⟨by decide, plain text rfl⟩)
    rw [skipType]
    simp only [typeThen, lineThen] at first ⊢
    simp only [first]
    rw [if_pos]
    · exact congrArg Prod.snd blank
    · constructor
      · rw [List.length_append, show (ofString "Content-Type: ").length = 14 from rfl]
        omega
      · exact (congrArg (equalsIgnoreCase · (ofString "Content-Type")) head).trans
          (by decide)

theorem lines_length (lines : List WString) (behind : List UInt8) :
    lines.length < (client.feed (lines.foldr lineThen behind) stack).input.length + 1 := by
  rw [Client.feed, List.length_map, Nat.lt_succ_iff]
  induction lines with
  | nil => exact Nat.zero_le _
  | cons line lines ih =>
    simp only [List.foldr_cons, lineThen, List.length_append, List.length_cons]
    omega

/-- A value is read up to the line with the boundary. -/
theorem valueLoop_feed (boundary : WString) {last : WString} (lastLine : 0x0d ∉ last)
    (behind : List UInt8) (lines : List WString) :
    ∀ (fuel : Nat) (value : WString), lines.length < fuel →
      (∀ line ∈ lines, 0x0d ∉ line ∧ startsWith line (dashBoundary boundary) = false) →
      startsWith last (dashBoundary boundary) = true →
      ∃ value', valueLoop boundary fuel value
          (client.feed (lines.foldr lineThen (lineThen last behind)) stack) =
        some (value', last, client.feed behind stack) := by
  induction lines with
  | nil =>
    intro fuel value enough _ ends
    obtain _ | fuel := fuel
    · cases enough
    refine ⟨value, ?_⟩
    rw [valueLoop, List.foldr_nil, lineThen, readLine_feed client stack last behind lastLine]
    exact if_pos ends
  | cons line lines ih =>
    intro fuel value enough goesOn ends
    obtain _ | fuel := fuel
    · cases enough
    obtain ⟨plain, other⟩ := goesOn line List.mem_cons_self
    obtain ⟨value', rest⟩ := ih fuel
      ((if 0 < value.length then value ++ [0x0a] else value) ++ line)
      (Nat.lt_of_succ_lt_succ enough) (fun line mem => goesOn line (List.mem_cons_of_mem _ mem))
      ends
    refine ⟨value', ?_⟩
    rw [valueLoop, List.foldr_cons, lineThen, readLine_feed client stack line _ plain]
    dsimp only
    rw [if_neg (by
      rw [show startsWith line (ofString "--" ++ boundary) = false from other]
      exact Bool.false_ne_true)]
    exact rest

end

/-! ## Exact uploads -/

/-- Each file is handed on as a start, writes of its content, and an end with its length. -/
def ExactUploads : List Part → List HTTPUpload → Prop
  | [], uploads => uploads = []
  | .field _ _ _ :: parts, uploads => ExactUploads parts uploads
  | .file name _ _ content :: parts, uploads => ∃ start writes last later,
    uploads = start :: (writes ++ last :: later) ∧
      (start.status = .fileStart ∧ start.name = name) ∧
      ((∀ w ∈ writes, IsWriteOf name w) ∧ handed writes = content) ∧
      (last.status = .fileEnd ∧ last.name = name ∧ last.totalSize = content.length) ∧
      ExactUploads parts later

/-- The scan of each file sees its end, with what the stack holds behind the file before it. -/
def Seamless (boundary : WString) : List Part → List (List UInt8) → Prop
  | [], _ => True
  | .field _ _ _ :: parts, stack => Seamless boundary parts stack
  | .file _ _ _ content :: parts, stack =>
    ∃ after, scanned boundary 0 content stack = some after ∧ Seamless boundary parts after.tail

/-- Writes end at the first upload that is none. -/
theorem writes_split {name : WString} {writes : List HTTPUpload} :
    ∀ {writes' : List HTTPUpload} {last last' : HTTPUpload} {later later' : List HTTPUpload},
      writes ++ last :: later = writes' ++ last' :: later' →
      (∀ w ∈ writes, IsWriteOf name w) → (∀ w ∈ writes', IsWriteOf name w) →
      last.status = .fileEnd → last'.status = .fileEnd → later = later' := by
  induction writes with
  | nil =>
    intro writes' last last' later later' same _ all ends _
    cases writes' with
    | nil => exact (List.cons.inj same).2
    | cons w writes' =>
      obtain ⟨rfl, -⟩ := List.cons.inj same
      have isWrite := (all _ List.mem_cons_self).1
      rw [ends] at isWrite
      cases isWrite
  | cons w writes ih =>
    intro writes' last last' later later' same all all' ends ends'
    cases writes' with
    | nil =>
      obtain ⟨rfl, -⟩ := List.cons.inj same
      have isWrite := (all _ List.mem_cons_self).1
      rw [ends'] at isWrite
      cases isWrite
    | cons w' writes' =>
      exact ih (List.cons.inj same).2 (fun w mem => all w (List.mem_cons_of_mem _ mem))
        (fun w mem => all' w (List.mem_cons_of_mem _ mem)) ends ends'

/-- Behind a file that was handed on whole, the rest is exact or not. -/
theorem exactUploads_file {name : WString} (filename : WString) (type : Option WString)
    {content : List UInt8} {left : Client} {read : FileRead} {start : HTTPUpload}
    (whole : Whole ⟨.fileWrite, name, 0, []⟩ content left read)
    (starts : start.status = .fileStart ∧ start.name = name) (parts : List Part)
    (later : List HTTPUpload) :
    ExactUploads (.file name filename type content :: parts) (start :: read.1 ++ later) ↔
      ExactUploads parts later := by
  obtain ⟨writes, last, rfl, all, bytes, size⟩ := whole
  have shape : start :: (writes ++ [last, last.finished]) ++ later =
      start :: ((writes ++ [last]) ++ last.finished :: later) := by
    simp only [List.cons_append, List.append_assoc, List.nil_append]
  have lastName : last.name = name := (all last (List.mem_append_right _ List.mem_cons_self)).2
  dsimp only
  rw [shape]
  constructor
  · rintro ⟨start', writes', last', later', same, -, ⟨all', -⟩, ⟨ends', -, -⟩, exact'⟩
    rwa [writes_split (List.cons.inj same).2 all all' rfl ends']
  · intro exactRest
    refine ⟨start, writes ++ [last], last.finished, later, rfl, starts, ⟨all, bytes⟩,
      ⟨rfl, lastName, ?_⟩, exactRest⟩
    rw [HTTPUpload.finished, size]
    exact Nat.zero_add _

/-- A file that does not end with its size is not exact, whatever follows it. -/
theorem not_exact {fileEnd : FileEnd} {uploads : List HTTPUpload}
    (file : FileUploads fileEnd uploads) {name : WString} {size : Nat}
    (noEnd : NoEnd size (uploads, fileEnd)) {more : List HTTPUpload}
    (goesOn : (∃ client, fileEnd = .ended client) ∨ more = []) :
    ∀ {writes : List HTTPUpload} {last : HTTPUpload} {later : List HTTPUpload},
      uploads ++ more = writes ++ last :: later → (∀ w ∈ writes, IsWriteOf name w) →
      last.status = .fileEnd → last.totalSize ≠ size := by
  induction file with
  | @ended upload client isEnd =>
    intro writes last later same all ends
    cases writes with
    | nil =>
      obtain ⟨rfl, -⟩ := List.cons.inj same
      exact noEnd _ List.mem_cons_self ends
    | cons w writes =>
      obtain ⟨rfl, -⟩ := List.cons.inj same
      have isWrite := (all _ List.mem_cons_self).1
      rw [isEnd] at isWrite
      cases isWrite
  | @aborted upload isAborted =>
    intro writes last later same all ends
    cases writes with
    | nil =>
      obtain ⟨rfl, -⟩ := List.cons.inj same
      rw [isAborted] at ends
      cases ends
    | cons w writes =>
      obtain ⟨rfl, -⟩ := List.cons.inj same
      have isWrite := (all _ List.mem_cons_self).1
      rw [isAborted] at isWrite
      cases isWrite
  | waiting =>
    intro writes last later same _ _
    obtain ⟨client, ended⟩ | rfl := goesOn
    · cases ended
    · exact absurd same.symm (List.append_ne_nil_of_right_ne_nil _ (List.cons_ne_nil _ _))
  | @write upload uploads fileEnd isWrite rest ih =>
    intro writes last later same all ends
    cases writes with
    | nil =>
      obtain ⟨rfl, -⟩ := List.cons.inj same
      rw [isWrite.1] at ends
      cases ends
    | cons w writes =>
      exact ih (fun handedOn mem => noEnd handedOn (List.mem_cons_of_mem _ mem)) goesOn
        (List.cons.inj same).2 (fun w mem => all w (List.mem_cons_of_mem _ mem)) ends

/-- What follows a file of a form. -/
def afterFile (boundary : WString) (fuel : Nat) (postArgs : List RequestArgument) :
    FileRead → Form
  | (uploads, .aborted) => ⟨uploads, postArgs, .refused⟩
  | (uploads, .waiting) => ⟨uploads, postArgs, .waiting⟩
  | (uploads, .ended client) =>
    if equalsText client.readLine.1 (ofString "--") then ⟨uploads, postArgs, .accepted⟩
    else
      let form := formLoop boundary fuel postArgs client.readLine.2
      { form with uploads := uploads ++ form.uploads }

theorem afterFile_uploads (boundary : WString) (fuel : Nat) (postArgs : List RequestArgument)
    (uploads : List HTTPUpload) (fileEnd : FileEnd) :
    ∃ more, (afterFile boundary fuel postArgs (uploads, fileEnd)).uploads = uploads ++ more ∧
      ((∃ client, fileEnd = .ended client) ∨ more = []) := by
  cases fileEnd with
  | aborted => exact ⟨[], (List.append_nil _).symm, .inr rfl⟩
  | waiting => exact ⟨[], (List.append_nil _).symm, .inr rfl⟩
  | ended client =>
    rw [afterFile]
    split
    · exact ⟨[], (List.append_nil _).symm, .inr rfl⟩
    · exact ⟨_, rfl, .inl ⟨client, rfl⟩⟩

theorem filePart_feed (boundary : WString) (client : Client) (plain : 0 ∉ boundary)
    (stack : List (List UInt8)) (name : WString) (content : List UInt8) {behind : List UInt8}
    (more : behind ≠ []) :
    ∃ (start : HTTPUpload) (read : FileRead),
      filePart name boundary (client.feed (content ++ (delimiter boundary ++ behind)) stack) =
        (start :: read.1, read.2) ∧
      (start.status = .fileStart ∧ start.name = name) ∧ FileUploads read.2 read.1 ∧
      Outcome ⟨.fileWrite, name, 0, []⟩ content (fun stack => client.feed behind stack.tail)
        (scanned boundary 0 content stack) read := by
  obtain ⟨c, input, split, -⟩ := stream_cons boundary more content
  have sizes := congrArg List.length split
  have enough : content.length < (client.feed input stack).input.length + 2 := by
    rw [Client.feed, List.length_map]
    simp only [List.length_append, List.length_cons] at sizes
    omega
  refine ⟨⟨.fileStart, name, 0, []⟩, readFile boundary
    ((client.feed input stack).input.length + 2) c (client.feed input stack)
      ⟨.fileWrite, name, 0, []⟩, ?_, ⟨rfl, rfl⟩, ?_, ?_⟩
  · rw [split, filePart]
    simp only [uploadReadByte_feed]
  · exact readFile_uploads boundary _ _ _ _ ⟨rfl, Nat.zero_le _⟩
  · exact readFile_outcome boundary client plain more content.length content c input stack _ _
      (Nat.le_refl _) split.symm enough rfl

section
variable (boundary : WString) (client : Client) (plain : 0 ∉ boundary) (inLine : 0x0d ∉ boundary)
include plain inLine

omit plain in
/-- A field is followed by the next part or ends the form. -/
theorem formLoop_field {name : WString} {type : Option WString} {lines : List WString}
    (wellFormed : (Part.field name type lines).WellFormed boundary) (fuel : Nat)
    (postArgs : List RequestArgument) (stack : List (List UInt8)) {suffix : WString}
    (suffixLine : 0x0d ∉ suffix) (behind : List UInt8) :
    ∃ args, formLoop boundary (fuel + 1) postArgs
        (client.feed ((Part.field name type lines).textThen boundary (lineThen suffix behind))
          stack) =
      if equals (dashBoundary boundary ++ suffix) (dashBoundary boundary ++ ofString "--") then
        ⟨[], args, .accepted⟩
      else formLoop boundary fuel args (client.feed behind stack) := by
  have last : dashBoundary boundary ++ lineThen suffix behind =
      lineThen (dashBoundary boundary ++ suffix) behind := by
    rw [lineThen, lineThen, List.append_assoc]
  have lastLine : 0x0d ∉ dashBoundary boundary ++ suffix := by
    simp only [dashBoundary, List.mem_append, not_or]
    exact ⟨⟨by decide, inLine⟩, suffixLine⟩
  obtain ⟨value, read⟩ := valueLoop_feed client stack boundary lastLine behind lines
    ((client.feed (lines.foldr lineThen (lineThen (dashBoundary boundary ++ suffix) behind))
      stack).input.length + 1) [] (lines_length client stack lines _) wellFormed.2.2
    (List.isPrefixOf_iff_prefix.mpr (List.prefix_append _ _))
  refine ⟨postArgs ++ [⟨name, value⟩], ?_⟩
  have line := readLine_feed client stack (Part.field name type lines).disposition
    (typeThen type (lineThen [] (lines.foldr lineThen
      (lineThen (dashBoundary boundary ++ suffix) behind))))
    (disposition_line boundary wellFormed)
  rw [formLoop, Part.textThen, last, lineThen]
  simp only [line]
  rw [if_pos (disposition_begins _), argOf_field boundary wellFormed]
  simp only [skipType_feed client stack wellFormed.2.1, Bool.not_false, if_true, read]
  rfl

section
variable {name filename : WString} {type : Option WString} {content : List UInt8}
  (wellFormed : (Part.file name filename type content).WellFormed boundary) (fuel : Nat)
  (postArgs : List RequestArgument) (stack : List (List UInt8)) {suffix : WString}
  (suffixLine : 0x0d ∉ suffix) (behind : List UInt8)
include wellFormed

omit plain inLine in
theorem formLoop_filePart :
    formLoop boundary (fuel + 1) postArgs
        (client.feed ((Part.file name filename type content).textThen boundary behind) stack) =
      afterFile boundary fuel postArgs (filePart name boundary
        (client.feed (content ++ (delimiter boundary ++ behind)) stack)) := by
  have line := readLine_feed client stack (Part.file name filename type content).disposition
    (typeThen type (lineThen [] (content ++ (delimiter boundary ++ behind))))
    (disposition_line boundary wellFormed)
  rw [formLoop, Part.textThen, lineThen]
  simp only [line]
  rw [if_pos (disposition_begins _), argOf_file boundary wellFormed]
  simp only [skipType_feed client stack wellFormed.2.2, Bool.not_true, Bool.false_eq_true,
    if_false]
  rfl

omit inLine in
include suffixLine in
/-- A file whose end is seen is followed by the next part or ends the form. -/
theorem formLoop_file {after : List (List UInt8)}
    (seen : scanned boundary 0 content stack = some after) :
    ∃ (start : HTTPUpload) (read : FileRead),
      (start.status = .fileStart ∧ start.name = name) ∧
      Whole ⟨.fileWrite, name, 0, []⟩ content
        (client.feed (lineThen suffix behind) after.tail) read ∧
      formLoop boundary (fuel + 1) postArgs
        (client.feed ((Part.file name filename type content).textThen boundary
          (lineThen suffix behind)) stack) =
        if equalsText suffix (ofString "--") then ⟨start :: read.1, postArgs, .accepted⟩
        else
          let form := formLoop boundary fuel postArgs (client.feed behind after.tail)
          { form with uploads := start :: read.1 ++ form.uploads } := by
  obtain ⟨start, read, part, starts, -, outcome⟩ := filePart_feed boundary client plain stack name
    content (lineThen_ne_nil suffix behind)
  rw [seen] at outcome
  refine ⟨start, read, starts, outcome, ?_⟩
  obtain ⟨writes, last, rfl, -, -, -⟩ := outcome
  rw [formLoop_filePart boundary client wellFormed, part, afterFile]
  have line := readLine_feed client after.tail suffix behind suffixLine
  simp only [lineThen, line]

omit inLine in
/-- A file whose end is not seen is not handed on as it is. -/
theorem formLoop_missed (more : behind ≠ [])
    (missed : scanned boundary 0 content stack = none) (parts : List Part) :
    ¬ ExactUploads (.file name filename type content :: parts)
      (formLoop boundary (fuel + 1) postArgs (client.feed
        ((Part.file name filename type content).textThen boundary behind) stack)).uploads := by
  obtain ⟨start, read, part, -, file, outcome⟩ := filePart_feed boundary client plain stack name
    content more
  rw [missed] at outcome
  rw [formLoop_filePart boundary client wellFormed, part]
  obtain ⟨uploads, fileEnd⟩ := read
  have noEnd : NoEnd content.length (uploads, fileEnd) := by
    have sizes : 0 + 0 + content.length = content.length := Nat.zero_add _
    rw [← sizes]
    exact outcome
  obtain ⟨more, shape, goesOn⟩ := afterFile_uploads boundary fuel postArgs
    (start :: uploads) fileEnd
  rw [shape]
  rintro ⟨start', writes, last, later, same, -, ⟨all, -⟩, ⟨ends, -, size⟩, -⟩
  exact not_exact file noEnd goesOn (List.cons.inj same).2 all ends size

end

theorem formLoop_feed (epilogue : List UInt8) (parts : List Part) :
    ∀ (part : Part) (fuel : Nat) (postArgs : List RequestArgument) (stack : List (List UInt8)),
      (∀ part' ∈ part :: parts, part'.WellFormed boundary) → parts.length < fuel →
      let form := formLoop boundary fuel postArgs
        (client.feed (part.textThen boundary (partsThen boundary parts epilogue)) stack)
      ExactUploads (part :: parts) form.uploads ↔ Seamless boundary (part :: parts) stack := by
  induction parts with
  | nil =>
    intro part fuel postArgs stack wellFormed enough
    obtain _ | fuel := fuel
    · cases enough
    have partFormed := wellFormed part List.mem_cons_self
    cases part with
    | field name type lines =>
      obtain ⟨args, form⟩ := formLoop_field boundary client inLine partFormed fuel postArgs stack
        (by decide : 0x0d ∉ ofString "--") epilogue
      dsimp only [partsThen]
      rw [form, if_pos (by simp [equals])]
      simp only [ExactUploads, Seamless]
    | file name filename type content =>
      dsimp only [partsThen]
      cases seen : scanned boundary 0 content stack with
      | none =>
        refine iff_of_false (formLoop_missed boundary client plain partFormed fuel postArgs stack _
          (lineThen_ne_nil _ _) seen []) ?_
        rintro ⟨after, some, -⟩
        cases seen.symm.trans some
      | some after =>
        obtain ⟨start, read, starts, whole, form⟩ := formLoop_file boundary client plain partFormed
          fuel postArgs stack (by decide : 0x0d ∉ ofString "--") epilogue seen
        have exactly := exactUploads_file filename type whole starts [] []
        rw [List.append_nil] at exactly
        rw [form, if_pos (by decide), exactly]
        simp only [ExactUploads, Seamless, seen, Option.some.injEq, and_true, exists_eq']
  | cons next parts ih =>
    intro part fuel postArgs stack wellFormed enough
    obtain _ | fuel := fuel
    · cases enough
    have partFormed := wellFormed part List.mem_cons_self
    have behind := fun postArgs stack => ih next fuel postArgs stack
      (fun part' mem => wellFormed part' (List.mem_cons_of_mem _ mem))
      (Nat.lt_of_succ_lt_succ enough)
    dsimp only at behind
    cases part with
    | field name type lines =>
      obtain ⟨args, form⟩ := formLoop_field boundary client inLine partFormed fuel postArgs stack
        List.not_mem_nil (next.textThen boundary (partsThen boundary parts epilogue))
      dsimp only [partsThen]
      rw [form, if_neg (by simp [equals, ofString])]
      exact behind args stack
    | file name filename type content =>
      dsimp only [partsThen]
      cases seen : scanned boundary 0 content stack with
      | none =>
        refine iff_of_false (formLoop_missed boundary client plain partFormed fuel postArgs stack _
          (lineThen_ne_nil _ _) seen _) ?_
        rintro ⟨after, some, -⟩
        cases seen.symm.trans some
      | some after =>
        obtain ⟨start, read, starts, whole, form⟩ := formLoop_file boundary client plain partFormed
          fuel postArgs stack List.not_mem_nil
          (next.textThen boundary (partsThen boundary parts epilogue)) seen
        rw [form, if_neg (by decide), exactUploads_file _ _ whole starts, behind]
        rw [Seamless, seen]
        constructor
        · intro rest
          exact ⟨after, rfl, rest⟩
        · rintro ⟨after', same, rest⟩
          cases same
          exact rest

omit plain inLine in
theorem textThen_length (part : Part) (behind : List UInt8) :
    behind.length ≤ (part.textThen boundary behind).length := by
  have typeLength : ∀ (type : Option WString) (rest : List UInt8),
      rest.length ≤ (typeThen type rest).length := by
    intro type rest
    cases type with
    | none => exact Nat.le_refl _
    | some text =>
      simp only [typeThen, lineThen, List.length_append, List.length_cons]
      omega
  have linesLength : ∀ (lines : List WString) (rest : List UInt8),
      rest.length ≤ (lines.foldr lineThen rest).length := by
    intro lines rest
    induction lines with
    | nil => exact Nat.le_refl _
    | cons line lines ih =>
      simp only [List.foldr_cons, lineThen, List.length_append, List.length_cons]
      omega
  cases part with
  | field name type lines =>
    have header := typeLength type
      (lineThen [] (lines.foldr lineThen (dashBoundary boundary ++ behind)))
    have value := linesLength lines (dashBoundary boundary ++ behind)
    rw [Part.textThen, lineThen, List.length_append, List.length_cons, List.length_cons]
    simp only [lineThen, List.length_append, List.length_cons, List.length_nil] at header value ⊢
    omega
  | file name filename type content =>
    have header := typeLength type (lineThen [] (content ++ (delimiter boundary ++ behind)))
    rw [Part.textThen, lineThen, List.length_append, List.length_cons, List.length_cons]
    simp only [lineThen, List.length_append, List.length_cons, List.length_nil] at header ⊢
    omega

omit plain inLine in
theorem parts_length (epilogue : List UInt8) (parts : List Part) :
    parts.length ≤ (partsThen boundary parts epilogue).length := by
  induction parts with
  | nil => exact Nat.zero_le _
  | cons part parts ih =>
    have behind := textThen_length boundary part (partsThen boundary parts epilogue)
    rw [partsThen, lineThen, List.nil_append]
    simp only [List.length_cons]
    omega

omit plain in
/-- A body is read from its first boundary on. -/
theorem parseForm_feed (part : Part) (parts : List Part) (epilogue : List UInt8)
    (stack : List (List UInt8)) :
    parseForm (client.feed (bodyText boundary (part :: parts) epilogue) stack) boundary =
      some (formLoop boundary
        ((part.textThen boundary (partsThen boundary parts epilogue)).length + 1) []
        (client.feed (part.textThen boundary (partsThen boundary parts epilogue)) stack)) := by
  have first : (client.feed (bodyText boundary (part :: parts) epilogue) stack).readStringUntil
      0x0d = (dashBoundary boundary, client.feed
        (0x0a :: part.textThen boundary (partsThen boundary parts epilogue)) stack) :=
    readStringUntil_feed client stack 0x0d (dashBoundary boundary) _ (by
      rw [dashBoundary, List.mem_append, not_or]
      exact ⟨by decide, inLine⟩)
  have second := readStringUntil_feed client stack 0x0a []
    (part.textThen boundary (partsThen boundary parts epilogue)) List.not_mem_nil
  have line : firstLine 2 (client.feed (bodyText boundary (part :: parts) epilogue) stack) =
      (dashBoundary boundary, client.feed
        (0x0a :: part.textThen boundary (partsThen boundary parts epilogue)) stack) := by
    rw [firstLine, first]
    exact if_neg (by simp [dashBoundary, ofString])
  have length : (client.feed (part.textThen boundary (partsThen boundary parts epilogue))
      stack).input.length =
        (part.textThen boundary (partsThen boundary parts epilogue)).length := List.length_map _
  rw [parseForm, line]
  dsimp only
  rw [show (0x0a : UInt8) :: part.textThen boundary (partsThen boundary parts epilogue) =
    [] ++ 0x0a :: part.textThen boundary (partsThen boundary parts epilogue) from rfl, second,
    length]
  exact if_pos (by simp [equals, dashBoundary])

/-- **Files of multipart bodies.** The files of a well-formed body are handed on exactly as they
were sent, each as a start, writes of its content and an end with its length, if and only if the
scan of each file sees its end. -/
theorem uploads_exact (part : Part) (parts : List Part)
    (wellFormed : ∀ part' ∈ part :: parts, part'.WellFormed boundary) (epilogue : List UInt8)
    (stack : List (List UInt8)) :
    ∃ form, parseForm (client.feed (bodyText boundary (part :: parts) epilogue) stack) boundary =
        some form ∧
      (ExactUploads (part :: parts) form.uploads ↔
        Seamless boundary (part :: parts) stack) := by
  refine ⟨_, parseForm_feed boundary client inLine part parts epilogue stack, ?_⟩
  refine formLoop_feed boundary client plain inLine epilogue parts part _ [] stack wellFormed ?_
  have behind := parts_length boundary epilogue parts
  have whole := textThen_length boundary part (partsThen boundary parts epilogue)
  omega

end

theorem uploads_exact_crlf : ∃ form,
    parseForm (Client.feed ⟨[], false, 0, [], true⟩
      (bodyText (ofString "xyz") [.field (ofString "a") none [ofString "1"],
        .file (ofString "f") (ofString "f.bin") (some (ofString "text/plain"))
          [0x0d, 0x0a, 0x2d, 0x2d, 0x31, 0x32, 0x33, 0x0d]] []) []) (ofString "xyz") = some form ∧
      (ExactUploads [.field (ofString "a") none [ofString "1"],
        .file (ofString "f") (ofString "f.bin") (some (ofString "text/plain"))
          [0x0d, 0x0a, 0x2d, 0x2d, 0x31, 0x32, 0x33, 0x0d]] form.uploads ↔
        Seamless (ofString "xyz") [.field (ofString "a") none [ofString "1"],
          .file (ofString "f") (ofString "f.bin") (some (ofString "text/plain"))
            [0x0d, 0x0a, 0x2d, 0x2d, 0x31, 0x32, 0x33, 0x0d]] []) :=
  uploads_exact (ofString "xyz") ⟨[], false, 0, [], true⟩ (by decide) (by decide)
    _ _ (by
      intro part mem
      simp only [List.mem_cons, List.not_mem_nil, or_false] at mem
      rcases mem with rfl | rfl
      · refine ⟨by decide, by simp, ?_⟩
        intro line only
        obtain rfl := List.mem_singleton.mp only
        decide
      · refine ⟨by decide, by decide, ?_⟩
        intro text only
        cases only
        decide) [] []

/-- A file that ends with CR LF and two hyphens: the next byte is one of the delimiter. -/
theorem uploads_delimiter_swallowed :
    ¬ delimiter (ofString "x") <:+: [0x0d, 0x0a, 0x2d, 0x2d] ∧
      ∃ form, parseForm (Client.feed ⟨[], false, 0, [], true⟩
          (bodyText (ofString "x")
            [.file (ofString "f") (ofString "f.bin") none [0x0d, 0x0a, 0x2d, 0x2d]] []) [])
            (ofString "x") = some form ∧
        form.parsed = .waiting ∧ ¬ ExactUploads
          [.file (ofString "f") (ofString "f.bin") none [0x0d, 0x0a, 0x2d, 0x2d]] form.uploads := by
  refine ⟨by decide, _, parseForm_feed (ofString "x") ⟨[], false, 0, [], true⟩
    (by decide) (.file (ofString "f") (ofString "f.bin") none [0x0d, 0x0a, 0x2d, 0x2d])
    [] [] [], by decide, ?_⟩
  exact formLoop_missed (ofString "x") ⟨[], false, 0, [], true⟩ (by decide)
    ⟨by decide, by decide, by simp⟩ _ [] [] _ (lineThen_ne_nil _ _)
    (by decide) []

end Esp8266.Source.WebServer
