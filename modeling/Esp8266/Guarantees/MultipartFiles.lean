import Esp8266.Guarantees.WebUploads

/-!
# Files in multipart bodies

What the upload handler is given of a file. `_parseForm` looks for CR LF and two hyphens and then
takes as many bytes as the boundary has, whatever they are; where these reach into the delimiter
behind the file, the end of the file is lost.
-/
set_option autoImplicit false

namespace Esp8266.Source.WebServer
open Esp8266.Source.WString

/-! ## Reading what was sent -/

/-- A client that sends these bytes without a pause. -/
def Client.feed (client : Client) (input : List UInt8) (stack : List (List UInt8)) : Client :=
  { client with input := input.map some, stack }

section
variable (client : Client) (stack : List (List UInt8))

theorem readUntil_map (terminator : UInt8) (line rest : List UInt8) (absent : terminator ∉ line) :
    Client.readUntil terminator ((line ++ terminator :: rest).map some) =
      (line, rest.map some) := by
  induction line with
  | nil =>
    rw [List.nil_append, List.map_cons, Client.readUntil, if_pos rfl]
  | cons c line ih =>
    rw [List.mem_cons, not_or] at absent
    rw [List.cons_append, List.map_cons, Client.readUntil, if_neg (Ne.symm absent.1), ih absent.2]

theorem readStringUntil_feed (terminator : UInt8) (line rest : List UInt8)
    (absent : terminator ∉ line) :
    (client.feed (line ++ terminator :: rest) stack).readStringUntil terminator =
      (line, client.feed rest stack) := by
  simp only [Client.readStringUntil, Client.feed, readUntil_map terminator line rest absent]

/-- A line with its CR and LF. -/
theorem readLine_feed (line rest : List UInt8) (absent : 0x0d ∉ line) :
    (client.feed (line ++ 0x0d :: 0x0a :: rest) stack).readLine =
      (line, client.feed rest stack) := by
  rw [Client.readLine, readStringUntil_feed client stack 0x0d line _ absent]
  dsimp only
  rw [show (0x0a : UInt8) :: rest = [] ++ 0x0a :: rest from rfl,
    readStringUntil_feed client stack 0x0a [] rest List.not_mem_nil]

theorem uploadReadByte_feed (c : UInt8) (rest : List UInt8) :
    (client.feed (c :: rest) stack).uploadReadByte = some (c, client.feed rest stack) := rfl

theorem isConnected_feed {rest : List UInt8} (more : rest ≠ []) :
    (client.feed rest stack).isConnected = (true, client.feed rest stack) := by
  rw [Client.isConnected, if_pos (.inl (by
    simpa [Client.feed] using more))]

theorem takeBytes_map (n : Nat) : ∀ bytes : List UInt8, n ≤ bytes.length →
    Client.takeBytes n (bytes.map some) = (bytes.take n, (bytes.drop n).map some) := by
  induction n with
  | zero =>
    intro bytes _
    cases bytes <;> rfl
  | succ n ih =>
    intro bytes enough
    cases bytes with
    | nil => cases enough
    | cons c rest =>
      rw [List.map_cons, Client.takeBytes, ih rest (Nat.le_of_succ_le_succ enough)]
      rfl

theorem readBytes_feed (n : Nat) (memory bytes : List UInt8) (enough : n ≤ bytes.length) :
    (client.feed bytes stack).readBytes n memory =
      (bytes.take n ++ memory.drop n, client.feed (bytes.drop n) stack) := by
  have length : (bytes.take n).length = n := by rw [List.length_take, Nat.min_eq_left enough]
  simp only [Client.readBytes, Client.feed, takeBytes_map n bytes enough, length]

/-- A byte that is followed by others. -/
theorem checkedByte_feed (c : UInt8) {rest : List UInt8} (more : rest ≠ []) (upload : HTTPUpload)
    (goOn : UInt8 → Client → FileRead) :
    checkedByte (client.feed (c :: rest) stack) upload goOn = goOn c (client.feed rest stack) := by
  simp only [checkedByte, uploadReadByte_feed, isConnected_feed client stack more, Bool.not_true,
    Bool.false_eq_true, if_false]

end

/-! ## What is written -/

/-- The bytes of the buffers. -/
def handed (uploads : List HTTPUpload) : List UInt8 := (uploads.map HTTPUpload.buf).flatten

theorem handed_append (xs ys : List HTTPUpload) : handed (xs ++ ys) = handed xs ++ handed ys := by
  simp only [handed, List.map_append, List.flatten_append]

/-- A write of the given upload. -/
def IsWriteOf (name : WString) (upload : HTTPUpload) : Prop :=
  upload.status = .fileWrite ∧ upload.name = name

/-- Bytes go into the buffer or are handed on. -/
theorem uploadWriteBytes_handed (name : WString) (bytes : List UInt8) :
    ∀ upload : HTTPUpload, IsWriteOf name upload →
      (∀ w ∈ (uploadWriteBytes bytes upload).1, IsWriteOf name w) ∧
        IsWriteOf name (uploadWriteBytes bytes upload).2 ∧
        handed (uploadWriteBytes bytes upload).1 ++ (uploadWriteBytes bytes upload).2.buf =
          upload.buf ++ bytes ∧
        (uploadWriteBytes bytes upload).2.totalSize +
            (uploadWriteBytes bytes upload).2.buf.length =
          upload.totalSize + upload.buf.length + bytes.length := by
  induction bytes with
  | nil =>
    intro upload isWrite
    exact ⟨by simp [uploadWriteBytes], isWrite, by simp [uploadWriteBytes, handed], rfl⟩
  | cons b bytes ih =>
    intro upload isWrite
    rw [uploadWriteBytes, uploadWriteByte]
    by_cases full : upload.buf.length = httpUploadBuflen
    · rw [if_pos full]
      obtain ⟨writes, kept, bytesEq, sizeEq⟩ := ih
        { upload with totalSize := upload.totalSize + upload.buf.length, buf := [b] } isWrite
      refine ⟨?_, kept, ?_, ?_⟩
      · intro w mem
        rcases List.mem_cons.mp mem with rfl | later
        · exact isWrite
        · exact writes w later
      · dsimp only at bytesEq ⊢
        rw [handed_append, List.append_assoc, bytesEq]
        simp [handed]
      · dsimp only at sizeEq ⊢
        rw [sizeEq]
        simp only [List.length_cons, List.length_nil]
        omega
    · rw [if_neg full]
      obtain ⟨writes, kept, bytesEq, sizeEq⟩ := ih { upload with buf := upload.buf ++ [b] } isWrite
      refine ⟨writes, kept, ?_, ?_⟩
      · dsimp only at bytesEq ⊢
        rw [List.nil_append, bytesEq, List.append_assoc]
        rfl
      · dsimp only at sizeEq ⊢
        rw [sizeEq]
        simp only [List.length_append, List.length_cons, List.length_nil]
        omega

/-- The end of an upload, with the size of the file. -/
def HTTPUpload.finished (upload : HTTPUpload) : HTTPUpload :=
  { upload with status := .fileEnd, totalSize := upload.totalSize + upload.buf.length }

/-- The file was read to its end: its content was handed on behind what was in the buffer. -/
def Whole (upload : HTTPUpload) (content : List UInt8) (left : Client) (read : FileRead) : Prop :=
  ∃ writes last, read = (writes ++ [last, last.finished], .ended left) ∧
    (∀ w ∈ writes ++ [last], IsWriteOf upload.name w) ∧
    handed (writes ++ [last]) = upload.buf ++ content ∧
    last.totalSize + last.buf.length =
      upload.totalSize + upload.buf.length + content.length

theorem writing_whole {upload : HTTPUpload} (isWrite : upload.status = .fileWrite)
    {bytes content : List UInt8} {left : Client} {rest : HTTPUpload → FileRead}
    (whole : ∀ upload, upload.status = .fileWrite → Whole upload content left (rest upload)) :
    Whole upload (bytes ++ content) left (writing bytes upload rest) := by
  obtain ⟨writes, kept, bytesEq, sizeEq⟩ :=
    uploadWriteBytes_handed upload.name bytes upload ⟨isWrite, rfl⟩
  unfold writing
  generalize uploadWriteBytes bytes upload = written at *
  obtain ⟨more, last, read, all, later, size⟩ := whole written.2 kept.1
  refine ⟨written.1 ++ more, last, ?_, ?_, ?_, ?_⟩
  · dsimp only
    rw [read, List.append_assoc]
  · intro w mem
    rw [List.append_assoc] at mem
    rcases List.mem_append.mp mem with early | late
    · exact writes w early
    · rw [← kept.2]
      exact all w late
  · rw [List.append_assoc, handed_append, later, ← List.append_assoc, bytesEq, List.append_assoc]
  · rw [size, sizeEq, List.length_append]
    omega

/-- No file of this size is ended. -/
def NoEnd (size : Nat) (read : FileRead) : Prop :=
  ∀ upload ∈ read.1, upload.status = .fileEnd → upload.totalSize ≠ size

theorem writing_noEnd {upload : HTTPUpload} (isWrite : upload.status = .fileWrite)
    {bytes : List UInt8} {size : Nat} {rest : HTTPUpload → FileRead}
    (noEnd : ∀ next : HTTPUpload, next.status = .fileWrite →
      next.totalSize + next.buf.length = upload.totalSize + upload.buf.length + bytes.length →
      NoEnd size (rest next)) : NoEnd size (writing bytes upload rest) := by
  obtain ⟨writes, kept, -, sizeEq⟩ :=
    uploadWriteBytes_handed upload.name bytes upload ⟨isWrite, rfl⟩
  intro handedOn mem ends
  rcases List.mem_append.mp mem with early | late
  · rw [(writes handedOn early).1] at ends
    cases ends
  · exact noEnd _ kept.1 sizeEq handedOn late ends

/-! ## Sizes only grow -/

theorem uploadAborted_noEnd (size : Nat) (upload : HTTPUpload) :
    NoEnd size (uploadAborted upload) := by
  intro handedOn mem ends
  rw [List.mem_singleton.mp mem] at ends
  cases ends

theorem waiting_noEnd (size : Nat) : NoEnd size ([], .waiting) :=
  fun _ none => absurd none List.not_mem_nil

theorem checkedByte_noEnd {size : Nat} (client : Client) (upload : HTTPUpload)
    {rest : UInt8 → Client → FileRead}
    (noEnd : ∀ argByte client, NoEnd size (rest argByte client)) :
    NoEnd size (checkedByte client upload rest) := by
  unfold checkedByte
  split
  · exact waiting_noEnd size
  · dsimp only
    split
    · exact uploadAborted_noEnd size upload
    · exact noEnd _ _

/-- A file does not end with less than was written. -/
theorem uncheckedByte_noEnd (boundary : WString) (size fuel : Nat) (client : Client)
    (upload : HTTPUpload)
    (goesOn : ∀ argByte client, NoEnd size (readFile boundary fuel argByte client upload)) :
    NoEnd size (match client.uploadReadByte with
      | none => ([], .waiting)
      | some (argByte, client) => readFile boundary fuel argByte client upload) := by
  split
  · exact waiting_noEnd size
  · exact goesOn _ _

theorem readFile_noEnd (boundary : WString) (size fuel : Nat) :
    ∀ (argByte : UInt8) (client : Client) (upload : HTTPUpload), upload.status = .fileWrite →
      size < upload.totalSize + upload.buf.length →
      NoEnd size (readFile boundary fuel argByte client upload) := by
  induction fuel with
  | zero => intro argByte client upload _ _; exact waiting_noEnd size
  | succ fuel ih =>
    intro argByte client upload isWrite more
    have goesOn : ∀ (bytes : List UInt8) (rest : HTTPUpload → FileRead),
        (∀ next : HTTPUpload, next.status = .fileWrite →
          size < next.totalSize + next.buf.length → NoEnd size (rest next)) →
        NoEnd size (writing bytes upload rest) := by
      intro bytes rest noEnd
      exact writing_noEnd isWrite fun next write sizes => noEnd next write (by omega)
    have unchecked := fun (client : Client) (next : HTTPUpload)
        (write : next.status = .fileWrite) (sizes : size < next.totalSize + next.buf.length) =>
      uncheckedByte_noEnd boundary size fuel client next fun argByte client =>
        ih argByte client next write sizes
    rw [readFile]
    dsimp only
    split
    · split
      · exact uploadAborted_noEnd size upload
      · exact goesOn _ _ (unchecked _)
    · refine checkedByte_noEnd _ _ fun second client => ?_
      split
      · refine checkedByte_noEnd _ _ fun third client => ?_
        split
        · exact goesOn _ _ (ih _ _)
        · refine checkedByte_noEnd _ _ fun fourth client => ?_
          split
          · exact goesOn _ _ (ih _ _)
          · split
            · intro handedOn mem ends
              rcases List.mem_cons.mp mem with rfl | last
              · rw [isWrite] at ends
                cases ends
              · rw [List.mem_singleton.mp last]
                exact Nat.ne_of_gt more
            · exact goesOn _ _ (unchecked _)
      · exact goesOn _ _ (ih _ _)

/-! ## Where the end of a file is seen -/

/-- The scan of a file for CR LF and two hyphens with `skip` bytes that were taken without a look:
what the stack holds behind it, if the end of the file is seen where it is. -/
def scanned (boundary : WString) : Nat → List UInt8 → List (List UInt8) → Option (List (List UInt8))
  | _, [], stack => some stack
  | skip + 1, _ :: content, stack => scanned boundary skip content stack
  | 0, c :: content, stack =>
    if c = 0x0d ∧ [0x0a, 0x2d, 0x2d] <+: content then
      let behind := content.drop 3
      let endBuf := behind.take boundary.length ++ (stack.headD []).drop boundary.length
      if behind.length < boundary.length ∨ boundary <:+: cstr endBuf then none
      else scanned boundary (boundary.length + 3) content stack.tail
    else scanned boundary 0 content stack

theorem scanned_skip (boundary : WString) (stack : List (List UInt8)) (n : Nat) :
    ∀ content : List UInt8,
      scanned boundary n content stack = scanned boundary 0 (content.drop n) stack := by
  induction n with
  | zero => intro content; rfl
  | succ n ih =>
    intro content
    cases content with
    | nil => rfl
    | cons c content => exact ih content

section
variable (boundary : WString) (client : Client) (stack : List (List UInt8)) (fuel : Nat)
  (upload : HTTPUpload)

theorem readFile_byte {c : UInt8} (notCr : c ≠ 0x0d) (d : UInt8) (input : List UInt8) :
    readFile boundary (fuel + 1) c (client.feed (d :: input) stack) upload =
      writing [c] upload (readFile boundary fuel d (client.feed input stack)) := by
  rw [readFile]
  simp only [isConnected_feed client stack (List.cons_ne_nil d input), uploadReadByte_feed]
  rw [if_pos notCr]
  rfl

theorem readFile_cr {d : UInt8} (notLf : d ≠ 0x0a) {input : List UInt8} (more : input ≠ []) :
    readFile boundary (fuel + 1) 0x0d (client.feed (d :: input) stack) upload =
      writing [0x0d] upload (readFile boundary fuel d (client.feed input stack)) := by
  rw [readFile]
  dsimp only
  rw [if_neg (not_not_intro rfl), checkedByte_feed client stack d more, if_neg notLf]

theorem readFile_crlf {e : UInt8} (notHyphen : e ≠ 0x2d) {input : List UInt8} (more : input ≠ []) :
    readFile boundary (fuel + 1) 0x0d (client.feed (0x0a :: e :: input) stack) upload =
      writing [0x0d, 0x0a] upload (readFile boundary fuel e (client.feed input stack)) := by
  rw [readFile]
  dsimp only
  rw [if_neg (not_not_intro rfl), checkedByte_feed client stack _ (List.cons_ne_nil e input),
    if_pos rfl, checkedByte_feed client stack e more, if_pos notHyphen]

theorem readFile_hyphen {f : UInt8} (notHyphen : f ≠ 0x2d) {input : List UInt8}
    (more : input ≠ []) :
    readFile boundary (fuel + 1) 0x0d (client.feed (0x0a :: 0x2d :: f :: input) stack) upload =
      writing [0x0d, 0x0a, 0x2d] upload (readFile boundary fuel f (client.feed input stack)) := by
  rw [readFile]
  dsimp only
  rw [if_neg (not_not_intro rfl), checkedByte_feed client stack _ (List.cons_ne_nil _ _),
    if_pos rfl, checkedByte_feed client stack _ (List.cons_ne_nil _ _),
    if_neg (not_not_intro rfl), checkedByte_feed client stack f more, if_pos notHyphen]

/-- Behind CR LF and two hyphens. -/
theorem readFile_hyphens {behind : List UInt8} (more : behind ≠ [])
    (enough : boundary.length ≤ behind.length) :
    readFile boundary (fuel + 1) 0x0d (client.feed (0x0a :: 0x2d :: 0x2d :: behind) stack) upload =
      if cstr boundary <:+: cstr (behind.take boundary.length ++
          (stack.headD []).drop boundary.length) then
        uploadEnd upload (client.feed (behind.drop boundary.length) stack.tail)
      else
        writing ([0x0d, 0x0a, 0x2d, 0x2d] ++ behind.take boundary.length) upload fun upload =>
          match (client.feed (behind.drop boundary.length) stack.tail).uploadReadByte with
          | none => ([], .waiting)
          | some (argByte, client) => readFile boundary fuel argByte client upload := by
  have taken : (List.range boundary.length).map (fun i =>
      (behind.take boundary.length ++ (stack.headD []).drop boundary.length).getD i 0) =
        behind.take boundary.length := by
    apply List.ext_getElem
    · rw [List.length_map, List.length_range, List.length_take, Nat.min_eq_left enough]
    · intro i below inTake
      rw [List.getElem_map, List.getElem_range, List.getD_eq_getElem?_getD,
        List.getElem?_append_left inTake, List.getElem?_eq_getElem inTake]
      rfl
  rw [readFile]
  dsimp only
  rw [if_neg (not_not_intro rfl), checkedByte_feed client stack _ (List.cons_ne_nil _ _),
    if_pos rfl, checkedByte_feed client stack _ (List.cons_ne_nil _ _),
    if_neg (not_not_intro rfl), checkedByte_feed client stack _ more,
    if_neg (not_not_intro rfl), readBytes_feed _ _ _ _ _ enough]
  dsimp only [Client.feed] at taken ⊢
  rw [taken]
  rfl

end

/-- What becomes of a file, by its scan. -/
def Outcome (upload : HTTPUpload) (content : List UInt8)
    (left : List (List UInt8) → Client) : Option (List (List UInt8)) → FileRead → Prop
  | some stack, read => Whole upload content (left stack) read
  | none, read => NoEnd (upload.totalSize + upload.buf.length + content.length) read

theorem writing_outcome {upload : HTTPUpload} (isWrite : upload.status = .fileWrite)
    (bytes : List UInt8) {content : List UInt8} {left : List (List UInt8) → Client}
    {scan : Option (List (List UInt8))} {rest : HTTPUpload → FileRead}
    (goesOn : ∀ upload, upload.status = .fileWrite →
      Outcome upload content left scan (rest upload)) :
    Outcome upload (bytes ++ content) left scan (writing bytes upload rest) := by
  cases scan with
  | some stack => exact writing_whole isWrite goesOn
  | none =>
    refine writing_noEnd isWrite fun next write sizes => ?_
    have noEnd := goesOn next write
    rw [Outcome, sizes] at noEnd
    rw [List.length_append, ← Nat.add_assoc]
    exact noEnd

/-- CR LF, two hyphens and the boundary. -/
def delimiter (boundary : WString) : List UInt8 := 0x0d :: 0x0a :: 0x2d :: 0x2d :: boundary

theorem scanned_other (boundary : WString) (stack : List (List UInt8)) {c : UInt8}
    {content : List UInt8} (other : ¬ (c = 0x0d ∧ [0x0a, 0x2d, 0x2d] <+: content)) :
    scanned boundary 0 (c :: content) stack = scanned boundary 0 content stack := by
  rw [scanned, if_neg other]

theorem scanned_plain (boundary : WString) (stack : List (List UInt8)) {c : UInt8}
    {content : List UInt8} (notCr : c ≠ 0x0d) :
    scanned boundary 0 (c :: content) stack = scanned boundary 0 content stack :=
  scanned_other boundary stack fun both => notCr both.1

/-- An end within a file. -/
theorem uploadEnd_outcome {upload : HTTPUpload} (isWrite : upload.status = .fileWrite)
    (client : Client) (left : List (List UInt8) → Client) {content : List UInt8}
    (more : content ≠ []) : Outcome upload content left none (uploadEnd upload client) := by
  intro handedOn mem ends
  rcases List.mem_cons.mp mem with rfl | last
  · rw [isWrite] at ends
    cases ends
  · rw [List.mem_singleton.mp last]
    have := List.length_pos_iff.mpr more
    dsimp only
    omega

/-- A byte before the delimiter that is not its first is one of the file. -/
theorem content_head {boundary : WString} {tail content input : List UInt8} {d : UInt8}
    (split : content ++ (delimiter boundary ++ tail) = d :: input) (notCr : d ≠ 0x0d) :
    ∃ rest, content = d :: rest ∧ input = rest ++ (delimiter boundary ++ tail) := by
  cases content with
  | nil => exact absurd (List.cons.inj split).1.symm notCr
  | cons c rest =>
    obtain ⟨rfl, rfl⟩ := List.cons.inj split
    exact ⟨rest, rfl, rfl⟩

/-- The byte behind some of a file, and that there are more. -/
theorem stream_cons (boundary : WString) {tail : List UInt8} (more : tail ≠ [])
    (content : List UInt8) :
    ∃ d input, content ++ (delimiter boundary ++ tail) = d :: input ∧ input ≠ [] := by
  cases content with
  | nil => exact ⟨_, _, rfl, List.cons_ne_nil _ _⟩
  | cons c content =>
    exact ⟨c, _, rfl, List.append_ne_nil_of_right_ne_nil _
      (List.append_ne_nil_of_right_ne_nil _ more)⟩

theorem readFile_delimiter (boundary : WString) (client : Client) (plain : 0 ∉ boundary)
    {tail : List UInt8} (more : tail ≠ []) (c : UInt8) (input : List UInt8)
    (stack : List (List UInt8)) (fuel : Nat) (upload : HTTPUpload)
    (begins : c :: input = [] ++ (delimiter boundary ++ tail)) (enough : 0 < fuel)
    (isWrite : upload.status = .fileWrite) :
    Outcome upload [] (fun stack => client.feed tail stack.tail) (scanned boundary 0 [] stack)
      (readFile boundary fuel c (client.feed input stack) upload) := by
  obtain _ | fuel := fuel
  · cases enough
  obtain ⟨rfl, rfl⟩ := List.cons.inj begins
  have found : cstr boundary <:+:
      cstr (((boundary ++ tail).take boundary.length) ++
        (stack.headD []).drop boundary.length) := by
    rw [List.take_left, cstr_append_of_not_mem plain, cstr_of_not_mem plain]
    exact (List.prefix_append _ _).isInfix
  refine ⟨[], upload, ?_, ?_, ?_, rfl⟩
  · refine (readFile_hyphens boundary client stack fuel upload
      (show boundary ++ tail ≠ [] from List.append_ne_nil_of_right_ne_nil _ more) (by
        rw [List.length_append]
        exact Nat.le_add_right _ _)).trans ?_
    rw [if_pos found, List.drop_left]
    rfl
  · intro w mem
    obtain rfl := List.mem_singleton.mp mem
    exact ⟨isWrite, rfl⟩
  · simp [handed]

/-- The file is read to its end exactly if the scan sees the end. -/
theorem readFile_outcome (boundary : WString) (client : Client) (plain : 0 ∉ boundary)
    {tail : List UInt8} (more : tail ≠ []) (size : Nat) :
    ∀ (content : List UInt8) (c : UInt8) (input : List UInt8) (stack : List (List UInt8))
      (fuel : Nat) (upload : HTTPUpload), content.length ≤ size →
      c :: input = content ++ (delimiter boundary ++ tail) → content.length < fuel →
      upload.status = .fileWrite →
      Outcome upload content (fun stack => client.feed tail stack.tail)
        (scanned boundary 0 content stack)
        (readFile boundary fuel c (client.feed input stack) upload) := by
  induction size with
  | zero =>
    intro content c input stack fuel upload short begins enough isWrite
    obtain rfl := List.eq_nil_of_length_eq_zero (Nat.le_zero.mp short)
    exact readFile_delimiter boundary client plain more c input stack fuel upload begins enough
      isWrite
  | succ size ih =>
    intro content c input stack fuel upload short begins enough isWrite
    cases content with
    | nil =>
      exact readFile_delimiter boundary client plain more c input stack fuel upload begins enough
        isWrite
    | cons c' content =>
      obtain ⟨rfl, behind⟩ := List.cons.inj begins
      obtain _ | fuel := fuel
      · cases enough
      have shorter : content.length ≤ size := Nat.le_of_succ_le_succ short
      have lessFuel : content.length < fuel := Nat.lt_of_succ_lt_succ enough
      obtain ⟨d, next, split, moreInput⟩ := stream_cons boundary more content
      have atNext : ∀ upload : HTTPUpload, upload.status = .fileWrite →
          Outcome upload content (fun stack => client.feed tail stack.tail)
            (scanned boundary 0 content stack)
            (readFile boundary fuel d (client.feed next stack) upload) :=
        fun upload => ih content d next stack fuel upload shorter split.symm lessFuel
      rw [show input = content ++ (delimiter boundary ++ tail) from behind, split]
      by_cases notCr : c ≠ 0x0d
      · rw [readFile_byte boundary client stack fuel upload notCr,
          scanned_plain boundary stack notCr]
        exact writing_outcome isWrite [c] atNext
      obtain rfl : c = 0x0d := not_not.mp notCr
      by_cases notLf : d ≠ 0x0a
      · rw [readFile_cr boundary client stack fuel upload notLf moreInput,
          scanned_other boundary stack fun both => ?_]
        · exact writing_outcome isWrite [0x0d] atNext
        · obtain ⟨rest, rfl⟩ := both.2
          exact notLf (List.cons.inj split).1.symm
      obtain rfl : d = 0x0a := not_not.mp notLf
      obtain ⟨content, rfl, rfl⟩ := content_head split (by decide)
      obtain ⟨e, next, split, moreInput⟩ := stream_cons boundary more content
      rw [split]
      by_cases notHyphen : e ≠ 0x2d
      · rw [readFile_crlf boundary client stack fuel upload notHyphen moreInput,
          scanned_other boundary stack fun both => ?_,
          scanned_plain boundary stack (by decide)]
        · exact writing_outcome isWrite [0x0d, 0x0a]
            fun upload => ih content e next stack fuel upload (by grind) split.symm (by grind)
        · obtain ⟨rest, same⟩ := both.2
          grind
      obtain rfl : e = 0x2d := not_not.mp notHyphen
      obtain ⟨content, rfl, rfl⟩ := content_head split (by decide)
      obtain ⟨f, next, split, moreInput⟩ := stream_cons boundary more content
      rw [split]
      by_cases notHyphen : f ≠ 0x2d
      · rw [readFile_hyphen boundary client stack fuel upload notHyphen moreInput,
          scanned_other boundary stack fun both => ?_,
          scanned_plain boundary stack (by decide),
          scanned_plain boundary stack (by decide)]
        · exact writing_outcome isWrite [0x0d, 0x0a, 0x2d]
            fun upload => ih content f next stack fuel upload (by grind) split.symm (by grind)
        · obtain ⟨rest, same⟩ := both.2
          grind
      obtain rfl : f = 0x2d := not_not.mp notHyphen
      obtain ⟨content, rfl, rfl⟩ := content_head split (by decide)
      have shorter : content.length ≤ size := by
        simp only [List.length_cons] at shorter
        omega
      have lessFuel : content.length < fuel := by
        simp only [List.length_cons] at lessFuel
        omega
      have enough : boundary.length ≤ (content ++ (delimiter boundary ++ tail)).length := by
        simp only [List.length_append, delimiter, List.length_cons]
        omega
      rw [readFile_hyphens boundary client stack fuel upload moreInput enough, scanned,
        if_pos ⟨rfl, List.prefix_append _ content⟩, cstr_of_not_mem plain]
      rw [show List.drop 3 (0x0a :: 0x2d :: 0x2d :: content) = content from rfl]
      dsimp only
      by_cases few : content.length < boundary.length
      · rw [if_pos (.inl few)]
        split
        · exact uploadEnd_outcome isWrite _ _ (List.cons_ne_nil _ _)
        · refine writing_noEnd isWrite fun next write sizes => ?_
          split
          · exact waiting_noEnd _
          · refine readFile_noEnd boundary _ fuel _ _ next write ?_
            rw [sizes, List.length_append, List.length_take, Nat.min_eq_left enough]
            simp only [List.length_cons, List.length_nil]
            omega
      · rw [List.take_append_of_le_length (Nat.le_of_not_lt few)]
        by_cases found : boundary <:+:
            cstr (content.take boundary.length ++ (stack.headD []).drop boundary.length)
        · rw [if_pos (.inr found), if_pos found]
          exact uploadEnd_outcome isWrite _ _ (List.cons_ne_nil _ _)
        · obtain ⟨g, next, split, -⟩ := stream_cons boundary more (content.drop boundary.length)
          rw [if_neg (not_or.mpr ⟨few, found⟩), if_neg found, scanned_skip,
            List.drop_append_of_le_length (Nat.le_of_not_lt few), split]
          have whole : 0x0d :: 0x0a :: 0x2d :: 0x2d :: content =
              [0x0d, 0x0a, 0x2d, 0x2d] ++ content.take boundary.length ++
                content.drop boundary.length := by
            rw [List.append_assoc, List.take_append_drop]
            rfl
          rw [whole]
          refine writing_outcome isWrite _ fun upload write => ?_
          have rest := List.length_drop (i := boundary.length) (l := content)
          exact ih _ g next stack.tail fuel upload (by omega) split.symm (by omega) write

end Esp8266.Source.WebServer
