import Esp8266.Source.WebServer

/-!
# What the parser hands on

Whatever the client sends, the uploads of a request are whole files, each a start, writes and an
end, and a last one that may break off.
-/
set_option autoImplicit false

namespace Esp8266.Source.WebServer
open Esp8266.Source.WString

/-- A buffer of a file. -/
def IsWrite (upload : HTTPUpload) : Prop :=
  upload.status = .fileWrite ∧ upload.buf.length ≤ httpUploadBuflen

/-- The uploads of a file behind its start. -/
inductive FileUploads : FileEnd → List HTTPUpload → Prop where
  | ended {upload : HTTPUpload} (client : Client) : upload.status = .fileEnd →
    FileUploads (.ended client) [upload]
  | aborted {upload : HTTPUpload} : upload.status = .fileAborted → FileUploads .aborted [upload]
  | waiting : FileUploads .waiting []
  | write {upload : HTTPUpload} {uploads : List HTTPUpload} {fileEnd : FileEnd} :
    IsWrite upload → FileUploads fileEnd uploads → FileUploads fileEnd (upload :: uploads)

theorem FileUploads.append {fileEnd : FileEnd} {uploads : List HTTPUpload}
    (rest : FileUploads fileEnd uploads) {writes : List HTTPUpload}
    (all : ∀ upload ∈ writes, IsWrite upload) : FileUploads fileEnd (writes ++ uploads) := by
  induction writes with
  | nil => exact rest
  | cons upload writes ih =>
    exact .write (all upload List.mem_cons_self)
      (ih fun other mem => all other (List.mem_cons_of_mem _ mem))

theorem uploadWriteBytes_writes (bytes : List UInt8) : ∀ upload : HTTPUpload, IsWrite upload →
    (∀ handed ∈ (uploadWriteBytes bytes upload).1, IsWrite handed) ∧
      IsWrite (uploadWriteBytes bytes upload).2 := by
  induction bytes with
  | nil =>
    intro upload isWrite
    exact ⟨fun handed none => absurd none List.not_mem_nil, isWrite⟩
  | cons b bytes ih =>
    intro upload isWrite
    rw [uploadWriteBytes, uploadWriteByte]
    by_cases full : upload.buf.length = httpUploadBuflen
    · rw [if_pos full]
      obtain ⟨writes, kept⟩ := ih
        { upload with totalSize := upload.totalSize + upload.buf.length, buf := [b] }
        ⟨isWrite.1, Nat.le_of_ble_eq_true rfl⟩
      refine ⟨fun handed mem => ?_, kept⟩
      rcases List.mem_cons.mp mem with rfl | later
      · exact isWrite
      · exact writes handed later
    · rw [if_neg full]
      obtain ⟨writes, kept⟩ := ih { upload with buf := upload.buf ++ [b] } ⟨isWrite.1, by
        rw [List.length_append]
        exact Nat.lt_of_le_of_ne isWrite.2 full⟩
      exact ⟨writes, kept⟩

/-- Bytes are written and the file goes on. -/
theorem writing_uploads {upload : HTTPUpload} (isWrite : IsWrite upload) (bytes : List UInt8)
    {rest : HTTPUpload → FileRead}
    (goesOn : ∀ upload, IsWrite upload → FileUploads (rest upload).2 (rest upload).1) :
    FileUploads (writing bytes upload rest).2 (writing bytes upload rest).1 := by
  obtain ⟨writes, kept⟩ := uploadWriteBytes_writes bytes upload isWrite
  exact (goesOn _ kept).append writes

theorem checkedByte_uploads (client : Client) (upload : HTTPUpload)
    {rest : UInt8 → Client → FileRead}
    (goesOn : ∀ argByte client, FileUploads (rest argByte client).2 (rest argByte client).1) :
    FileUploads (checkedByte client upload rest).2 (checkedByte client upload rest).1 := by
  unfold checkedByte
  split
  · exact .waiting
  · dsimp only
    split
    · exact .aborted rfl
    · exact goesOn _ _

/-- A byte that is read without a look at the connection. -/
theorem uncheckedByte_uploads (boundary : WString) (fuel : Nat) (client : Client)
    (upload : HTTPUpload)
    (goesOn : ∀ argByte client, FileUploads (readFile boundary fuel argByte client upload).2
      (readFile boundary fuel argByte client upload).1) :
    let read : FileRead := match client.uploadReadByte with
      | none => ([], .waiting)
      | some (argByte, client) => readFile boundary fuel argByte client upload
    FileUploads read.2 read.1 := by
  dsimp only
  split
  · exact .waiting
  · exact goesOn _ _

theorem readFile_uploads (boundary : WString) (fuel : Nat) :
    ∀ (argByte : UInt8) (client : Client) (upload : HTTPUpload), IsWrite upload →
      FileUploads (readFile boundary fuel argByte client upload).2
        (readFile boundary fuel argByte client upload).1 := by
  induction fuel with
  | zero => intro argByte client upload _; exact .waiting
  | succ fuel ih =>
    intro argByte client upload isWrite
    have unchecked := fun (client : Client) (upload : HTTPUpload) (isWrite : IsWrite upload) =>
      uncheckedByte_uploads boundary fuel client upload fun argByte client =>
        ih argByte client upload isWrite
    rw [readFile]
    dsimp only
    split
    · split
      · exact .aborted rfl
      · exact writing_uploads isWrite _ (unchecked _)
    · refine checkedByte_uploads _ _ fun second client => ?_
      split
      · refine checkedByte_uploads _ _ fun third client => ?_
        split
        · exact writing_uploads isWrite _ (ih _ _)
        · refine checkedByte_uploads _ _ fun fourth client => ?_
          split
          · exact writing_uploads isWrite _ (ih _ _)
          · split
            · exact .write isWrite (.ended _ rfl)
            · exact writing_uploads isWrite _ (unchecked _)
      · exact writing_uploads isWrite _ (ih _ _)

/-- The uploads of a form. -/
inductive FormUploads : Parsed → List HTTPUpload → Prop where
  | nil (parsed : Parsed) : FormUploads parsed []
  | file {start : HTTPUpload} {client : Client} {parsed : Parsed}
    {uploads rest : List HTTPUpload} : start.status = .fileStart →
    FileUploads (.ended client) uploads → FormUploads parsed rest →
      FormUploads parsed (start :: uploads ++ rest)
  | aborted {start : HTTPUpload} {uploads : List HTTPUpload} : start.status = .fileStart →
    FileUploads .aborted uploads → FormUploads .refused (start :: uploads)
  | waiting {start : HTTPUpload} {fileEnd : FileEnd} {uploads : List HTTPUpload} :
    start.status = .fileStart → FileUploads fileEnd uploads →
      FormUploads .waiting (start :: uploads)

theorem filePart_uploads (argName boundary : WString) (client : Client) :
    ∃ start uploads, (filePart argName boundary client).1 = start :: uploads ∧
      start.status = .fileStart ∧ FileUploads (filePart argName boundary client).2 uploads := by
  unfold filePart
  dsimp only
  split
  · exact ⟨_, [], rfl, rfl, .waiting⟩
  · exact ⟨_, _, rfl, rfl, readFile_uploads boundary _ _ _ _ ⟨rfl, Nat.zero_le _⟩⟩

theorem formLoop_uploads (boundary : WString) (fuel : Nat) :
    ∀ (postArgs : List QueryString.RequestArgument) (client : Client),
      FormUploads (formLoop boundary fuel postArgs client).parsed
        (formLoop boundary fuel postArgs client).uploads := by
  induction fuel with
  | zero => intro postArgs client; exact .nil _
  | succ fuel ih =>
    intro postArgs client
    rw [formLoop]
    dsimp only
    generalize client.readLine = first
    split
    · split
      · exact ih _ _
      · rename_i argName argIsFile _
        split
        · split
          · exact .nil _
          · split
            · exact .nil _
            · exact ih _ _
        · obtain ⟨start, uploads, listed, starts, file⟩ :=
            filePart_uploads argName boundary (skipType first.2)
          generalize filePart argName boundary (skipType first.2) = part at listed file ⊢
          obtain ⟨handed, fileEnd⟩ := part
          obtain rfl : handed = start :: uploads := listed
          cases fileEnd with
          | aborted => exact .aborted starts file
          | waiting => exact .waiting starts file
          | ended client =>
            dsimp only
            split
            · have only := FormUploads.file starts file (.nil .accepted)
              rwa [List.append_nil] at only
            · exact .file starts file (ih _ _)
    · exact ih _ _

/-- **A request hands on whole files**, and a last one that may break off. -/
theorem parseRequest_uploads (headerKeys : List WString) (client : Client) :
    FormUploads (parseRequest headerKeys client).parsed
      (parseRequest headerKeys client).uploads := by
  have body : ∀ (line : RequestLine) (headers : Headers) (client : Client),
      FormUploads (parseBody line headers client).parsed
        (parseBody line headers client).uploads := by
    intro line headers client
    unfold parseBody
    generalize (if headers.isForm then (true, ([] : WString), client)
      else client.readBytesWithTimeout headers.contentLength) = read
    dsimp only
    split
    · exact .nil _
    · split
      · exact .nil _
      · split
        · exact .nil _
        · split
          · exact .nil _
          · rename_i form parsed
            unfold parseForm at parsed
            dsimp only at parsed
            split at parsed
            · cases parsed
              split <;> exact formLoop_uploads _ _ _ _
            · cases parsed
  unfold parseRequest
  dsimp only
  split
  · exact .nil _
  · split
    · exact body _ _ _
    · split <;> exact .nil _

end Esp8266.Source.WebServer
