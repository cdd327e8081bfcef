import ElmWorkbench.Edit.InFile
import ElmWorkbench.Proofs.Edit.Offset
import ElmWorkbench.Proofs.FileSystem.AtomicWrite
/-!
# Edits of files

An edit of a file reads the whole text of the file, splices it as the edit of a text does,
and replaces the entry that the path names, or it fails and changes nothing
(`edits_replace_one_entry`).
-/

namespace ElmWorkbench

/-- What a splice makes of a text. -/
def Splice.applyToText (splice : Splice) (content : String) : Except Error String :=
  (splice.apply (Line.ofChars content.toList)).map String.ofList

/-- The path leads to a file that holds the text. -/
def FileSystem.HoldsText (files : FileSystem) (path : Path) (content : String) : Prop :=
  ∃ contents mode, files.stat path = .ok (.file contents mode) ∧
    Utf8.decode? contents = some content

/-- What an edit of a file comes to, given what it does to a text. The entry that the path
names has become a file with the edited text and the old mode, and nothing else has
changed; or nothing has changed at all. -/
inductive EditOutcome (files : FileSystem) (temporary path : Path)
    (edit : String → Except Error String) : Except Error Unit × FileSystem → Prop where
  | carriedOut {location : Location} {after : FileSystem} {contents : Bytes} {mode : Nat}
      {content edited : String} (looked : files.stat path = .ok (.file contents mode))
      (decoded : Utf8.decode? contents = some content) (spliced : edit content = .ok edited)
      (replaces : files.Replaces after path location (.file (Utf8.encode edited) mode))
      (clean : after.IsFree temporary) : EditOutcome files temporary path edit (.ok (), after)
  | refused {error : Error} : EditOutcome files temporary path edit (.error error, files)

section InFile

variable {files : FileSystem} {path : Path}

/-- What has been read is held by a file that the path leads to. -/
theorem readExisting_eq_ok {contents : Bytes} (read : readExisting files path = .ok contents) :
    ∃ mode, files.stat path = .ok (.file contents mode) := by
  rw [readExisting] at read
  split at read
  · next bytes readable =>
    obtain rfl := Except.ok.inj read
    obtain ⟨entry, looked, found⟩ := Except.bind_eq_ok_iff.mp readable
    cases entry with
    | file bytes mode =>
      obtain rfl := Except.ok.inj found
      exact ⟨mode, looked⟩
    | directory mode => cases found
    | link target => cases found
  · cases read
  · cases read

/-- A file that the path leads to can be read. -/
theorem readExisting_of_stat {contents : Bytes} {mode : Nat}
    (looked : files.stat path = .ok (.file contents mode)) :
    readExisting files path = .ok contents := by
  have readable : files.readBytes path = .ok contents := by
    rw [FileSystem.readBytes, looked]
    rfl
  rw [readExisting, readable]

/-- Lines decode exactly if the contents do, to the lines of the decoded text. -/
theorem decodeLines_eq_ok {contents : Bytes} {lines : List Line}
    (decoded : decodeLines path (Line.stored contents) = .ok lines) :
    ∃ characters, Utf8.decodeChars? contents = some characters ∧
      lines = Line.ofChars characters := by
  rw [decodeLines, Line.mapM_ofStored?_stored] at decoded
  cases whole : Utf8.decodeChars? contents with
  | none => simp [whole] at decoded
  | some characters =>
    rw [whole] at decoded
    exact ⟨characters, rfl, (Except.ok.inj decoded).symm⟩

/-- A splice of a file writes what the splice makes of the whole old text. -/
theorem Splice.applyToFile_eq_ok {splice : Splice} {bytes : Bytes}
    (applied : splice.applyToFile files path = .ok bytes) :
    ∃ contents mode content edited, files.stat path = .ok (.file contents mode) ∧
      Utf8.decode? contents = some content ∧ splice.applyToText content = .ok edited ∧
      bytes = Utf8.encode edited := by
  obtain ⟨contents, read, further⟩ := Except.bind_eq_ok_iff.mp applied
  obtain ⟨lines, decoded, further⟩ := Except.bind_eq_ok_iff.mp further
  obtain ⟨result, spliced, written⟩ := Except.bind_eq_ok_iff.mp further
  obtain ⟨mode, looked⟩ := readExisting_eq_ok read
  obtain ⟨characters, whole, rfl⟩ := decodeLines_eq_ok decoded
  refine ⟨contents, mode, String.ofList characters, String.ofList result, looked, ?_, ?_, ?_⟩
  · rw [Utf8.decode?, whole, Option.map_some]
  · rw [applyToText, String.toList_ofList, spliced]
    rfl
  · rw [Utf8.encode, String.toList_ofList]
    exact (Except.ok.inj written).symm

/-- A splice of a file is carried out as that of its text, or it changes nothing. -/
theorem spliceFile_outcome {processId : Nat} (splice : Splice)
    (free : files.IsFree (AtomicWrite.temporary processId path)) :
    EditOutcome files (AtomicWrite.temporary processId path) path splice.applyToText
      (spliceFile processId path splice files) := by
  rw [spliceFile]
  cases applied : splice.applyToFile files path with
  | error error =>
    have failed : Attempt.look (fun files => splice.applyToFile files path) files =
        (.error error, files) := by
      rw [Attempt.look, applied]
    rw [Attempt.bind_of_error failed]
    exact .refused
  | ok bytes =>
    have looked : Attempt.look (fun files => splice.applyToFile files path) files =
        (.ok bytes, files) := by
      rw [Attempt.look, applied]
    obtain ⟨contents, mode, content, edited, stat, decoded, spliced, rfl⟩ :=
      Splice.applyToFile_eq_ok applied
    have written := AtomicWrite.write_of_stat stat free (Utf8.encode edited)
    rw [Attempt.bind_of_ok looked]
    generalize AtomicWrite.write processId path (Utf8.encode edited) files = result at written ⊢
    cases written with
    | replaced replaces clean => exact .carriedOut stat decoded spliced replaces clean
    | refused => exact .refused

/-- Every edit of a file puts the edited text in the place of the entry that the path names
and changes nothing else, or it fails and changes nothing, if nothing stands at the name of
the temporary file. -/
theorem edits_replace_one_entry {processId : Nat}
    (free : files.IsFree (AtomicWrite.temporary processId path)) (range : Range)
    (position : Position) (text : String) (edit : Edit) :
    EditOutcome files (AtomicWrite.temporary processId path) path
        (fun content => replaceInText content range text)
        (replaceInFile processId path range text files) ∧
      EditOutcome files (AtomicWrite.temporary processId path) path
        (fun content => insertInText content position text)
        (insertInFile processId path position text files) ∧
      EditOutcome files (AtomicWrite.temporary processId path) path edit.applyToText
        (edit.applyToFile processId path files) :=
  ⟨spliceFile_outcome (Splice.replacing range text) free,
    spliceFile_outcome (Splice.inserting position text) free,
    spliceFile_outcome (Splice.replacing edit.range edit.replacement) free⟩

/-- A link to a file that only its owner can read. -/
def linkedFile : FileSystem where
  entries := [([[0x61]], .link ⟨[0x62]⟩), ([[0x62]], .file [0x78, 0x0A] 0o600)]
  workingDirectory := []

/-- The link becomes the edited file, and what it led to stays as it is. -/
example :
    (replaceInFile 7 ⟨[0x61]⟩ ⟨⟨0, 0⟩, ⟨0, 0⟩, by decide⟩ "y" linkedFile).2.entries =
      [([[0x61]], .file [0x79, 0x0A] 0o600), ([[0x62]], .file [0x78, 0x0A] 0o600)] := by
  cbv

/-- A file is edited through a link to it. -/
theorem edits_replace_one_entry_linked :
    linkedFile.IsFree (AtomicWrite.temporary 7 ⟨[0x61]⟩) ∧
      EditOutcome linkedFile (AtomicWrite.temporary 7 ⟨[0x61]⟩) ⟨[0x61]⟩
        (fun content => replaceInText content ⟨⟨0, 0⟩, ⟨0, 0⟩, by decide⟩ "y")
        (replaceInFile 7 ⟨[0x61]⟩ ⟨⟨0, 0⟩, ⟨0, 0⟩, by decide⟩ "y" linkedFile) := by
  have temporary : AtomicWrite.temporary 7 ⟨[0x61]⟩ =
      ⟨[0x2E, 0x61, 0x2E, 0x37, 0x2E, 0x74, 0x6D, 0x70]⟩ := by decide
  have names : linkedFile.Names (AtomicWrite.temporary 7 ⟨[0x61]⟩) []
      [0x2E, 0x61, 0x2E, 0x37, 0x2E, 0x74, 0x6D, 0x70] linkLimit := by
    rw [temporary]
    exact ⟨rfl, ⟨rfl, by decide⟩, ⟨[], by decide, .done⟩, rfl⟩
  have free : linkedFile.IsFree (AtomicWrite.temporary 7 ⟨[0x61]⟩) := names.isFree_iff.mpr rfl
  exact ⟨free, (edits_replace_one_entry free _ ⟨0, 0⟩ _ ⟨⟨⟨0, 0⟩, ⟨0, 0⟩, by decide⟩, ""⟩).1⟩

end InFile

end ElmWorkbench
