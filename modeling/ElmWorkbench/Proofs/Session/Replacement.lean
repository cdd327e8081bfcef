import ElmWorkbench.Proofs.FileSystem.ReadBack
import ElmWorkbench.Proofs.Session.Memory
/-!
# How a replacement in a file comes out

The checks of a replacement follow one another: the order of its positions, the file, its text, the
line on which the range ends, and then the write, which only the operating system can refuse
(`AtomicWrite.refusedBySystem_write`). The outcome tells the first check that fails
(`ReplacementEnd.verdict`), and the host is told the same (`replacement_verdicts`).
-/

namespace ElmWorkbench

/-! ## What a write can fail with -/

namespace Attempt

variable {Value : Type}

/-- Whatever an attempt fails with, the operating system has refused it. -/
def RefusedBySystem (attempt : Attempt Value) : Prop :=
  ∀ (files changed : FileSystem) (error : Error), attempt files = (.error error, changed) →
    ∃ path cause, error = .system path cause

/-- An attempt that only yields a value does not fail. -/
theorem refusedBySystem_pure (value : Value) : RefusedBySystem (pure value) :=
  nofun

/-- A step fails only if the operating system refuses it. -/
theorem refusedBySystem_step (path : Path)
    (change : FileSystem → Except SystemCause FileSystem) : RefusedBySystem (step path change) := by
  intro files changed error failed
  rw [step] at failed
  split at failed <;> cases failed
  exact ⟨path, _, rfl⟩

/-- Directories are not created only if the operating system refuses them. -/
theorem refusedBySystem_createDirectories (path : Path) :
    RefusedBySystem (createDirectories path) := by
  intro files changed error failed
  rw [createDirectories] at failed
  split at failed <;> cases failed
  exact ⟨path, _, rfl⟩

/-- Two attempts that fail only if the system refuses do so together. -/
theorem RefusedBySystem.bind {Result : Type} {attempt : Attempt Value}
    {next : Value → Attempt Result} (first : RefusedBySystem attempt)
    (second : ∀ value, RefusedBySystem (next value)) : RefusedBySystem (attempt >>= next) := by
  intro files changed error failed
  cases tried : attempt files with
  | mk outcome middle =>
    cases outcome with
    | error cause =>
      rw [bind_of_error tried] at failed
      obtain rfl : cause = error := Except.error.inj (Prod.mk.inj failed).1
      exact first _ _ _ tried
    | ok value =>
      rw [bind_of_ok tried] at failed
      exact second value _ _ _ failed

end Attempt

namespace AtomicWrite

variable {temporary : Path}

/-- Cleaning up adds no other failure. -/
theorem refusedBySystem_cleaningUp {attempt : Attempt Unit} (refused : attempt.RefusedBySystem) :
    (cleaningUp temporary attempt).RefusedBySystem := by
  intro files changed error failed
  have outcome := fst_cleaningUp temporary attempt files
  rw [failed] at outcome
  exact refused files (attempt files).2 error (Prod.ext outcome.symm rfl)

/-- A preparation fails only if the operating system refuses it. -/
theorem refusedBySystem_prepare (path : Path) : (prepare path).RefusedBySystem := by
  rw [prepare]
  split
  · split
    · exact Attempt.refusedBySystem_pure ()
    · exact Attempt.refusedBySystem_createDirectories _
  · exact Attempt.refusedBySystem_pure ()

/-- Copying the mode fails only if the operating system refuses it. -/
theorem refusedBySystem_copyMode (path : Path) : (copyMode temporary path).RefusedBySystem := by
  refine .bind nofun fun mode => ?_
  cases mode with
  | some mode => exact Attempt.refusedBySystem_step _ _
  | none => exact Attempt.refusedBySystem_pure ()

/-- A write fails only where the operating system refuses one of its steps. -/
theorem refusedBySystem_write (processId : Nat) (path : Path) (contents : Bytes) :
    (write processId path contents).RefusedBySystem := by
  refine .bind (refusedBySystem_prepare path) fun _ => refusedBySystem_cleaningUp ?_
  refine .bind (Attempt.refusedBySystem_step _ _) fun _ => ?_
  exact .bind (refusedBySystem_copyMode path) fun _ => Attempt.refusedBySystem_step _ _

end AtomicWrite

/-! ## The text of a file -/

/-- The number of lines of a text. -/
def lineCount (content : String) : Nat :=
  (Line.ofChars content.toList).length

/-- Some stored line does not decode exactly if the whole contents do not. -/
theorem Line.exists_ofStored?_eq_none_iff (contents : Bytes) :
    (∃ line ∈ Line.stored contents, Line.ofStored? line = none) ↔ Utf8.decode? contents = none := by
  have whole : (Line.stored contents).mapM Line.ofStored? = none ↔
      Utf8.decode? contents = none := by
    rw [Line.mapM_ofStored?_stored, Option.map_eq_none_iff, Utf8.decode?, Option.map_eq_none_iff]
  rw [← whole]
  generalize Line.stored contents = lines
  induction lines with
  | nil => simp
  | cons line rest inductionHypothesis =>
    simp only [List.mem_cons, exists_eq_or_imp, inductionHypothesis, List.mapM_cons]
    cases Line.ofStored? line with
    | none => simp
    | some decoded => cases rest.mapM Line.ofStored? <;> simp

section Ends

variable {files : FileSystem} {path : Path} {first last : Position} {content : String}

/-- A path leads to one text at most. -/
theorem FileSystem.HoldsText.unique {other : String} (holds : files.HoldsText path content)
    (holdsOther : files.HoldsText path other) : content = other := by
  obtain ⟨contents, mode, looked, decoded⟩ := holds
  obtain ⟨_, _, lookedAgain, decodedAgain⟩ := holdsOther
  obtain ⟨rfl, -⟩ := Entry.file.inj (Except.ok.inj (looked.symm.trans lookedAgain))
  exact Option.some.inj (decoded.symm.trans decodedAgain)

/-- A file that is missing is reported as not found. -/
theorem readExisting_of_missing (missing : files.stat path = .error .notFound) :
    readExisting files path = .error (.fileNotFound path) := by
  rw [readExisting, FileSystem.readBytes, missing]
  rfl

/-- What cannot be looked up for another reason is reported with that reason. -/
theorem readExisting_of_unopened {cause : SystemCause} (refused : files.stat path = .error cause)
    (other : cause ≠ .notFound) : readExisting files path = .error (.system path cause) := by
  have unread : files.readBytes path = .error cause := by
    rw [FileSystem.readBytes, refused]
    rfl
  rw [readExisting, unread]
  split
  · next same => cases same
  · next same => exact absurd (Except.error.inj same) other
  · next same => rw [Except.error.inj same]

/-- What is no regular file cannot be read. -/
theorem readExisting_of_noFile {entry : Entry} (looked : files.stat path = .ok entry)
    (noFile : ∀ contents mode, entry ≠ .file contents mode) :
    readExisting files path = .error (.system path .isDirectory) := by
  have unread : files.readBytes path = .error .isDirectory := by
    rw [FileSystem.readBytes, looked, Except.ok_bind]
    cases entry with
    | file contents mode => exact absurd rfl (noFile contents mode)
    | directory mode => rfl
    | link target => rfl
  rw [readExisting, unread]

/-- A splice looks at the whole text of a file, and only then whether it has the line on which the
splice resumes. -/
theorem Splice.applyToFile_of_stat (splice : Splice) {contents : Bytes} {mode : Nat}
    (looked : files.stat path = .ok (.file contents mode)) :
    splice.applyToFile files path =
      match Utf8.decode? contents with
      | none => .error (.system path .notText)
      | some content =>
        if splice.resume.line.toNat < lineCount content then
          .ok (Utf8.encodeChars (splice.ofLines 0 (Line.ofChars content.toList)))
        else .error (.rangeOutOfBounds splice.resume.line.toNat (lineCount content)) := by
  rw [applyToFile, readExisting_of_stat looked, Except.ok_bind, decodeLines,
    Line.mapM_ofStored?_stored, Utf8.decode?]
  cases Utf8.decodeChars? contents with
  | none => rfl
  | some characters =>
    simp only [Option.map_some, Except.ok_bind, apply, lineCount, String.toList_ofList]
    split <;> rfl

/-! ## The checks of a replacement -/

/-- How a replacement between two positions of the file at `path` can end: with the first check that
fails, with a refused write, or with the replacement carried out. -/
inductive ReplacementEnd (files : FileSystem) (path : Path) (first last : Position) :
    Except Error Unit → Prop where
  | reversed (reversed : ¬ first ≤ last) :
    ReplacementEnd files path first last (.error (.rangeReversed first last))
  | missing (ordered : first ≤ last) (missing : files.stat path = .error .notFound) :
    ReplacementEnd files path first last (.error (.fileNotFound path))
  | unopened {cause : SystemCause} (ordered : first ≤ last)
      (refused : files.stat path = .error cause) (other : cause ≠ .notFound) :
    ReplacementEnd files path first last (.error (.system path cause))
  | noFile {entry : Entry} (ordered : first ≤ last) (looked : files.stat path = .ok entry)
      (noFile : ∀ contents mode, entry ≠ .file contents mode) :
    ReplacementEnd files path first last (.error (.system path .isDirectory))
  | damaged {contents : Bytes} {mode : Nat} (ordered : first ≤ last)
      (looked : files.stat path = .ok (.file contents mode))
      (damaged : Utf8.decode? contents = none) :
    ReplacementEnd files path first last (.error (.system path .notText))
  | outOfBounds {content : String} (ordered : first ≤ last) (holds : files.HoldsText path content)
      (outside : lineCount content ≤ last.line.toNat) :
    ReplacementEnd files path first last
      (.error (.rangeOutOfBounds last.line.toNat (lineCount content)))
  | unwritten {content : String} {refusing : Path} {cause : SystemCause} (ordered : first ≤ last)
      (holds : files.HoldsText path content) (inside : last.line.toNat < lineCount content) :
    ReplacementEnd files path first last (.error (.system refusing cause))
  | carriedOut {content : String} (ordered : first ≤ last) (holds : files.HoldsText path content)
      (inside : last.line.toNat < lineCount content) :
    ReplacementEnd files path first last (.ok ())

/-- A splice that cannot be computed is what a replacement fails with. -/
theorem replaceInFile_of_error {processId : Nat} {range : Range} {replacement : String}
    {error : Error}
    (failed : (Splice.replacing range replacement).applyToFile files path = .error error) :
    (replaceInFile processId path range replacement files).1 = .error error := by
  rw [replaceInFile, spliceFile, Attempt.bind_of_error (by rw [Attempt.look, failed])]

/-- A replacement ends with its first check that fails, with a refused write, or carried out. -/
theorem replaceInFile_ends (files : FileSystem) (path : Path) (processId : Nat) (range : Range)
    (replacement : String) :
    ReplacementEnd files path range.first range.last
      (replaceInFile processId path range replacement files).1 := by
  have unread {error : Error} (failed : readExisting files path = .error error) :
      (replaceInFile processId path range replacement files).1 = .error error :=
    replaceInFile_of_error (by rw [Splice.applyToFile, failed, Except.error_bind])
  cases looked : files.stat path with
  | error cause =>
    by_cases missing : cause = .notFound
    · subst missing
      rw [unread (readExisting_of_missing looked)]
      exact .missing range.ordered looked
    · rw [unread (readExisting_of_unopened looked missing)]
      exact .unopened range.ordered looked missing
  | ok entry =>
    by_cases isFile : ∃ contents mode, entry = .file contents mode
    · obtain ⟨contents, mode, rfl⟩ := isFile
      have applied := (Splice.replacing range replacement).applyToFile_of_stat looked
      have resumes : (Splice.replacing range replacement).resume.line = range.last.line :=
        range.last.nextColumn_line
      cases decoded : Utf8.decode? contents with
      | none =>
        rw [decoded] at applied
        rw [replaceInFile_of_error applied]
        exact .damaged range.ordered looked decoded
      | some content =>
        have holds : files.HoldsText path content := ⟨contents, mode, looked, decoded⟩
        simp only [decoded, resumes] at applied
        split at applied
        · next inside =>
          rw [replaceInFile, spliceFile, Attempt.bind_of_ok (by rw [Attempt.look, applied])]
          rcases written : AtomicWrite.write processId path _ files with ⟨error | done, changed⟩
          · obtain ⟨refusing, cause, rfl⟩ := AtomicWrite.refusedBySystem_write _ _ _ _ _ _ written
            exact .unwritten range.ordered holds inside
          · exact .carriedOut range.ordered holds inside
        · next outside =>
          rw [replaceInFile_of_error applied]
          exact .outOfBounds range.ordered holds (Nat.not_lt.mp outside)
    · have noFile (contents : Bytes) (mode : Nat) : entry ≠ .file contents mode :=
        fun same => isFile ⟨contents, mode, same⟩
      rw [unread (readExisting_of_noFile looked noFile)]
      exact .noFile range.ordered looked noFile

/-- A session checks the order of the positions before anything else. -/
theorem Session.replace_ends (session : Session) (environment : Environment) (files : FileSystem)
    (path : Path) (first last : Position) (replacement : String) :
    ReplacementEnd files (session.resolveFile path) first last
      (session.replace environment path first last replacement files).1 := by
  by_cases ordered : first ≤ last
  · have made : Range.make first last = .ok ⟨first, last, ordered⟩ := by
      rw [Range.make, dif_pos ordered]
    rw [replace, Attempt.bind_of_ok (by rw [Attempt.look, made])]
    exact replaceInFile_ends files _ _ ⟨first, last, ordered⟩ replacement
  · have made : Range.make first last = .error (.rangeReversed first last) := by
      rw [Range.make, dif_neg ordered]
    rw [replace, Attempt.bind_of_error (by rw [Attempt.look, made])]
    exact .reversed ordered

section Kinds

variable {error : Error}

/-- A path that leads nowhere leads to no text. -/
theorem FileSystem.not_holdsText_of_error {cause : SystemCause}
    (refused : files.stat path = .error cause) : ¬ files.HoldsText path content := by
  rintro ⟨contents, mode, looked, -⟩
  rw [refused] at looked
  cases looked

/-- What is no regular file holds no text. -/
theorem FileSystem.not_holdsText_of_noFile {entry : Entry} (looked : files.stat path = .ok entry)
    (noFile : ∀ contents mode, entry ≠ .file contents mode) : ¬ files.HoldsText path content := by
  rintro ⟨contents, mode, isFile, -⟩
  exact noFile contents mode (Except.ok.inj (looked.symm.trans isFile))

/-- A file that is not UTF-8 holds no text. -/
theorem FileSystem.not_holdsText_of_damaged {contents : Bytes} {mode : Nat}
    (looked : files.stat path = .ok (.file contents mode))
    (damaged : Utf8.decode? contents = none) : ¬ files.HoldsText path content := by
  rintro ⟨_, _, lookedAgain, decoded⟩
  obtain ⟨rfl, -⟩ := Entry.file.inj (Except.ok.inj (looked.symm.trans lookedAgain))
  rw [damaged] at decoded
  cases decoded

/-- A path that leads to a text is looked up. -/
theorem FileSystem.HoldsText.stat_ne_error (holds : files.HoldsText path content)
    (cause : SystemCause) : files.stat path ≠ .error cause := fun refused =>
  not_holdsText_of_error refused holds

namespace ReplacementEnd

variable (ends : ReplacementEnd files path first last (.error error))

include ends

/-- A range is invalid if its ends are reversed. -/
theorem kind_eq_invalidRange_iff : error.kind = .invalidRange ↔ ¬ first ≤ last := by
  cases ends with
  | reversed reversed => simpa [Error.kind] using reversed
  | missing ordered | unopened ordered | noFile ordered | damaged ordered | outOfBounds ordered
  | unwritten ordered => simp [Error.kind, ordered]

/-- A file is not found if nothing is at the path. -/
theorem kind_eq_fileNotFound_iff (ordered : first ≤ last) :
    error.kind = .fileNotFound ↔ files.stat path = .error .notFound := by
  cases ends with
  | reversed reversed => exact absurd ordered reversed
  | missing _ missing => simp [Error.kind, missing]
  | unopened _ refused other => simp [Error.kind, refused, other]
  | noFile _ looked | damaged _ looked => simp [Error.kind, looked]
  | outOfBounds _ holds | unwritten _ holds => simp [Error.kind, holds.stat_ne_error]

/-- A range is out of bounds if its last line is not one of the text. -/
theorem kind_eq_fileRangeOutOfBounds_iff (ordered : first ≤ last) :
    error.kind = .fileRangeOutOfBounds ↔
      ∃ content, files.HoldsText path content ∧ lineCount content ≤ last.line.toNat := by
  cases ends with
  | reversed reversed => exact absurd ordered reversed
  | missing _ refused | unopened _ refused =>
    simp [Error.kind, FileSystem.not_holdsText_of_error refused]
  | noFile _ looked noFile => simp [Error.kind, FileSystem.not_holdsText_of_noFile looked noFile]
  | damaged _ looked damaged =>
    simp [Error.kind, FileSystem.not_holdsText_of_damaged looked damaged]
  | outOfBounds _ holds outside => exact iff_of_true rfl ⟨_, holds, outside⟩
  | unwritten _ holds inside =>
    refine iff_of_false nofun ?_
    rintro ⟨other, holdsOther, outside⟩
    rw [holds.unique holdsOther] at inside
    exact Nat.not_lt.mpr outside inside

/-- The error for a range that is out of bounds tells its last line and the number of lines. -/
theorem eq_rangeOutOfBounds (ordered : first ≤ last) (holds : files.HoldsText path content)
    (outside : lineCount content ≤ last.line.toNat) :
    error = .rangeOutOfBounds last.line.toNat (lineCount content) := by
  have kind : error.kind = .fileRangeOutOfBounds :=
    (ends.kind_eq_fileRangeOutOfBounds_iff ordered).mpr ⟨content, holds, outside⟩
  cases ends with
  | outOfBounds _ holdsAgain => rw [holds.unique holdsAgain]
  | reversed | missing | unopened | noFile | damaged | unwritten => cases kind

/-- What is there but holds no text fails as the operating system does. -/
theorem kind_eq_io_of_unreadable (ordered : first ≤ last) {entry : Entry}
    (looked : files.stat path = .ok entry)
    (unreadable : ¬ ∃ content, files.HoldsText path content) : error.kind = .io := by
  cases ends with
  | reversed reversed => exact absurd ordered reversed
  | missing _ missing =>
    rw [looked] at missing
    cases missing
  | outOfBounds _ holds => exact absurd ⟨_, holds⟩ unreadable
  | unopened | noFile | damaged | unwritten => rfl

/-- A replacement fails in one of four ways. -/
theorem kind_mem : error.kind ∈ [.invalidRange, .fileNotFound, .fileRangeOutOfBounds, .io] := by
  cases ends <;> simp [Error.kind]

end ReplacementEnd

end Kinds

/-! ## What is told of a replacement -/

/-- What the outcome of a replacement tells, where `done` tells that it has been carried out and
`failed` tells an error. -/
structure ReplacementVerdict {Outcome : Type} (done : Outcome) (failed : Error → Outcome)
    (files : FileSystem) (path : Path) (first last : Position) (outcome : Outcome) : Prop where
  /-- Positions in the wrong order are refused, whatever the file. -/
  reversed_iff : (∃ error, error.kind = .invalidRange ∧ outcome = failed error) ↔ ¬ first ≤ last
  /-- Otherwise a file that is not there is told as such. -/
  missing_iff : first ≤ last →
    ((∃ error, error.kind = .fileNotFound ∧ outcome = failed error) ↔
      files.stat path = .error .notFound)
  /-- Otherwise the range is out of bounds if the file is a text without its last line. -/
  outOfBounds_iff : first ≤ last →
    ((∃ error, error.kind = .fileRangeOutOfBounds ∧ outcome = failed error) ↔
      ∃ content, files.HoldsText path content ∧ lineCount content ≤ last.line.toNat)
  /-- A range out of bounds is told with the number of lines of the text. -/
  outOfBounds_tells : first ≤ last → ∀ content, files.HoldsText path content →
    lineCount content ≤ last.line.toNat →
      outcome = failed (.rangeOutOfBounds last.line.toNat (lineCount content))
  /-- What is not a file, or not a text, cannot be read, wherever the range ends. -/
  unreadable : first ≤ last → ∀ entry, files.stat path = .ok entry →
    (¬ ∃ content, files.HoldsText path content) →
      ∃ error, error.kind = .io ∧ outcome = failed error
  /-- Only a range inside a text is replaced. -/
  inside_of_done : outcome = done →
    first ≤ last ∧ ∃ content, files.HoldsText path content ∧ last.line.toNat < lineCount content
  /-- There is no other kind of failure. -/
  told : outcome = done ∨ ∃ error,
    error.kind ∈ [.invalidRange, .fileNotFound, .fileRangeOutOfBounds, .io] ∧ outcome = failed error

section Verdict

variable {Outcome : Type} {done : Outcome} {failed : Error → Outcome} {result : Except Error Unit}

/-- An outcome gives the verdict if it tells a success, and errors of different kinds, apart. -/
theorem ReplacementEnd.verdict (ends : ReplacementEnd files path first last result)
    {outcome : Outcome}
    (told : outcome = match result with | .ok () => done | .error error => failed error)
    (kinds : ∀ error other, failed error = failed other → error.kind = other.kind)
    (distinct : ∀ error, done ≠ failed error) :
    ReplacementVerdict done failed files path first last outcome := by
  cases result with
  | ok value =>
    obtain rfl : outcome = done := told
    have never (kind : ErrorKind) : ¬ ∃ error, error.kind = kind ∧ outcome = failed error := by
      rintro ⟨error, -, same⟩
      exact distinct error same
    obtain ⟨ordered, content, holds, inside⟩ : first ≤ last ∧
        ∃ content, files.HoldsText path content ∧ last.line.toNat < lineCount content := by
      cases ends with
      | carriedOut ordered holds inside => exact ⟨ordered, _, holds, inside⟩
    have notOutside (other : String) (holdsOther : files.HoldsText path other) :
        ¬ lineCount other ≤ last.line.toNat := by
      rw [holdsOther.unique holds]
      exact Nat.not_le.mpr inside
    refine ⟨?_, fun _ => ?_, fun _ => ?_, ?_, ?_, ?_, .inl rfl⟩
    · exact iff_of_false (never _) (not_not.mpr ordered)
    · exact iff_of_false (never _) (holds.stat_ne_error _)
    · exact iff_of_false (never _) fun ⟨other, holdsOther, outside⟩ =>
        notOutside other holdsOther outside
    · exact fun _ other holdsOther outside => absurd outside (notOutside other holdsOther)
    · exact fun _ entry _ unreadable => absurd ⟨content, holds⟩ unreadable
    · exact fun _ => ⟨ordered, content, holds, inside⟩
  | error error =>
    obtain rfl : outcome = failed error := told
    have failsAs_iff (kind : ErrorKind) :
        (∃ other, other.kind = kind ∧ failed error = failed other) ↔ error.kind = kind := by
      constructor
      · rintro ⟨other, rfl, same⟩
        exact kinds error other same
      · intro same
        exact ⟨error, same, rfl⟩
    refine ⟨?_, fun ordered => ?_, fun ordered => ?_, ?_, ?_, ?_, .inr ⟨error, ends.kind_mem, rfl⟩⟩
    · exact (failsAs_iff _).trans ends.kind_eq_invalidRange_iff
    · exact (failsAs_iff _).trans (ends.kind_eq_fileNotFound_iff ordered)
    · exact (failsAs_iff _).trans (ends.kind_eq_fileRangeOutOfBounds_iff ordered)
    · exact fun ordered content holds outside =>
        congrArg failed (ends.eq_rangeOutOfBounds ordered holds outside)
    · exact fun ordered entry looked unreadable =>
        (failsAs_iff _).mpr (ends.kind_eq_io_of_unreadable ordered looked unreadable)
    · exact fun same => absurd same.symm (distinct error)

/-- The end of a replacement is told by its own outcome. -/
theorem ReplacementEnd.verdict_self (ends : ReplacementEnd files path first last result) :
    ReplacementVerdict (.ok ()) .error files path first last result := by
  refine ends.verdict ?_ (fun error other same => congrArg Error.kind (Except.error.inj same)) nofun
  cases result <;> rfl

/-- Hosts are told the kind of an error and its wording. -/
theorem ReplacementEnd.verdict_answer (ends : ReplacementEnd files path first last result) :
    ReplacementVerdict .fileReplaced .ofError files path first last
      (Session.answerOf (result.map fun _ => .fileReplaced)) := by
  refine ends.verdict ?_ (fun error other same => (Response.failed.inj same).1) nofun
  cases result <;> rfl

end Verdict

end Ends

/-- A replacement fails with `InvalidRange` exactly if its positions are in the wrong order.
Otherwise it fails with `FileNotFound` exactly if nothing is found at the path, and with
`FileRangeOutOfBounds`, and the number of lines, exactly if the path leads to a text that does not
have the line on which the range ends. What is not a text fails with `Io`, wherever the range ends,
and only a range inside a text is ever replaced; all that is left fails with `Io`. A command is
answered accordingly, and a single line that is not UTF-8 is enough for a file not to be a text. -/
theorem replacement_verdicts (session : Session) (environment : Environment) (files : FileSystem)
    (path : Path) (first last : Position) (replacement : String) :
    ReplacementVerdict .fileReplaced .ofError files (session.resolveFile path) first last
        (session.answer environment (.replaceInFile path first last replacement) files).1 ∧
      ReplacementVerdict (.ok ()) .error files (session.resolveFile path) first last
        (session.replace environment path first last replacement files).1 ∧
      (∀ processId target range,
        ReplacementVerdict (.ok ()) .error files target range.first range.last
          (replaceInFile processId target range replacement files).1) ∧
      ∀ contents, (∃ line ∈ Line.stored contents, Line.ofStored? line = none) ↔
        Utf8.decode? contents = none := by
  have ends := session.replace_ends environment files path first last replacement
  have answered :
      (session.answer environment (.replaceInFile path first last replacement) files).1 =
        Session.answerOf ((session.replace environment path first last replacement files).1.map
          fun _ => .fileReplaced) := by
    rw [← (Session.answer_eq_iff.mp Prod.mk.eta.symm).1, Session.attempt, Attempt.bind_pure]
  rw [answered]
  exact ⟨ends.verdict_answer, ends.verdict_self,
    fun processId target range => (replaceInFile_ends files target processId range _).verdict_self,
    Line.exists_ofStored?_eq_none_iff⟩

/-- A file whose last line is not UTF-8. -/
def damagedFile : FileSystem where
  entries := [([[0x61]], .file [0x78, 0x0A, 0xFF] 0o600)]
  workingDirectory := []

/-- The damaged line comes before the missing one, and after the only one in the range. -/
example :
    (replaceInFile 7 ⟨[0x61]⟩ ⟨⟨0, 0⟩, ⟨9, 0⟩, by decide⟩ "y" damagedFile).1 =
        .error (.system ⟨[0x61]⟩ .notText) ∧
      (replaceInFile 7 ⟨[0x61]⟩ ⟨⟨0, 0⟩, ⟨0, 0⟩, by decide⟩ "y" damagedFile).1 =
        .error (.system ⟨[0x61]⟩ .notText) := by
  cbv

end ElmWorkbench
