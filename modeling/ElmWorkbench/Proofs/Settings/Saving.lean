import ElmWorkbench.Proofs.FileSystem.ReadBack
import ElmWorkbench.Proofs.Settings.Format
import ElmWorkbench.Proofs.Settings.Toml
import ElmWorkbench.Proofs.Settings.Yaml
import Mathlib
/-!
# Saving settings

Settings whose paths are texts without control characters have a form in every format and are read
back from it, and so they are loaded again from the file that they were saved in, while settings
that have no form, or no format, are not saved and leave all files as they are
(`Settings.load_of_save`).

What becomes of the fixed file systems below is computed by `cbv`, which takes the equations of strings
and bytes from the whole library.
-/

namespace ElmWorkbench

/-- The extension of a path is that of a format, in any letter case. -/
def Path.TellsFormat (path : Path) : Prop :=
  ∃ format : DataFormat, ∃ word ∈ format.extensions, path.HasExtension word

namespace Settings

open Json (Value)

variable {settings : Settings} {files after : FileSystem} {path : Path} {processId : Nat}

/-- Settings are read back from what is written in any format. -/
theorem readSettings_write (solid : settings.AreSolid) (format : DataFormat) :
    ∃ content, DataFormat.write format settings.toValue = .ok content ∧
      DataFormat.readSettings format content = .ok settings := by
  cases format with
  | toml => exact readSettings_toml solid
  | yaml => exact readSettings_yaml solid
  | json =>
    refine readSettings_json fun path member => ?_
    obtain ⟨text, rfl, -⟩ := solid path member
    rw [Path.text?_eq_some_iff.mpr rfl, Option.isSome_some]

/-- Settings with a path that is not a text are written in no format. -/
theorem exists_write_eq_error (member : path ∈ settings.paths) (notText : path.text? = none)
    (format : DataFormat) : ∃ fault, DataFormat.write format settings.toValue = .error fault := by
  obtain ⟨key, listed⟩ : ∃ key, (key, Value.path path) ∈
      pathEntry dependencyCacheRootKey settings.dependencyCacheRoot
        ++ pathEntry elmHomeKey settings.elmHome
        ++ [(parallelReadsKey, .boolean settings.parallelReads)] := by
    rcases List.mem_append.mp member with isCache | isHome
    · exact ⟨dependencyCacheRootKey, List.mem_append_left _ (List.mem_append_left _
        (List.mem_map_of_mem isCache))⟩
    · exact ⟨elmHomeKey, List.mem_append_left _ (List.mem_append_right _
        (List.mem_map_of_mem isHome))⟩
  cases format with
  | toml =>
    have formless : Toml.writeValue? (.path path) = none := by rw [Toml.writeValue?, notText]; rfl
    rw [DataFormat.write, toValue, Toml.write?_eq_none listed rfl formless]
    exact ⟨_, rfl⟩
  | yaml =>
    rw [DataFormat.write, toValue, Yaml.write?_eq_none listed notText]
    exact ⟨_, rfl⟩
  | json =>
    have broken : ¬ settings.toValue.pretty.complete := fun complete => by
      have isText := (Value.write_complete_iff (.lines 0) _).mp complete path
        (holds_toValue_iff.mpr member)
      rw [notText] at isText
      cases isText
    exact ⟨_, if_neg broken⟩

/-- Settings that have no form leave all files as they are. -/
theorem save_eq_error {fault : String} {format : DataFormat}
    (told : DataFormat.ofPath path = .ok format)
    (failed : DataFormat.write format settings.toValue = .error fault) :
    save processId path settings files =
      (.error (.settingsUnwritable format path fault), files) := by
  rw [save, DataFormat.save]
  refine Attempt.bind_of_error ?_
  rw [Attempt.look, told, Except.ok_bind, failed]
  rfl

/-- Settings are not saved at a path that tells no format. -/
theorem save_of_unknown {extension : String}
    (unknown : DataFormat.ofPath path = .error (.formatUnknown extension)) :
    save processId path settings files = (.error (.formatUnknown extension), files) := by
  rw [save, DataFormat.save]
  refine Attempt.bind_of_error ?_
  rw [Attempt.look, unknown]
  rfl

/-- Settings are saved by one write of their text. -/
theorem save_eq {content : String} {format : DataFormat}
    (told : DataFormat.ofPath path = .ok format)
    (written : DataFormat.write format settings.toValue = .ok content) :
    save processId path settings files =
      AtomicWrite.write processId path (Utf8.encode content) files := by
  rw [save, DataFormat.save]
  refine Attempt.bind_of_ok ?_
  rw [Attempt.look, told, Except.ok_bind, written]
  rfl

/-- Settings are loaded from a file that holds what is written for them. -/
theorem load_of_stat {content : String} {format : DataFormat} {mode : Nat}
    (told : DataFormat.ofPath path = .ok format)
    (reads : DataFormat.readSettings format content = .ok settings)
    (looked : files.stat path = .ok (.file (Utf8.encode content) mode)) :
    load files path = .ok settings := by
  have text : files.readText path = .ok content := by
    rw [FileSystem.readText, FileSystem.readBytes, looked]
    simp only [Except.ok_bind, Utf8.decode?_encode, pure, Except.pure]
  rw [load, DataFormat.load, told, Except.ok_bind, text, FileSystem.concerning]
  change (DataFormat.readSettings format content).mapError _ = _
  rw [reads]
  rfl

/-- Settings cannot be loaded from a path that leads nowhere. -/
theorem load_of_error {format : DataFormat} {cause : SystemCause}
    (told : DataFormat.ofPath path = .ok format) (looked : files.stat path = .error cause) :
    load files path = .error (.system path cause) := by
  have text : files.readText path = .error cause := by
    rw [FileSystem.readText, FileSystem.readBytes, looked]
    rfl
  rw [load, DataFormat.load, told, Except.ok_bind, text]
  rfl

/-- Settings whose paths are texts without control characters have a form in every format from which
they are read back. After they have been saved in a file they are loaded from it again; only if a
link stood at the place of the file, or of its temporary file, the path may lead nowhere any more.
A path with no format, or settings with a path that is not a text, change no file. -/
theorem load_of_save (settings : Settings) (processId : Nat) (path : Path) (files : FileSystem) :
    (settings.AreSolid →
      (∀ format, ∃ content, DataFormat.write format settings.toValue = .ok content ∧
        DataFormat.readSettings format content = .ok settings) ∧
      ∀ after, path.TellsFormat → save processId path settings files = (.ok (), after) →
        load after path = .ok settings ∨
          (∃ cause, load after path = .error (.system path cause)) ∧
            (files.MeansLink path ∨ files.MeansLink (AtomicWrite.temporary processId path))) ∧
    (¬ path.TellsFormat ∨ (∃ set ∈ settings.paths, set.text? = none) →
      ∃ error, save processId path settings files = (.error error, files) ∧
        error.kind = .config) := by
  refine ⟨fun solid => ⟨readSettings_write solid, fun after tells saved => ?_⟩,
    fun unwritable => ?_⟩
  · obtain ⟨format, known⟩ := tells
    have told := DataFormat.ofPath_eq_ok_iff.mpr known
    obtain ⟨content, written, reads⟩ := readSettings_write solid format
    rw [save_eq told written] at saved
    obtain ⟨mode, same, found⟩ := AtomicWrite.exists_readBack saved
    cases looked : after.stat path with
    | ok entry =>
      rw [same entry looked] at looked
      exact .inl (load_of_stat told reads looked)
    | error cause =>
      refine .inr ⟨⟨cause, load_of_error told looked⟩, ?_⟩
      by_contra noLink
      rw [not_or] at noLink
      rw [found noLink.1 noLink.2] at looked
      cases looked
  · by_cases tells : path.TellsFormat
    · obtain ⟨format, known⟩ := tells
      have told := DataFormat.ofPath_eq_ok_iff.mpr known
      obtain ⟨set, member, notText⟩ :=
        unwritable.resolve_left fun unknown => unknown ⟨format, known⟩
      obtain ⟨fault, failed⟩ := exists_write_eq_error member notText format
      exact ⟨_, save_eq_error told failed, rfl⟩
    · obtain ⟨extension, unknown⟩ := DataFormat.exists_ofPath_eq_error fun format word told has =>
        tells ⟨format, word, told, has⟩
      exact ⟨_, save_of_unknown unknown, rfl⟩

/-! ## An awkward case -/

/-- Settings with an empty path and one that holds marks of every format. -/
def awkward : Settings where
  dependencyCacheRoot := some (Path.ofString "")
  elmHome := some (Path.ofString " 'null': \\ \"~\" # 1")
  parallelReads := false

/-- A file system with one file. -/
def withFile : FileSystem :=
  ⟨[([Utf8.encode "x.Yml"], .file (Utf8.encode "old") 0o600)], []⟩

/-- No links are in the file system with one file. -/
theorem find?_withFile {location : Location} {target : Path} :
    withFile.find? location ≠ some (.link target) := by
  rw [FileSystem.find?]
  split
  · simp
  · simp [withFile]

/-- Settings are loaded as they were saved over an old file. -/
theorem load_of_save_awkward :
    awkward.AreSolid ∧ (Path.ofString "x.Yml").TellsFormat ∧
      (∃ after, save 1 (Path.ofString "x.Yml") awkward withFile = (.ok (), after) ∧
        load after (Path.ofString "x.Yml") = .ok awkward) ∧
      ¬ (Path.ofString "x.txt").TellsFormat ∧
      ∃ error, save 1 (Path.ofString "x.txt") awkward withFile = (.error error, withFile) ∧
        error.kind = .config := by
  have solid : awkward.AreSolid := by
    intro path member
    rcases List.mem_cons.mp member with rfl | member
    · exact ⟨"", rfl, by decide⟩
    · obtain rfl := List.mem_singleton.mp member
      exact ⟨_, rfl, by decide⟩
  have has : (Path.ofString "x.Yml").HasExtension "yml" := ⟨"Yml", by decide +kernel, by decide⟩
  have told : DataFormat.ofPath (Path.ofString "x.Yml") = .ok .yaml :=
    DataFormat.ofPath_eq_ok_iff.mpr ⟨"yml", by decide, has⟩
  have tells : (Path.ofString "x.Yml").TellsFormat := ⟨.yaml, "yml", by decide, has⟩
  have unknown : ¬ (Path.ofString "x.txt").TellsFormat := by
    rintro ⟨format, known⟩
    have told := DataFormat.ofPath_eq_ok_iff.mpr known
    rw [show DataFormat.ofPath (Path.ofString "x.txt") = .error (.formatUnknown "txt") by cbv]
      at told
    cases told
  have writes (contents : Bytes) :
      (AtomicWrite.write 1 (Path.ofString "x.Yml") contents withFile).1 = .ok () := by cbv
  have saved : (save 1 (Path.ofString "x.Yml") awkward withFile).1 = .ok () := by
    obtain ⟨content, written, -⟩ := readSettings_write solid .yaml
    rw [save_eq told written, writes]
  obtain ⟨-, kept⟩ := (load_of_save awkward 1 (Path.ofString "x.Yml") withFile).1 solid
  have saves : save 1 (Path.ofString "x.Yml") awkward withFile =
      (.ok (), (save 1 (Path.ofString "x.Yml") awkward withFile).2) := Prod.ext saved rfl
  have noLink (path : Path) : ¬ withFile.MeansLink path := by
    rintro ⟨location, target, -, found⟩
    exact find?_withFile found
  refine ⟨solid, tells, ⟨_, saves, (kept _ tells saves).resolve_right fun lost => ?_⟩, unknown,
    (load_of_save awkward 1 (Path.ofString "x.txt") withFile).2 (.inl unknown)⟩
  exact lost.2.elim (noLink _) (noLink _)

/-! ## Links in the place of the files -/

/-- A file system with a link to a directory beside it. -/
def withLink : FileSystem :=
  ⟨[([Utf8.encode "d"], .directory directoryMode),
    ([Utf8.encode "d", Utf8.encode "sub"], .directory directoryMode),
    ([Utf8.encode "d", Utf8.encode "x.toml"], .link (Path.ofString "sub"))], []⟩

/-- A file system in which the temporary file for a path is a link to that path. -/
def withTemporaryLink : FileSystem :=
  ⟨[([Utf8.encode ".x.toml.1.tmp"], .link (Path.ofString "x.toml"))], []⟩

/-- A path that leads through the link that it names leads nowhere once that link has become a file,
and neither does one that has become a link to itself. -/
theorem load_fails_after_save :
    default.AreSolid ∧ (Path.ofString "d/x.toml/../x.toml").TellsFormat ∧
      (Path.ofString "x.toml").TellsFormat ∧
      (∃ after, save 1 (Path.ofString "d/x.toml/../x.toml") default withLink = (.ok (), after) ∧
        load after (Path.ofString "d/x.toml/../x.toml") =
          .error (.system (Path.ofString "d/x.toml/../x.toml") .notDirectory)) ∧
      ∃ after, save 1 (Path.ofString "x.toml") default withTemporaryLink = (.ok (), after) ∧
        load after (Path.ofString "x.toml") =
          .error (.system (Path.ofString "x.toml") .tooManyLinks) := by
  have solid : default.AreSolid := fun path member => absurd member List.not_mem_nil
  have has : (Path.ofString "d/x.toml/../x.toml").HasExtension "toml" :=
    ⟨"toml", by decide +kernel, by decide⟩
  have hasToo : (Path.ofString "x.toml").HasExtension "toml" :=
    ⟨"toml", by decide +kernel, by decide⟩
  have told : DataFormat.ofPath (Path.ofString "d/x.toml/../x.toml") = .ok .toml :=
    DataFormat.ofPath_eq_ok_iff.mpr ⟨"toml", by decide, has⟩
  have toldToo : DataFormat.ofPath (Path.ofString "x.toml") = .ok .toml :=
    DataFormat.ofPath_eq_ok_iff.mpr ⟨"toml", by decide, hasToo⟩
  obtain ⟨content, written, -⟩ := readSettings_write solid .toml
  have writes : AtomicWrite.write 1 (Path.ofString "d/x.toml/../x.toml") (Utf8.encode content)
      withLink = (.ok (), ⟨[([Utf8.encode "d", Utf8.encode "x.toml"],
          .file (Utf8.encode content) directoryMode),
        ([Utf8.encode "d"], .directory directoryMode),
        ([Utf8.encode "d", Utf8.encode "sub"], .directory directoryMode)], []⟩) := by
    generalize Utf8.encode content = contents
    cbv
  have writesToo : AtomicWrite.write 1 (Path.ofString "x.toml") (Utf8.encode content)
      withTemporaryLink =
        (.ok (), ⟨[([Utf8.encode "x.toml"], .link (Path.ofString "x.toml"))], []⟩) := by
    generalize Utf8.encode content = contents
    cbv
  refine ⟨solid, ⟨.toml, "toml", by decide, has⟩, ⟨.toml, "toml", by decide, hasToo⟩,
    ⟨_, (save_eq told written).trans writes, ?_⟩,
    _, (save_eq toldToo written).trans writesToo, ?_⟩
  · refine load_of_error told ?_
    generalize Utf8.encode content = contents
    cbv
  · refine load_of_error toldToo ?_
    cbv

end Settings

end ElmWorkbench
