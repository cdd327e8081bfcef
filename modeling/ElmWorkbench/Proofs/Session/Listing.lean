import ElmWorkbench.Proofs.Project.Edited
import ElmWorkbench.Session.Basic
/-!
# Listings of a session

A session that can build an index can list the sources of the project as well, and these are a part
of the paths of the index, in the same order (`Session.sources_sublist_of_index`). An edit between
two listings keeps both of them, but for the content of the edited file
(`Session.listings_after_replacement`).
-/

namespace ElmWorkbench

/-- A look at the files gives what it sees and changes none of them. -/
theorem Attempt.map_look {Value Result : Type} {files : FileSystem} (change : Value → Result)
    (query : FileSystem → Except Error Value) :
    (change <$> look query) files = ((query files).map change, files) := by
  simp only [Functor.map, ExceptT.map, ExceptT.mk, bind, StateT.bind, look]
  cases query files <;> rfl

/-- What is made of the value of an attempt changes nothing further. -/
theorem Attempt.bind_pure {Value Result : Type} {files : FileSystem} (attempt : Attempt Value)
    (tell : Value → Result) :
    (attempt >>= fun value => pure (tell value)) files =
      ((attempt files).1.map tell, (attempt files).2) := by
  rcases attempted : attempt files with ⟨error | value, changed⟩
  · exact Attempt.bind_of_error attempted
  · exact Attempt.bind_of_ok attempted

namespace Session

variable {session : Session} {environment : Environment} {given : Option Path}
  {files after : FileSystem}

/-! ## How commands are answered -/

/-- The answer that the outcome of a command is told with. -/
def answerOf : Except Error Response → Response
  | .ok response => response
  | .error error => .ofError error

/-- A command is answered with the outcome of the attempt to carry it out. -/
theorem answer_eq_iff {command : Command} {response : Response} :
    session.answer environment command files = (response, after) ↔
      answerOf (session.attempt environment command files).1 = response ∧
        (session.attempt environment command files).2 = after := by
  have answered : session.answer environment command files =
      (answerOf (session.attempt environment command files).1,
        (session.attempt environment command files).2) := by
    change (match session.attempt environment command files with
      | (result, changed) => (match result with
        | .ok response => pure response
        | .error error => pure (.ofError error) : StateM FileSystem Response) changed) = _
    rcases session.attempt environment command files with ⟨error | response, changed⟩ <;> rfl
  rw [answered]
  exact Prod.mk.injEq .. ▸ Iff.rfl

/-- A question that only looks at files leaves them as they are, and is answered with what it found
if it found something. -/
theorem answer_look_iff {Value : Type} {command : Command} {query : FileSystem → Except Error Value}
    {tell : Value → Response}
    (asks : session.attempt environment command = tell <$> Attempt.look query)
    (distinct : Function.Injective tell) (told : ∀ value error, tell value ≠ .ofError error)
    {value : Value} :
    session.answer environment command files = (tell value, after) ↔
      query files = .ok value ∧ after = files := by
  rw [answer_eq_iff, asks, Attempt.map_look]
  refine and_congr ?_ eq_comm
  cases query files with
  | error error => simp [Except.map, answerOf, (told value error).symm]
  | ok found => simp [Except.map, answerOf, distinct.eq_iff]

/-- A listing for the index is answered with the index of the project it is for. -/
theorem answer_filesForIndex_iff {entries : List IndexEntry} :
    session.answer environment (.listFilesForIndex given) files = (.filesForIndex entries, after) ↔
      (∃ root, session.resolveRoot given = .ok root ∧
        Index.build files environment session.settings.packageStore root = .ok entries) ∧
      after = files := by
  have asks : session.attempt environment (.listFilesForIndex given) =
      .filesForIndex <$> session.index environment given := rfl
  rw [← Except.bind_eq_ok_iff]
  exact answer_look_iff asks (fun _ _ => Response.filesForIndex.inj) nofun

/-- A listing of sources is answered with the sources of the project it is for. -/
theorem answer_userSourceFiles_iff {paths : List Path} :
    session.answer environment (.listUserSourceFiles given) files =
        (.userSourceFiles paths, after) ↔
      (∃ root, session.resolveRoot given = .ok root ∧ listSources files root = .ok paths) ∧
      after = files := by
  have asks : session.attempt environment (.listUserSourceFiles given) =
      .userSourceFiles <$> session.sources given := rfl
  rw [← Except.bind_eq_ok_iff]
  exact answer_look_iff asks (fun _ _ => Response.userSourceFiles.inj) nofun

/-- A replacement is carried out if its positions are in order and the file can be edited. -/
theorem answer_replaceInFile_iff {path : Path} {first last : Position} {replacement : String} :
    session.answer environment (.replaceInFile path first last replacement) files =
        (.fileReplaced, after) ↔
      ∃ range, Range.make first last = .ok range ∧
        replaceInFile environment.processId (session.resolveFile path) range replacement files =
          (.ok (), after) := by
  have attempted : session.attempt environment (.replaceInFile path first last replacement) =
      session.replace environment path first last replacement >>= fun _ => pure .fileReplaced := rfl
  rw [answer_eq_iff, attempted]
  cases made : Range.make first last with
  | error error =>
    have failed : session.replace environment path first last replacement files =
        (.error error, files) :=
      Attempt.bind_of_error (by rw [Attempt.look, made])
    rw [Attempt.bind_of_error failed]
    simp [answerOf, Response.ofError]
  | ok range =>
    have same : session.replace environment path first last replacement files =
        replaceInFile environment.processId (session.resolveFile path) range replacement files :=
      Attempt.bind_of_ok (by rw [Attempt.look, made])
    simp only [Except.ok.injEq, exists_eq_left', ← same]
    rcases replaced : session.replace environment path first last replacement files with
      ⟨error | done, changed⟩
    · rw [Attempt.bind_of_error replaced]
      constructor
      · intro told
        cases told.1
      · intro carriedOut
        cases carriedOut
    · rw [Attempt.bind_of_ok replaced]
      constructor
      · intro told
        exact told.2 ▸ rfl
      · intro carriedOut
        exact ⟨rfl, congrArg Prod.snd carriedOut⟩

/-! ## Sources and index -/

/-- If a session answers with an index, it also answers with the sources of the project, and these
are paths of the index in the same order. -/
theorem sources_sublist_of_index {entries : List IndexEntry}
    (indexed : session.answer environment (.listFilesForIndex given) files =
      (.filesForIndex entries, after)) :
    ∃ paths, session.answer environment (.listUserSourceFiles given) files =
        (.userSourceFiles paths, files) ∧
      paths.Sublist (entries.map IndexEntry.path) := by
  obtain ⟨⟨projectRoot, resolved, built⟩, -⟩ := answer_filesForIndex_iff.mp indexed
  obtain ⟨root, manifest, storeRoot, own, others, located, gathers, rfl⟩ :=
    Index.build_eq_ok_iff.mp built
  obtain ⟨paths, ran, part⟩ :=
    (Selection.ofManifest_narrows root manifest).exists_run_sublist gathers.ranOwn
  have listed : listSources files projectRoot = .ok paths :=
    listSources_eq_ok_iff.mpr ⟨root, manifest, located.canonical, located.loaded, ran⟩
  refine ⟨paths, answer_userSourceFiles_iff.mpr ⟨⟨projectRoot, resolved, listed⟩, rfl⟩, ?_⟩
  rw [List.map_append]
  exact part.trans (List.sublist_append_left _ _)

/-- Where there are no links, a replacement in another file than the manifest of the project keeps
the sources and the paths of the index. Each content of the index is kept as well, unless its path
leads to the edited file: then the same replacement has been made in it. -/
theorem listings_after_replacement {path : Path} {first last : Position} {replacement : String}
    {entries : List IndexEntry} {paths : List Path} {indexed listed : FileSystem}
    (unlinked : ∀ location target, files.find? location ≠ some (.link target))
    (isIndex : session.answer environment (.listFilesForIndex given) files =
      (.filesForIndex entries, indexed))
    (isListing : session.answer environment (.listUserSourceFiles given) files =
      (.userSourceFiles paths, listed))
    (free : files.IsFree
      (AtomicWrite.temporary environment.processId (session.resolveFile path)))
    (replaced : session.answer environment (.replaceInFile path first last replacement) files =
      (.fileReplaced, after))
    (notManifest : ∀ projectRoot root, session.resolveRoot given = .ok projectRoot →
      files.canonical projectRoot = .ok root →
      files.locate root.manifest ≠ files.locate (session.resolveFile path)) :
    session.answer environment (.listUserSourceFiles given) after =
        (.userSourceFiles paths, after) ∧
      ∃ range changed, Range.make first last = .ok range ∧
        session.answer environment (.listFilesForIndex given) after =
          (.filesForIndex changed, after) ∧
        List.Forall₂ (Index.Follows files (session.resolveFile path)
          fun content => replaceInText content range replacement) entries changed := by
  obtain ⟨range, made, written⟩ := answer_replaceInFile_iff.mp replaced
  have outcome := spliceFile_outcome (Splice.replacing range replacement) free
  rw [← replaceInFile, written] at outcome
  have edits := outcome.edits unlinked
  obtain ⟨⟨projectRoot, resolved, built⟩, -⟩ := answer_filesForIndex_iff.mp isIndex
  obtain ⟨⟨_, resolvedAgain, sources⟩, -⟩ := answer_userSourceFiles_iff.mp isListing
  obtain rfl := Except.ok.inj (resolved.symm.trans resolvedAgain)
  obtain ⟨changed, builtAfter, follow⟩ :=
    edits.exists_build (fun root => notManifest projectRoot root resolved) built
  have sourcesAfter :=
    edits.listSources_eq (fun root => notManifest projectRoot root resolved) sources
  exact ⟨answer_userSourceFiles_iff.mpr ⟨⟨projectRoot, resolved, sourcesAfter⟩, rfl⟩,
    range, changed, made, answer_filesForIndex_iff.mpr ⟨⟨projectRoot, resolved, builtAfter⟩, rfl⟩,
    follow⟩

/-! ## A project of two modules -/

/-- A manifest with one source directory and no dependencies. -/
def plainManifest : String :=
  "\x7b\"source-directories\":[\"s\"],\"dependencies\":\x7b\"direct\":\x7b\x7d,"
    ++ "\"indirect\":\x7b\x7d\x7d,\"test-dependencies\":\x7b\"direct\":\x7b\x7d,"
    ++ "\"indirect\":\x7b\x7d\x7d\x7d"

/-- The project `/p` with a module in its source directory and one beside it, and the empty store
`/o`. -/
def plainFiles (module : String) : FileSystem where
  -- The names of one byte are `p`, `s` and `o`.
  entries :=
    [([[0x70], [0x73], Utf8.encode "A.elm"], .file (Utf8.encode module) fileMode),
      ([[0x70]], .directory directoryMode),
      ([[0x70], Utf8.encode manifestName], .file (Utf8.encode plainManifest) fileMode),
      ([[0x70], Utf8.encode "C.elm"], .file [] fileMode),
      ([[0x70], [0x73]], .directory directoryMode), ([[0x6F]], .directory directoryMode)]
  workingDirectory := []

/-- The project of the sample. -/
def plainRoot : Path := .ofString "/p"

/-- The store of the sample. -/
def plainStore : Path := .ofString "/o"

/-- The module in the source directory of the sample. -/
def plainModule : Path := .ofString "/p/s/A.elm"

/-- What the manifest of the sample says. -/
def plain : Manifest where
  sourceDirectories := [.ofString "s"]
  direct := .empty
  indirect := .empty
  testDirect := .empty
  testIndirect := .empty
  elmVersion := none

/-- A session in which the project of the sample is open. -/
def plainSession : Session where
  settings := { Settings.default with dependencyCacheRoot := some plainStore }
  projectRoot := some plainRoot

/-- The index of the sample. -/
def plainEntries (module : String) : List IndexEntry :=
  [⟨.ofString "/p/C.elm", ""⟩, ⟨plainRoot.manifest, plainManifest⟩, ⟨plainModule, module⟩]

/-- The sample has no dependencies. -/
theorem dependencies_plain : plain.dependencies = [] := by
  decide

/-- The path of the module is absolute, so it is edited as it is given. -/
theorem resolveFile_plainModule : plainSession.resolveFile plainModule = plainModule := by
  decide

section Plain

variable (module : String)

/-- The root of the sample is in canonical form. -/
theorem canonical_plainRoot : (plainFiles module).canonical plainRoot = .ok plainRoot := by
  rw [FileSystem.canonical, FileSystem.locate_of_through? (by decide) rfl]
  rfl

/-- The manifest of the sample is loaded. -/
theorem load_plain : Manifest.load (plainFiles module) plainRoot = .ok plain :=
  Manifest.load_of_stat (FileSystem.stat_of_through? (by decide) rfl rfl) (by decide +kernel)

/-- No links are in the sample. -/
theorem unlinked_plainFiles (location : Location) (target : Path) :
    (plainFiles module).find? location ≠ some (.link target) := by
  rw [FileSystem.find?]
  split
  · simp
  · intro found
    obtain ⟨item, first, isLink⟩ := Option.map_eq_some_iff.mp found
    have member := List.mem_of_find?_eq_some first
    simp only [plainFiles, List.mem_cons, List.not_mem_nil, or_false] at member
    rcases member with rfl | rfl | rfl | rfl | rfl | rfl <;> cases isLink

/-- A walk through the project lists both modules and the manifest. -/
theorem run_plainProject : ((Selection.project plainRoot).walk plainRoot).run (plainFiles module) =
    .ok [.ofString "/p/C.elm", plainRoot.manifest, plainModule] :=
  Walk.run_of_filesThrough? (by decide) rfl rfl rfl

/-- A walk through the declared directory lists its module. -/
theorem run_plainSources : ((Selection.ofManifest plainRoot plain).walk plainRoot).run
    (plainFiles module) = .ok [plainModule] :=
  Walk.run_of_filesThrough? (by decide) rfl rfl rfl

/-- A walk through the empty store lists nothing. -/
theorem run_plainStore : ((Selection.ofDependencies plainStore []).walk plainStore).run
    (plainFiles module) = .ok [] :=
  Walk.run_of_filesThrough? (by decide) rfl rfl rfl

/-- The session answers with the index of the sample. -/
theorem answer_plainIndex :
    plainSession.answer ⟨[], none, 1⟩ (.listFilesForIndex none) (plainFiles module) =
      (.filesForIndex (plainEntries module), plainFiles module) := by
  refine answer_filesForIndex_iff.mpr ⟨⟨plainRoot, rfl, ?_⟩, rfl⟩
  refine Index.build_eq_ok_iff.mpr ⟨plainRoot, plain, plainStore, plainEntries module, [],
    ⟨canonical_plainRoot _, load_plain _, rfl⟩, ?_, rfl⟩
  have isStore : (plainFiles module).isDirectory plainStore := by
    rw [FileSystem.isDirectory, FileSystem.stat_of_through? (by decide) rfl rfl]
  have isModule : (plainFiles module).stat plainModule =
      .ok (.file (Utf8.encode module) fileMode) :=
    FileSystem.stat_of_through? (by decide) rfl rfl
  refine ⟨isStore, by simp [dependencies_plain], run_plainProject _, run_plainStore _, ?_⟩
  rw [List.append_nil, plainEntries, List.forall_mem_cons, List.forall_mem_cons,
    List.forall_mem_singleton]
  exact ⟨⟨[], fileMode, FileSystem.stat_of_through? (by decide) rfl rfl, rfl⟩,
    ⟨Utf8.encode plainManifest, fileMode, FileSystem.stat_of_through? (by decide) rfl rfl,
      (Utf8.decodeLossy_of_decode? (Utf8.decode?_encode plainManifest)).symm⟩,
    ⟨Utf8.encode module, fileMode, isModule,
      (Utf8.decodeLossy_of_decode? (Utf8.decode?_encode module)).symm⟩⟩

/-- The session answers with the declared module. -/
theorem answer_plainSources :
    plainSession.answer ⟨[], none, 1⟩ (.listUserSourceFiles none) (plainFiles module) =
      (.userSourceFiles [plainModule], plainFiles module) :=
  answer_userSourceFiles_iff.mpr ⟨⟨plainRoot, rfl, listSources_eq_ok_iff.mpr
    ⟨plainRoot, plain, canonical_plainRoot _, load_plain _, run_plainSources _⟩⟩, rfl⟩

/-- The temporary file is named beside the module. -/
theorem names_plainTemporary :
    (plainFiles module).Names (AtomicWrite.temporary 1 plainModule) [[0x70], [0x73]]
      (Utf8.encode ".A.elm.1.tmp") linkLimit := by
  have temporary : AtomicWrite.temporary 1 plainModule = .ofString "/p/s/.A.elm.1.tmp" := by decide
  rw [temporary]
  exact ⟨by decide, ⟨by decide, by decide⟩, ⟨[[], [0x70], [0x73]], by decide,
    FileSystem.reaches_of_through? rfl _⟩, rfl⟩

/-- The place of the temporary file is free. -/
theorem isFree_plainTemporary :
    (plainFiles module).IsFree
      (AtomicWrite.temporary 1 (plainSession.resolveFile plainModule)) := by
  rw [resolveFile_plainModule, (names_plainTemporary module).isFree_iff]
  rfl

/-- The directory of the module exists, so nothing has to be prepared. -/
theorem prepare_plainModule :
    AtomicWrite.prepare plainModule (plainFiles module) = (.ok (), plainFiles module) := by
  have parent : plainModule.parent? = some (.ofString "/p/s") := by decide
  have isDirectory : (plainFiles module).isDirectory (.ofString "/p/s") := by
    rw [FileSystem.isDirectory, FileSystem.stat_of_through? (by decide) rfl rfl]
  rw [AtomicWrite.prepare, parent]
  exact Attempt.createDirectories_of_isDirectory (by decide) isDirectory

/-- Replacing the module gives the sample with the other text. -/
theorem replace_plainModule :
    AtomicWrite.replace (AtomicWrite.temporary 1 plainModule) plainModule (Utf8.encode "y\n")
      (plainFiles module) = (.ok (), plainFiles "y\n") := by
  have leads : (plainFiles module).Leads plainModule [[0x70], [0x73], Utf8.encode "A.elm"]
      linkLimit :=
    FileSystem.leads_of_through? (by decide) rfl
  have names : (plainFiles module).Names plainModule [[0x70], [0x73]] (Utf8.encode "A.elm")
      linkLimit :=
    ⟨by decide, ⟨by decide, by decide⟩, ⟨[[], [0x70], [0x73]], by decide,
      FileSystem.reaches_of_through? rfl _⟩, rfl⟩
  exact AtomicWrite.replace_eq names leads rfl rfl (by decide) (names_plainTemporary module)
    (by decide) rfl (by decide) _

/-- The session answers that the module has been edited. -/
theorem answer_plainReplacement :
    plainSession.answer ⟨[], none, 1⟩ (.replaceInFile plainModule ⟨0, 0⟩ ⟨0, 0⟩ "y")
      (plainFiles "x\n") = (.fileReplaced, plainFiles "y\n") := by
  refine answer_replaceInFile_iff.mpr ⟨⟨⟨0, 0⟩, ⟨0, 0⟩, by decide⟩, rfl, ?_⟩
  have isModule : (plainFiles "x\n").stat plainModule = .ok (.file (Utf8.encode "x\n") fileMode) :=
    FileSystem.stat_of_through? (by decide) rfl rfl
  let splice := Splice.replacing ⟨⟨0, 0⟩, ⟨0, 0⟩, by decide⟩ "y"
  have applied : splice.applyToFile (plainFiles "x\n") plainModule = .ok (Utf8.encode "y\n") := by
    rw [Splice.applyToFile, readExisting_of_stat isModule]
    decide +kernel
  have looked : Attempt.look (fun files => splice.applyToFile files plainModule)
      (plainFiles "x\n") = (.ok (Utf8.encode "y\n"), plainFiles "x\n") := by
    rw [Attempt.look, applied]
  rw [resolveFile_plainModule, replaceInFile, spliceFile, Attempt.bind_of_ok looked,
    AtomicWrite.write, Attempt.bind_of_ok (prepare_plainModule _)]
  exact AtomicWrite.cleaningUp_of_ok (replace_plainModule _)

/-- The module is not the manifest of its project. -/
theorem notManifest_plainModule (projectRoot root : Path)
    (resolved : plainSession.resolveRoot none = .ok projectRoot)
    (canonical : (plainFiles module).canonical projectRoot = .ok root) :
    (plainFiles module).locate root.manifest ≠
      (plainFiles module).locate (plainSession.resolveFile plainModule) := by
  obtain rfl : plainRoot = projectRoot := Except.ok.inj resolved
  obtain rfl : plainRoot = root := Except.ok.inj ((canonical_plainRoot module).symm.trans canonical)
  have manifest : (plainFiles module).locate plainRoot.manifest =
      .ok [[0x70], Utf8.encode manifestName] :=
    FileSystem.locate_of_through? (by decide) rfl
  have target : (plainFiles module).locate plainModule =
      .ok [[0x70], [0x73], Utf8.encode "A.elm"] :=
    FileSystem.locate_of_through? (by decide) rfl
  rw [resolveFile_plainModule, manifest, target]
  decide

end Plain

/-- The source of the sample is a part of its index. -/
theorem sources_sublist_of_index_plain :
    ∃ paths, plainSession.answer ⟨[], none, 1⟩ (.listUserSourceFiles none)
        (plainFiles "x\n") = (.userSourceFiles paths, plainFiles "x\n") ∧
      paths.Sublist ((plainEntries "x\n").map IndexEntry.path) :=
  sources_sublist_of_index (answer_plainIndex "x\n")

/-- A replacement in the source of the sample. -/
theorem listings_after_replacement_plain :
    plainSession.answer ⟨[], none, 1⟩ (.listUserSourceFiles none) (plainFiles "y\n") =
        (.userSourceFiles [plainModule], plainFiles "y\n") ∧
      ∃ range changed, Range.make ⟨0, 0⟩ ⟨0, 0⟩ = .ok range ∧
        plainSession.answer ⟨[], none, 1⟩ (.listFilesForIndex none) (plainFiles "y\n") =
          (.filesForIndex changed, plainFiles "y\n") ∧
        List.Forall₂ (Index.Follows (plainFiles "x\n") (plainSession.resolveFile plainModule)
          fun content => replaceInText content range "y") (plainEntries "x\n") changed :=
  listings_after_replacement (unlinked_plainFiles _) (answer_plainIndex "x\n")
    (answer_plainSources _) (isFree_plainTemporary _) answer_plainReplacement
    (notManifest_plainModule _)

end Session

end ElmWorkbench
