import ElmWorkbench.Proofs.Project.Refusal
import ElmWorkbench.Proofs.Session.Memory
/-!
# Why a listing is refused

A host that asks for the sources or the index of a project is told the error of the first check that
fails, and the same checks come first for both (`Session.listings_refused`).
-/

namespace ElmWorkbench.Session

variable {session : Session} {environment : Environment} {files : FileSystem} {given : Option Path}
  {projectRoot : Path}

/-- A listing of sources is answered with what the engine lists or refuses. -/
theorem answer_userSourceFiles (resolved : session.resolveRoot given = .ok projectRoot) :
    session.answer environment (.listUserSourceFiles given) files =
      (answerOf ((listSources files projectRoot).map .userSourceFiles), files) := by
  rw [answer_eq_iff, attempt, sources, Attempt.map_look, resolved, Except.ok_bind]
  exact ⟨rfl, rfl⟩

/-- A listing for the index is answered with what the engine lists or refuses. -/
theorem answer_filesForIndex (resolved : session.resolveRoot given = .ok projectRoot) :
    session.answer environment (.listFilesForIndex given) files =
      (answerOf ((Index.build files environment session.settings.packageStore projectRoot).map
        .filesForIndex), files) := by
  rw [answer_eq_iff, attempt, index, Attempt.map_look, resolved, Except.ok_bind]
  exact ⟨rfl, rfl⟩

/-- A request for the sources or the index of a project is refused by the first check that fails,
and is told its error; what refuses the sources refuses the index in the same way. Where no check
fails the sources are listed, and so is the index if the files in it can be read. -/
theorem listings_refused (resolved : session.resolveRoot given = .ok projectRoot) :
    (∀ error, SourcesFault files projectRoot error →
      session.answer environment (.listUserSourceFiles given) files = (.ofError error, files) ∧
        session.answer environment (.listFilesForIndex given) files = (.ofError error, files)) ∧
    ((∀ error, ¬ SourcesFault files projectRoot error) → ∃ paths,
      session.answer environment (.listUserSourceFiles given) files =
        (.userSourceFiles paths, files)) ∧
    (∀ error, Index.Fault files environment session.settings.packageStore projectRoot error →
      session.answer environment (.listFilesForIndex given) files = (.ofError error, files)) ∧
    ((∀ error, ¬ Index.Fault files environment session.settings.packageStore projectRoot error) →
      ∃ paths, Index.paths files environment session.settings.packageStore projectRoot = .ok paths ∧
        ((∀ path ∈ paths, ∃ content, files.readLossy path = .ok content) → ∃ entries,
          session.answer environment (.listFilesForIndex given) files =
            (.filesForIndex entries, files))) ∧
    (∀ error, listSources files projectRoot = .error error ↔
      SourcesFault files projectRoot error) ∧
    ∀ error,
      Index.paths files environment session.settings.packageStore projectRoot = .error error ↔
        Index.Fault files environment session.settings.packageStore projectRoot error := by
  have refused (error : Error)
      (fault : Index.Fault files environment session.settings.packageStore projectRoot error) :
      session.answer environment (.listFilesForIndex given) files = (.ofError error, files) := by
    rw [answer_filesForIndex resolved, Index.build_eq_error_iff.mpr (.inl fault)]
    rfl
  refine ⟨fun error fault => ⟨?_, refused error (.sources fault)⟩, fun none => ?_, refused,
    fun none => ?_, fun error => listSources_eq_error_iff, fun error => Index.paths_eq_error_iff⟩
  · rw [answer_userSourceFiles resolved, listSources_eq_error_iff.mpr fault]
    rfl
  · rw [answer_userSourceFiles resolved]
    cases listed : listSources files projectRoot with
    | error error => exact absurd (listSources_eq_error_iff.mp listed) (none error)
    | ok paths => exact ⟨paths, rfl⟩
  · cases found : Index.paths files environment session.settings.packageStore projectRoot with
    | error error => exact absurd (Index.paths_eq_error_iff.mp found) (none error)
    | ok paths =>
      refine ⟨paths, rfl, fun readable => ?_⟩
      rw [answer_filesForIndex resolved]
      cases built : Index.build files environment session.settings.packageStore projectRoot with
      | ok entries => exact ⟨entries, rfl⟩
      | error error =>
        rcases Index.build_eq_error_iff.mp built with fault | ⟨listed, foundAgain, unread⟩
        · exact absurd fault (none error)
        -- Past all checks only a file that cannot be read is left to fail.
        · obtain rfl : paths = listed := Except.ok.inj (found.symm.trans foundAgain)
          obtain ⟨path, member, cause, failed, -⟩ := Index.exists_of_mapM_readEntry_eq_error unread
          obtain ⟨content, read⟩ := readable path member
          rw [failed] at read
          cases read

/-! ## A project without its packages -/

/-- A manifest whose first group names its dependencies in another order than their names, and in
which a test depends on an earlier version of one of them. -/
def lackingManifest : String :=
  "\x7b\"source-directories\":[],\"dependencies\":\x7b\"direct\":\x7b\"b\":\"1\",\"a\":\"2\"\x7d,"
    ++ "\"indirect\":\x7b\x7d\x7d,\"test-dependencies\":\x7b\"direct\":\x7b\"a\":\"1\"\x7d,"
    ++ "\"indirect\":\x7b\x7d\x7d\x7d"

/-- The project `/p` and the empty store `/o`. -/
def lackingFiles : FileSystem where
  entries :=
    [([[0x70]], .directory directoryMode),
      ([[0x70], Utf8.encode manifestName], .file (Utf8.encode lackingManifest) fileMode),
      ([[0x6F]], .directory directoryMode)]
  workingDirectory := []

/-- What the manifest of the sample says. -/
def lacking : Manifest where
  sourceDirectories := []
  direct := ⟨[("a", "2"), ("b", "1")]⟩
  indirect := .empty
  testDirect := ⟨[("a", "1")]⟩
  testIndirect := .empty
  elmVersion := none

/-- The first package that the sample lacks is the one whose name comes first. -/
theorem firstMissing_lacking : Index.FirstMissing lackingFiles plainStore lacking ⟨"a", "1"⟩ where
  listed := by decide
  missing := by
    have nothing : lackingFiles.isDirectory (plainStore.join (Dependency.segment ⟨"a", "1"⟩)) =
        false := by
      cbv
    simp [nothing]
  first := by
    have leads : ∀ group ∈ lacking.groups, ∀ other ∈ group.dependencies,
        other = ⟨"a", "1"⟩ ∨ Dependency.before ⟨"a", "1"⟩ other := by
      decide
    exact fun group isGroup other member _ => leads group isGroup other member

/-- The index of the sample fails with that package. -/
theorem fault_lacking : Index.Fault lackingFiles ⟨[], none, 1⟩ (.fixed plainStore) plainRoot
    (.packagesUnavailable (.ofString "/o/a/1")) := by
  have located : Index.Located lackingFiles ⟨[], none, 1⟩ (.fixed plainStore) plainRoot plainRoot
      lacking plainStore := by
    refine ⟨?_, Manifest.load_of_stat (FileSystem.stat_of_through? (by decide) rfl rfl)
      (by decide +kernel), rfl⟩
    rw [FileSystem.canonical, FileSystem.locate_of_through? (by decide) rfl]
    rfl
  have isStore : lackingFiles.isDirectory plainStore := by
    rw [FileSystem.isDirectory, FileSystem.stat_of_through? (by decide) rfl rfl]
  exact .packageMissing located isStore firstMissing_lacking

/-- No package of the sample is in its store, and the earliest version of the first name is told. -/
theorem listings_refused_lacking :
    plainSession.resolveRoot none = .ok plainRoot ∧
      plainSession.answer ⟨[], none, 1⟩ (.listFilesForIndex none) lackingFiles =
        (.failed .dependencyCacheUnavailable "dependency cache unavailable at /o/a/1",
          lackingFiles) := by
  have resolved : plainSession.resolveRoot none = .ok plainRoot := resolveRoot_open rfl
  exact ⟨resolved, (listings_refused resolved).2.2.1 _ fault_lacking⟩

end ElmWorkbench.Session
