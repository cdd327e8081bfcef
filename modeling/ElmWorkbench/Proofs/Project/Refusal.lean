import ElmWorkbench.Proofs.FileSystem.Survival
import ElmWorkbench.Proofs.Project.Index
/-!
# Why a listing is refused

A listing of a project goes through checks, and the first one that fails decides its error: the root
of the project, its manifest, and for an index also the store and each package in it
(`SourcesFault`, `Index.Fault`). The packages are looked for in the order of their names and versions
(`Dependency.pairwise_sorted`), so the least missing one is told. Once all checks have passed the
walks come out, and nothing but a file that cannot be read can refuse the index
(`listSources_eq_error_iff`, `Index.build_eq_error_iff`).
-/

namespace ElmWorkbench

/-! ## The walks come out -/

namespace FileSystem

variable {files : FileSystem} {directory : Path} {final : Location} {name : Bytes}

/-- What an entry is found in is a directory. -/
theorem isDirectory_of_locate_join (nonempty : directory.bytes ≠ []) (entry : Path.IsEntryName name)
    (located : files.locate (directory.join ⟨name⟩) = .ok final) : files.isDirectory directory := by
  obtain ⟨left, leads⟩ := exists_leads located
  obtain ⟨noZero, -, short⟩ := checkLimits_eq_ok_iff.mp leads.limits
  have isFront := Path.bytes_prefix_join directory entry.cut
  have limits : checkLimits directory = .ok () :=
    checkLimits_eq_ok_iff.mpr ⟨fun zero => noZero (isFront.subset zero), nonempty,
      isFront.length_le.trans_lt short⟩
  obtain ⟨front, void, parts, empty, joinedParts⟩ := Path.exists_parts_join directory entry.cut
  have reaches := leads.reaches
  rw [joinedParts, origin_join _ directory entry.cut] at reaches
  obtain ⟨middle, between, toDirectory, toEntry⟩ := reaches.exists_middle
  have isDirectory := toEntry.hasDirectory
  have reachesDirectory := toDirectory.addVoid isDirectory (Path.isVoid_of_eq_nil empty)
  rw [← parts] at reachesDirectory
  exact isDirectory_iff.mpr ⟨middle, Leads.locate_eq ⟨limits, reachesDirectory⟩, isDirectory⟩

end FileSystem

/-- A walk that starts in a directory comes out. -/
theorem Walk.exists_run {files : FileSystem} (walk : Walk)
    (isDirectory : files.isDirectory walk.root) : ∃ paths, walk.run files = .ok paths := by
  obtain ⟨location, opened, stands⟩ := FileSystem.isDirectory_iff.mp isDirectory
  exact ⟨_, run_eq opened stands⟩

section Listings

variable {files : FileSystem} {environment : Environment} {store : PackageStore}
  {projectRoot root storeRoot : Path} {manifest : Manifest} {error : Error}

/-! ## Sources -/

/-- The first check of a listing of sources that fails, with its error: whether the root is found,
and whether there is a manifest, which can be read as text and says what a manifest should. -/
inductive SourcesFault (files : FileSystem) (projectRoot : Path) : Error → Prop where
  | rootMissing (missing : files.canonical projectRoot = .error .notFound) :
    SourcesFault files projectRoot (.manifestMissing projectRoot.manifest)
  | rootRefused {cause : SystemCause} (refused : files.canonical projectRoot = .error cause)
      (other : cause ≠ .notFound) :
    SourcesFault files projectRoot (.system projectRoot cause)
  | manifestMissing {root : Path} (canonical : files.canonical projectRoot = .ok root)
      (missing : files.readText root.manifest = .error .notFound) :
    SourcesFault files projectRoot (.manifestMissing root.manifest)
  | manifestUnread {root : Path} {cause : SystemCause}
      (canonical : files.canonical projectRoot = .ok root)
      (refused : files.readText root.manifest = .error cause) (other : cause ≠ .notFound) :
    SourcesFault files projectRoot (.system root.manifest cause)
  | manifestMalformed {root : Path} {content : String} {failure : Json.Failure}
      (canonical : files.canonical projectRoot = .ok root)
      (read : files.readText root.manifest = .ok content)
      (malformed : Json.Reader.runWhole (Json.Reader.record .direct Manifest.shape)
        (Utf8.encode content) = .error failure) :
    SourcesFault files projectRoot (.manifestMalformed root.manifest failure.message)

/-- The root of a project is refused if it is missing or cannot be reached. -/
theorem canonicalRoot_eq_error_iff : canonicalRoot files projectRoot = .error error ↔
    (files.canonical projectRoot = .error .notFound ∧
      error = .manifestMissing projectRoot.manifest) ∨
    ∃ cause, files.canonical projectRoot = .error cause ∧ cause ≠ .notFound ∧
      error = .system projectRoot cause := by
  rw [canonicalRoot]
  split
  · next found => simp [found]
  · next missing => simp [missing, eq_comm]
  · next cause other refused =>
    have notMissing : cause ≠ .notFound := other
    simp [refused, notMissing, eq_comm]

/-- A manifest is refused if it is missing, cannot be read, or does not say what it should. -/
theorem Manifest.load_eq_error_iff : Manifest.load files root = .error error ↔
    (files.readText root.manifest = .error .notFound ∧ error = .manifestMissing root.manifest) ∨
    (∃ cause, files.readText root.manifest = .error cause ∧ cause ≠ .notFound ∧
      error = .system root.manifest cause) ∨
    ∃ content failure, files.readText root.manifest = .ok content ∧
      Json.Reader.runWhole (Json.Reader.record .direct Manifest.shape) (Utf8.encode content) =
        .error failure ∧
      error = .manifestMalformed root.manifest failure.message := by
  rw [load]
  split
  · next content read =>
    rw [parse]
    split
    · next parsed => simp [read, parsed]
    · next malformed => simp [read, malformed, eq_comm]
  · next missing => simp [missing, eq_comm]
  · next cause other refused =>
    have notMissing : cause ≠ .notFound := other
    simp [refused, notMissing, eq_comm]

/-- The first check that fails is that of the root or that of the manifest. -/
theorem sourcesFault_iff : SourcesFault files projectRoot error ↔
    canonicalRoot files projectRoot = .error error ∨
      ∃ root, files.canonical projectRoot = .ok root ∧ Manifest.load files root = .error error := by
  rw [canonicalRoot_eq_error_iff]
  simp only [Manifest.load_eq_error_iff]
  constructor
  · rintro (missing | ⟨refused, other⟩ | ⟨canonical, missing⟩ | ⟨canonical, refused, other⟩ |
      ⟨canonical, read, malformed⟩)
    · exact .inl (.inl ⟨missing, rfl⟩)
    · exact .inl (.inr ⟨_, refused, other, rfl⟩)
    · exact .inr ⟨_, canonical, .inl ⟨missing, rfl⟩⟩
    · exact .inr ⟨_, canonical, .inr (.inl ⟨_, refused, other, rfl⟩)⟩
    · exact .inr ⟨_, canonical, .inr (.inr ⟨_, _, read, malformed, rfl⟩)⟩
  · rintro ((⟨missing, rfl⟩ | ⟨cause, refused, other, rfl⟩) | ⟨root, canonical, ⟨missing, rfl⟩ |
      ⟨cause, refused, other, rfl⟩ | ⟨content, failure, read, malformed, rfl⟩⟩)
    · exact .rootMissing missing
    · exact .rootRefused refused other
    · exact .manifestMissing canonical missing
    · exact .manifestUnread canonical refused other
    · exact .manifestMalformed canonical read malformed

/-- The root of a project is a directory if its manifest has been read. -/
theorem isDirectory_of_load (canonical : files.canonical projectRoot = .ok root)
    (loaded : Manifest.load files root = .ok manifest) : files.isDirectory root := by
  have absolute := FileSystem.isAbsolute_canonical canonical
  have nonempty : root.bytes ≠ [] := by
    intro empty
    simp [Path.isAbsolute, empty] at absolute
  obtain ⟨content, read⟩ : ∃ content, files.readText root.manifest = .ok content := by
    rw [Manifest.load] at loaded
    split at loaded
    · next read => exact ⟨_, read⟩
    · cases loaded
    · cases loaded
  obtain ⟨contents, readable, -⟩ := Except.bind_eq_ok_iff.mp read
  obtain ⟨entry, looked, -⟩ := Except.bind_eq_ok_iff.mp readable
  obtain ⟨final, left, leads, -⟩ := FileSystem.exists_leads_of_stat looked
  exact FileSystem.isDirectory_of_locate_join nonempty (by decide) leads.locate_eq

/-- A listing of sources fails just with the first check that does. -/
theorem listSources_eq_error_iff :
    listSources files projectRoot = .error error ↔ SourcesFault files projectRoot error := by
  simp only [listSources, Except.bind_eq_error_iff, canonicalRoot_eq_ok_iff, sourcesFault_iff]
  refine or_congr_right (exists_congr fun root => and_congr_right fun canonical => ?_)
  rw [or_iff_left]
  rintro ⟨manifest, loaded, refused⟩
  obtain ⟨paths, ran⟩ := Walk.exists_run ((Selection.ofManifest root manifest).walk root)
    (isDirectory_of_load canonical loaded)
  rw [ran] at refused
  cases refused

/-! ## The store and its packages -/

/-- The Elm home that packages are looked for in, of a store that is not given itself. -/
def PackageStore.HasHome (store : PackageStore) (environment : Environment) (home : Path) : Prop :=
  store = .elmHome home ∨ store = .discover ∧ environment.elmHome? = some home

/-- The place of a store is unknown if there is no Elm home, or no version for it. -/
theorem PackageStore.root_eq_error_iff {elmVersion : Option String} :
    store.root environment elmVersion root = .error error ↔
      (store = .discover ∧ environment.elmHome? = none ∧
        error = .packagesUnavailable ((Path.ofString "~").known .elmHome)) ∨
      ∃ home, store.HasHome environment home ∧ elmVersion = none ∧
        error = .manifestMalformed root.manifest "missing field `elm-version`" := by
  cases store with
  | fixed given => simp [PackageStore.root, HasHome]
  | elmHome given =>
    cases elmVersion <;> simp [PackageStore.root, PackageStore.home, HasHome, eq_comm]
  | discover =>
    cases told : environment.elmHome? <;> cases elmVersion <;>
      simp [PackageStore.root, PackageStore.home, HasHome, told, eq_comm]

namespace Index

/-- Of all dependencies in the groups of a manifest that are no directories in the store, the one
that comes first by its name and version. -/
structure FirstMissing (files : FileSystem) (storeRoot : Path) (manifest : Manifest)
    (dependency : Dependency) : Prop where
  listed : ∃ group ∈ manifest.groups, dependency ∈ group.dependencies
  missing : ¬ files.isDirectory (storeRoot.join dependency.segment)
  first : ∀ group ∈ manifest.groups, ∀ other ∈ group.dependencies,
    ¬ files.isDirectory (storeRoot.join other.segment) →
      other = dependency ∨ dependency.before other

/-- A directory that is required is missing if the path is none. -/
theorem requireDirectory_eq_error_iff {path : Path} : requireDirectory files path = .error error ↔
    ¬ files.isDirectory path ∧ error = .packagesUnavailable path := by
  rw [requireDirectory]
  split
  · next isDirectory => simp [isDirectory]
  · next noDirectory => simp [noDirectory, eq_comm]

/-- Of dependencies in order the first that is missing is told. -/
theorem forM_requireDirectory_eq_error_iff {dependencies : List Dependency}
    (ascending : dependencies.Pairwise fun left right => left.before right) :
    (dependencies.forM fun dependency =>
        requireDirectory files (storeRoot.join dependency.segment)) = .error error ↔
      ∃ dependency ∈ dependencies, ¬ files.isDirectory (storeRoot.join dependency.segment) ∧
        (∀ other ∈ dependencies, ¬ files.isDirectory (storeRoot.join other.segment) →
          other = dependency ∨ dependency.before other) ∧
        error = .packagesUnavailable (storeRoot.join dependency.segment) := by
  induction dependencies with
  | nil => simp [pure, Except.pure]
  | cons first rest inductionHypothesis =>
    obtain ⟨firstBefore, restAscending⟩ := List.pairwise_cons.mp ascending
    rw [List.forM, Except.bind_eq_error_iff, requireDirectory_eq_error_iff]
    simp only [requireDirectory_eq_ok_iff, inductionHypothesis restAscending]
    by_cases present : files.isDirectory (storeRoot.join first.segment)
    · simp [present]
    · have isFirst : ∀ other ∈ first :: rest, ¬ files.isDirectory (storeRoot.join other.segment) →
          other = first ∨ first.before other :=
        List.forall_mem_cons.mpr
          ⟨fun _ => .inl rfl, fun other member _ => .inr (firstBefore other member)⟩
      constructor
      · rintro (⟨-, rfl⟩ | ⟨-, found, -⟩)
        · exact ⟨first, List.mem_cons_self, present, isFirst, rfl⟩
        · exact absurd found present
      · rintro ⟨dependency, member, missing, isFirstToo, rfl⟩
        -- Two dependencies that each come first are the same one.
        obtain rfl : dependency = first := by
          rcases isFirst dependency member missing with same | before
          · exact same
          · rcases isFirstToo first List.mem_cons_self present with same | after
            · exact same.symm
            · exact absurd (Dependency.before_trans before after) (Dependency.before_irrefl _)
        exact .inl ⟨present, rfl⟩

/-- The first check of an index that fails before its files are read, with its error: those of a
listing of sources, whether the place of the store is known, whether the store is there, and whether
each package is in it. -/
inductive Fault (files : FileSystem) (environment : Environment) (store : PackageStore)
    (projectRoot : Path) : Error → Prop where
  | sources {error : Error} (fault : SourcesFault files projectRoot error) :
    Fault files environment store projectRoot error
  | homeUnknown {root : Path} {manifest : Manifest}
      (canonical : files.canonical projectRoot = .ok root)
      (loaded : Manifest.load files root = .ok manifest) (discovers : store = .discover)
      (unknown : environment.elmHome? = none) :
    Fault files environment store projectRoot
      (.packagesUnavailable ((Path.ofString "~").known .elmHome))
  | versionMissing {root home : Path} {manifest : Manifest}
      (canonical : files.canonical projectRoot = .ok root)
      (loaded : Manifest.load files root = .ok manifest)
      (hasHome : store.HasHome environment home) (missing : manifest.elmVersion = none) :
    Fault files environment store projectRoot
      (.manifestMalformed root.manifest "missing field `elm-version`")
  | storeMissing {root storeRoot : Path} {manifest : Manifest}
      (located : Located files environment store projectRoot root manifest storeRoot)
      (missing : ¬ files.isDirectory storeRoot) :
    Fault files environment store projectRoot (.packagesUnavailable storeRoot)
  | packageMissing {root storeRoot : Path} {manifest : Manifest} {dependency : Dependency}
      (located : Located files environment store projectRoot root manifest storeRoot)
      (storeExists : files.isDirectory storeRoot)
      (first : FirstMissing files storeRoot manifest dependency) :
    Fault files environment store projectRoot
      (.packagesUnavailable (storeRoot.join dependency.segment))

/-- The packages that are required fail with the first one that is missing. -/
theorem forM_requireDirectory_dependencies_eq_error_iff :
    (manifest.dependencies.forM fun dependency =>
        requireDirectory files (storeRoot.join dependency.segment)) = .error error ↔
      ∃ dependency, FirstMissing files storeRoot manifest dependency ∧
        error = .packagesUnavailable (storeRoot.join dependency.segment) := by
  have ascending : manifest.dependencies.Pairwise fun left right => left.before right :=
    Dependency.pairwise_sorted _
  rw [forM_requireDirectory_eq_error_iff ascending]
  simp only [Manifest.mem_dependencies]
  constructor
  · rintro ⟨dependency, listed, missing, first, rfl⟩
    exact ⟨dependency, ⟨listed, missing, fun group isGroup other member =>
      first other ⟨group, isGroup, member⟩⟩, rfl⟩
  · rintro ⟨dependency, ⟨listed, missing, first⟩, rfl⟩
    exact ⟨dependency, listed, missing,
      fun other ⟨group, isGroup, member⟩ => first group isGroup other member, rfl⟩

/-- The files of an index are found unless one of the checks fails. -/
theorem paths_eq_error_iff : paths files environment store projectRoot = .error error ↔
    Fault files environment store projectRoot error := by
  simp only [paths, Except.bind_eq_error_iff, canonicalRoot_eq_ok_iff, requireDirectory_eq_ok_iff,
    requireDirectory_eq_error_iff, forM_requireDirectory_eq_ok_iff,
    forM_requireDirectory_dependencies_eq_error_iff, PackageStore.root_eq_error_iff]
  constructor
  · rintro (refused | ⟨root, canonical, refused | ⟨manifest, loaded, refused | ⟨storeRoot, stored,
      ⟨missing, rfl⟩ | ⟨-, storeExists, ⟨dependency, first, rfl⟩ | ⟨-, packagesExist, refused⟩⟩⟩⟩⟩)
    · exact .sources (sourcesFault_iff.mpr (.inl refused))
    · exact .sources (sourcesFault_iff.mpr (.inr ⟨root, canonical, refused⟩))
    · rcases refused with ⟨discovers, unknown, rfl⟩ | ⟨home, hasHome, missing, rfl⟩
      · exact .homeUnknown canonical loaded discovers unknown
      · exact .versionMissing canonical loaded hasHome missing
    · exact .storeMissing ⟨canonical, loaded, stored⟩ missing
    · exact .packageMissing ⟨canonical, loaded, stored⟩ storeExists first
    · -- Both walks start at a directory.
      obtain ⟨own, ranOwn⟩ := Walk.exists_run ((Selection.project root).walk root)
        (isDirectory_of_load canonical loaded)
      obtain ⟨others, ranOthers⟩ := Walk.exists_run
        ((Selection.ofDependencies storeRoot manifest.dependencies).walk storeRoot) storeExists
      rw [ranOwn, packageFiles_eq_ok_iff.mpr ranOthers] at refused
      simp [pure, Except.pure] at refused
  · rintro (fault | ⟨canonical, loaded, discovers, unknown⟩ |
      ⟨canonical, loaded, hasHome, missing⟩ | ⟨located, missing⟩ | ⟨located, storeExists, first⟩)
    · rcases sourcesFault_iff.mp fault with refused | ⟨root, canonical, refused⟩
      · exact .inl refused
      · exact .inr ⟨root, canonical, .inl refused⟩
    · exact .inr ⟨_, canonical, .inr ⟨_, loaded, .inl (.inl ⟨discovers, unknown, rfl⟩)⟩⟩
    · exact .inr ⟨_, canonical, .inr ⟨_, loaded, .inl (.inr ⟨_, hasHome, missing, rfl⟩)⟩⟩
    · exact .inr ⟨_, located.canonical, .inr ⟨_, located.loaded,
        .inr ⟨_, located.stored, .inl ⟨missing, rfl⟩⟩⟩⟩
    · exact .inr ⟨_, located.canonical, .inr ⟨_, located.loaded,
        .inr ⟨_, located.stored, .inr ⟨(), storeExists, .inl ⟨_, first, rfl⟩⟩⟩⟩⟩

/-! ## Reading the files -/

/-- An entry fails if its file cannot be read. -/
theorem readEntry_eq_error_iff {path : Path} : readEntry files path = .error error ↔
    ∃ cause, files.readLossy path = .error cause ∧ error = .system path cause := by
  rw [readEntry, FileSystem.concerning, Except.bind_eq_error_iff]
  cases files.readLossy path with
  | error cause => simp [Except.mapError, eq_comm]
  | ok content => simp [Except.mapError, pure, Except.pure]

/-- Entries fail with a file that cannot be read. -/
theorem exists_of_mapM_readEntry_eq_error {paths : List Path}
    (failed : paths.mapM (readEntry files) = .error error) :
    ∃ path ∈ paths, ∃ cause, files.readLossy path = .error cause ∧ error = .system path cause := by
  induction paths with
  | nil => cases failed
  | cons path paths inductionHypothesis =>
    rw [List.mapM_cons, Except.bind_eq_error_iff] at failed
    rcases failed with failed | ⟨first, -, failed⟩
    · exact ⟨path, List.mem_cons_self, readEntry_eq_error_iff.mp failed⟩
    · rcases Except.bind_eq_error_iff.mp failed with failed | ⟨others, -, failed⟩
      · obtain ⟨later, member, unread⟩ := inductionHypothesis failed
        exact ⟨later, List.mem_cons_of_mem _ member, unread⟩
      · cases failed

/-- An index is refused by the check that fails, or else by a file that cannot be read. -/
theorem build_eq_error_iff : build files environment store projectRoot = .error error ↔
    Fault files environment store projectRoot error ∨
      ∃ listed, paths files environment store projectRoot = .ok listed ∧
        listed.mapM (readEntry files) = .error error := by
  rw [build, Except.bind_eq_error_iff, paths_eq_error_iff]

end Index

end Listings

end ElmWorkbench
