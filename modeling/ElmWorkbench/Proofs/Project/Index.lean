import ElmWorkbench.Project.Index
import ElmWorkbench.Proofs.Project.Sources
/-!
# What an index holds

An index lists the files of the project and then those of its packages, each part in the order
of paths (`Index.build_isExact`). A package counts by the names that its segment goes through,
and a segment that leads up goes through none: such a package has to be in the store like any
other, but nothing of it is listed (`Index.build_covers`).
-/

namespace ElmWorkbench.Index

variable {files : FileSystem} {environment : Environment} {store : PackageStore}
  {projectRoot root path storeRoot : Path} {manifest : Manifest} {entry : IndexEntry}
  {entries : List IndexEntry}

/-! ## Reading -/

/-- An entry that holds what its file holds, damaged runs replaced. -/
def HasContents (files : FileSystem) (entry : IndexEntry) : Prop :=
  ∃ contents mode, files.stat entry.path = .ok (.file contents mode) ∧
    entry.content = Utf8.decodeLossy contents

/-- An entry that is read has the path and the content of its file. -/
theorem readEntry_eq_ok_iff :
    readEntry files path = .ok entry ↔ entry.path = path ∧ HasContents files entry := by
  rw [readEntry, FileSystem.concerning, FileSystem.readLossy, FileSystem.readBytes]
  constructor
  · intro read
    cases looked : files.stat path with
    | error cause =>
      rw [looked] at read
      cases read
    | ok found =>
      rw [looked] at read
      cases found with
      | file contents mode =>
        cases read
        exact ⟨rfl, contents, mode, looked, rfl⟩
      | directory mode => cases read
      | link target => cases read
  · obtain ⟨_, content⟩ := entry
    rintro ⟨rfl, contents, mode, looked, rfl⟩
    rw [looked]
    rfl

/-- Entries that are read have the paths and the contents of their files. -/
theorem mapM_readEntry_eq_ok_iff {paths : List Path} :
    paths.mapM (readEntry files) = .ok entries ↔
      entries.map IndexEntry.path = paths ∧ ∀ entry ∈ entries, HasContents files entry := by
  induction paths generalizing entries with
  | nil =>
    rw [List.mapM_nil, List.map_eq_nil_iff]
    exact ⟨fun read => by cases read; simp, fun ⟨nothing, _⟩ => by rw [nothing]; rfl⟩
  | cons path paths inductionHypothesis =>
    simp only [List.mapM_cons, Except.bind_eq_ok_iff, inductionHypothesis, readEntry_eq_ok_iff]
    constructor
    · rintro ⟨first, ⟨rfl, holds⟩, others, ⟨rfl, othersHold⟩, same⟩
      cases same
      exact ⟨rfl, List.forall_mem_cons.mpr ⟨holds, othersHold⟩⟩
    · rintro ⟨same, holds⟩
      obtain ⟨first, others, rfl, rfl, rfl⟩ := List.map_eq_cons_iff.mp same
      rw [List.forall_mem_cons] at holds
      exact ⟨first, ⟨rfl, holds.1⟩, others, ⟨rfl, holds.2⟩, rfl⟩

/-! ## Listing -/

/-- Entries for just the regular files below a root that wanted names lead to, in the order of
their paths. -/
structure Lists (files : FileSystem) (root : Path) (wanted : List Bytes → Prop)
    (entries : List IndexEntry) : Prop where
  exact : ∀ path, (∃ entry ∈ entries, entry.path = path) ↔
    ∃ names, path = root.below names ∧ files.SeesBelow root names ∧ wanted names
  ascending : entries.Pairwise fun left right => left.path.Before right.path
  distinct : (entries.map IndexEntry.path).Nodup
  contents : ∀ entry ∈ entries, HasContents files entry

/-- A walk lists entries for just the files that are wanted, if it keeps what is wanted. -/
theorem lists_of_run {selection : Selection} {wanted : List Bytes → Prop} (tree : files.IsTree)
    (ran : (selection.walk root).run files = .ok (entries.map IndexEntry.path))
    (contents : ∀ entry ∈ entries, HasContents files entry)
    (keeps : ∀ names, names ≠ [] → (∀ part ∈ names, Path.IsEntryName part) →
      ((selection.walk root).Keeps root names ↔ wanted names)) :
    Lists files root wanted entries := by
  have looked : ∀ path ∈ entries.map IndexEntry.path,
      ∃ contents mode, files.stat path = .ok (.file contents mode) := by
    intro path isPath
    obtain ⟨entry, member, rfl⟩ := List.mem_map.mp isPath
    obtain ⟨bytes, mode, isFile, -⟩ := contents entry member
    exact ⟨bytes, mode, isFile⟩
  have ascending := Walk.pairwise_run tree ran
  refine ⟨fun path => ?_, List.pairwise_map.mp ascending, ascending.imp Path.Before.ne, contents⟩
  rw [← List.mem_map, Walk.mem_run_iff rfl tree ran looked]
  refine exists_congr fun names => and_congr_right fun _ => and_congr_right fun sees => ?_
  obtain ⟨location, -, sees⟩ := sees
  exact keeps names sees.ne_nil (sees.isEntryName tree)

/-! ## The index of a project -/

/-- A project and the store of its packages, as they are found from a path. -/
structure Located (files : FileSystem) (environment : Environment) (store : PackageStore)
    (projectRoot root : Path) (manifest : Manifest) (storeRoot : Path) : Prop where
  canonical : files.canonical projectRoot = .ok root
  loaded : Manifest.load files root = .ok manifest
  stored : store.root environment manifest.elmVersion root = .ok storeRoot

/-- A project and its store are found in one way only. -/
theorem Located.unique {otherRoot otherStore : Path} {other : Manifest}
    (located : Located files environment store projectRoot root manifest storeRoot)
    (found : Located files environment store projectRoot otherRoot other otherStore) :
    root = otherRoot ∧ manifest = other ∧ storeRoot = otherStore := by
  obtain rfl : root = otherRoot :=
    Except.ok.inj (located.canonical.symm.trans found.canonical)
  obtain rfl : manifest = other := Except.ok.inj (located.loaded.symm.trans found.loaded)
  exact ⟨rfl, rfl, Except.ok.inj (located.stored.symm.trans found.stored)⟩

/-- A directory that is required is there. -/
theorem requireDirectory_eq_ok_iff {done : Unit} :
    requireDirectory files path = .ok done ↔ files.isDirectory path := by
  rw [requireDirectory]
  split
  · next isDirectory => simp [isDirectory]
  · next noDirectory => simp [noDirectory]

/-- The packages that are required are directories in the store. -/
theorem forM_requireDirectory_eq_ok_iff {dependencies : List Dependency} {done : Unit} :
    (dependencies.forM fun dependency =>
        requireDirectory files (storeRoot.join dependency.segment)) = .ok done ↔
      ∀ dependency ∈ dependencies, files.isDirectory (storeRoot.join dependency.segment) := by
  induction dependencies with
  | nil => simp [pure, Except.pure]
  | cons first rest inductionHypothesis =>
    rw [List.forM, Except.bind_eq_ok_iff, List.forall_mem_cons]
    simp only [requireDirectory_eq_ok_iff, inductionHypothesis, exists_and_left, exists_const]

/-- The files of packages are those of a walk through the store. -/
theorem packageFiles_eq_ok_iff {dependencies : List Dependency} {paths : List Path} :
    packageFiles files storeRoot dependencies = .ok paths ↔
      ((Selection.ofDependencies storeRoot dependencies).walk storeRoot).run files = .ok paths := by
  rw [packageFiles]
  split
  · next ran => rw [ran]
  · next failed => simp [failed]

/-- The path of a directory is not empty. -/
theorem ne_nil_of_isDirectory (isDirectory : files.isDirectory path) : path.bytes ≠ [] := by
  rw [FileSystem.isDirectory] at isDirectory
  split at isDirectory
  · next mode looked =>
    obtain ⟨final, left, leads, -⟩ := FileSystem.exists_leads_of_stat looked
    exact (FileSystem.checkLimits_eq_ok_iff.mp leads.limits).2.1
  · cases isDirectory

/-- What an index is made of: every package is in the store, the walks through the project and
through the store come out, and each file on them has been read. -/
structure Gathers (files : FileSystem) (root : Path) (manifest : Manifest) (storeRoot : Path)
    (own others : List IndexEntry) : Prop where
  storeExists : files.isDirectory storeRoot
  packagesExist : ∀ dependency ∈ manifest.dependencies,
    files.isDirectory (storeRoot.join dependency.segment)
  ranOwn : ((Selection.project root).walk root).run files = .ok (own.map IndexEntry.path)
  ranOthers : ((Selection.ofDependencies storeRoot manifest.dependencies).walk storeRoot).run
    files = .ok (others.map IndexEntry.path)
  contents : ∀ entry ∈ own ++ others, HasContents files entry

/-- What has been gathered lists the files of the project and those of the packages whose segments
lead down. -/
theorem Gathers.lists (gathers : Gathers files root manifest storeRoot own others)
    (tree : files.IsTree) : Lists files root IsProjectFile own ∧
      Lists files storeRoot (manifest.Wants Path.LeadsDown) others := by
  obtain ⟨ownContents, otherContents⟩ := List.forall_mem_append.mp gathers.contents
  exact ⟨lists_of_run tree gathers.ranOwn ownContents fun _ => Selection.keeps_project_iff,
    lists_of_run tree gathers.ranOthers otherContents fun _ => Selection.keeps_ofDependencies_iff⟩

/-- An index is built exactly of what has been gathered for a project that is found. -/
theorem build_eq_ok_iff : build files environment store projectRoot = .ok entries ↔
    ∃ root manifest storeRoot own others,
      Located files environment store projectRoot root manifest storeRoot ∧
        Gathers files root manifest storeRoot own others ∧ entries = own ++ others := by
  simp only [build, paths, Except.bind_eq_ok_iff, canonicalRoot_eq_ok_iff,
    requireDirectory_eq_ok_iff, forM_requireDirectory_eq_ok_iff, packageFiles_eq_ok_iff,
    mapM_readEntry_eq_ok_iff]
  constructor
  · rintro ⟨found, ⟨root, canonical, manifest, loaded, storeRoot, stored, -, storeExists, -,
      packagesExist, ownPaths, ranOwn, otherPaths, ranOthers, whole⟩, same, contents⟩
    -- There is one entry for each path, so the entries part where the two walks do.
    obtain ⟨own, others, rfl, rfl, rfl⟩ :=
      List.map_eq_append_iff.mp (same.trans (Except.ok.inj whole).symm)
    exact ⟨root, manifest, storeRoot, own, others, ⟨canonical, loaded, stored⟩,
      ⟨storeExists, packagesExist, ranOwn, ranOthers, contents⟩, rfl⟩
  · rintro ⟨root, manifest, storeRoot, own, others, ⟨canonical, loaded, stored⟩,
      ⟨storeExists, packagesExist, ranOwn, ranOthers, contents⟩, rfl⟩
    exact ⟨_, ⟨root, canonical, manifest, loaded, storeRoot, stored, (), storeExists, (),
      packagesExist, _, ranOwn, _, ranOthers, rfl⟩, List.map_append, contents⟩

/-- Entries that list the files of a project and then those of its packages, where `goes` says
which names the segment of a dependency goes through. -/
def IsExact (goes : Path → List Bytes → Prop) (files : FileSystem) (environment : Environment)
    (store : PackageStore) (projectRoot : Path) (entries : List IndexEntry) : Prop :=
  ∃ root manifest storeRoot own others,
    Located files environment store projectRoot root manifest storeRoot ∧
    entries = own ++ others ∧ Lists files root IsProjectFile own ∧
    Lists files storeRoot (manifest.Wants goes) others

/-- An index holds just the files of the project and those of the packages whose segments lead
down. -/
theorem build_isExact (tree : files.IsTree)
    (built : build files environment store projectRoot = .ok entries) :
    IsExact Path.LeadsDown files environment store projectRoot entries := by
  obtain ⟨root, manifest, storeRoot, own, others, located, gathers, rfl⟩ :=
    build_eq_ok_iff.mp built
  exact ⟨root, manifest, storeRoot, own, others, located, rfl, gathers.lists tree⟩

/-- Entries for each package whose segment leads down: the package is the directory that has been
looked for in the store, and its manifest and sources are listed as far as a walk comes by them. -/
def Covers (files : FileSystem) (environment : Environment) (store : PackageStore)
    (projectRoot : Path) (entries : List IndexEntry) : Prop :=
  ∃ root manifest storeRoot,
    Located files environment store projectRoot root manifest storeRoot ∧
    ∀ group ∈ manifest.groups, ∀ dependency ∈ group.dependencies,
      files.isDirectory (storeRoot.join dependency.segment) ∧
      ∀ package, package ≠ [] → dependency.segment.LeadsDown package →
        (storeRoot.join dependency.segment).same (storeRoot.below package) ∧
        ∀ names, IsPackageFile package names → files.SeesBelow storeRoot names →
          ∃ entry ∈ entries, entry.path = storeRoot.below names

/-- An index is not built without a package, and covers the packages whose segments lead down. -/
theorem build_covers (tree : files.IsTree)
    (built : build files environment store projectRoot = .ok entries) :
    Covers files environment store projectRoot entries := by
  obtain ⟨root, manifest, storeRoot, own, others, located, gathers, rfl⟩ :=
    build_eq_ok_iff.mp built
  obtain ⟨-, lists⟩ := gathers.lists tree
  refine ⟨root, manifest, storeRoot, located, fun group isGroup dependency member => ?_⟩
  have listed := Manifest.mem_dependencies.mpr ⟨group, isGroup, member⟩
  refine ⟨gathers.packagesExist dependency listed, fun package filled down => ?_⟩
  refine ⟨down.same_below (ne_nil_of_isDirectory gathers.storeExists), fun names belongs sees => ?_⟩
  obtain ⟨entry, isListed, path⟩ := (lists.exact (storeRoot.below names)).mpr
    ⟨names, rfl, sees, group, isGroup, dependency, member, package, filled, down, belongs⟩
  exact ⟨entry, List.mem_append_right _ isListed, path⟩

/-! ## A package behind a dot and one above the store -/

/-- A manifest with a dependency behind a dot and one that leads up. -/
def dottedManifest : String :=
  "\x7b\"source-directories\":[],\"dependencies\":\x7b\"direct\":\x7b\"./x\":\"1\",\"../o\":\"1\"\x7d,"
    ++ "\"indirect\":\x7b\x7d\x7d,\"test-dependencies\":\x7b\"direct\":\x7b\x7d,\"indirect\":\x7b\x7d\x7d\x7d"

/-- The project `/p`, the store `/s` with one of its packages, and the other one beside the store. -/
def dottedFiles : FileSystem where
  -- The names of one byte are `p`, `s`, `x`, `1` and `o`.
  entries :=
    [([[0x70]], .directory directoryMode),
      ([[0x70], Utf8.encode manifestName], .file (Utf8.encode dottedManifest) fileMode),
      ([[0x73]], .directory directoryMode), ([[0x73], [0x78]], .directory directoryMode),
      ([[0x73], [0x78], [0x31]], .directory directoryMode),
      ([[0x73], [0x78], [0x31], Utf8.encode manifestName], .file [] fileMode),
      ([[0x6F]], .directory directoryMode), ([[0x6F], [0x31]], .directory directoryMode),
      ([[0x6F], [0x31], Utf8.encode manifestName], .file [] fileMode)]
  workingDirectory := []

/-- The sample is a tree. -/
theorem isTree_dottedFiles : dottedFiles.IsTree := by
  unfold FileSystem.IsTree
  decide

/-- The project of the sample. -/
def dottedRoot : Path := .ofString "/p"

/-- The store of the sample. -/
def dottedStore : Path := .ofString "/s"

/-- A walk through the project of the sample lists its manifest. -/
theorem run_dottedRoot : ((Selection.project dottedRoot).walk dottedRoot).run dottedFiles =
    .ok [dottedRoot.manifest] :=
  Walk.run_of_filesThrough? (by decide) rfl rfl rfl

/-- A walk through the store of the sample lists only the package behind the dot. -/
theorem run_dottedStore :
    ((Selection.ofDependencies dottedStore [⟨"../o", "1"⟩, ⟨"./x", "1"⟩]).walk dottedStore).run
      dottedFiles = .ok [.ofString "/s/x/1/elm.json"] :=
  Walk.run_of_filesThrough? (by decide) rfl rfl rfl

/-- What the manifest of the sample says. -/
def dotted : Manifest where
  sourceDirectories := []
  direct := ⟨[("../o", "1"), ("./x", "1")]⟩
  indirect := .empty
  testDirect := .empty
  testIndirect := .empty
  elmVersion := none

/-- What the sample depends on, in order. -/
theorem dependencies_dotted : dotted.dependencies = [⟨"../o", "1"⟩, ⟨"./x", "1"⟩] := by
  decide

/-- The manifest of the sample is loaded. -/
theorem load_dotted : Manifest.load dottedFiles dottedRoot = .ok dotted :=
  Manifest.load_of_stat (FileSystem.stat_of_through? (by decide) rfl rfl) (by decide +kernel)

/-- The project and the store of the sample are found. -/
theorem located_dotted (environment : Environment) :
    Located dottedFiles environment (.fixed dottedStore) dottedRoot dottedRoot dotted dottedStore where
  canonical := by
    rw [FileSystem.canonical, FileSystem.locate_of_through? (by decide) rfl]
    rfl
  loaded := load_dotted
  stored := rfl

/-- The index of the sample. -/
def dottedEntries : List IndexEntry :=
  [⟨dottedRoot.manifest, dottedManifest⟩, ⟨.ofString "/s/x/1/elm.json", ""⟩]

/-- The index of the sample is built, without the package above the store. -/
theorem build_dotted (environment : Environment) :
    build dottedFiles environment (.fixed dottedStore) dottedRoot = .ok dottedEntries := by
  refine build_eq_ok_iff.mpr ⟨dottedRoot, dotted, dottedStore, [⟨dottedRoot.manifest, dottedManifest⟩],
    [⟨.ofString "/s/x/1/elm.json", ""⟩], located_dotted environment, ?_, rfl⟩
  exact
    { storeExists := FileSystem.isDirectory_of_through? (by decide) rfl rfl
      packagesExist := by
        rw [dependencies_dotted, List.forall_mem_cons, List.forall_mem_singleton]
        exact ⟨FileSystem.isDirectory_of_through? (by decide) rfl rfl,
          FileSystem.isDirectory_of_through? (by decide) rfl rfl⟩
      ranOwn := run_dottedRoot
      ranOthers := by
        rw [dependencies_dotted]
        exact run_dottedStore
      contents := by
        rw [List.singleton_append, List.forall_mem_cons, List.forall_mem_singleton]
        exact ⟨⟨Utf8.encode dottedManifest, fileMode, FileSystem.stat_of_through? (by decide) rfl rfl,
            (Utf8.decodeLossy_of_decode? (Utf8.decode?_encode dottedManifest)).symm⟩,
          ⟨[], fileMode, FileSystem.stat_of_through? (by decide) rfl rfl, rfl⟩⟩ }

/-- The index of the sample lists its files and those of the packages whose segments lead down. -/
theorem build_isExact_dotted :
    dottedFiles.IsTree ∧
      build dottedFiles ⟨[], none, 1⟩ (.fixed dottedStore) dottedRoot = .ok dottedEntries ∧
      IsExact Path.LeadsDown dottedFiles ⟨[], none, 1⟩ (.fixed dottedStore) dottedRoot
        dottedEntries :=
  ⟨isTree_dottedFiles, build_dotted _, build_isExact isTree_dottedFiles (build_dotted _)⟩

/-- The index of the sample has the package behind the dot, which a listing by segments that are
names alone does not. -/
theorem build_lists_dotted_package :
    dottedFiles.IsTree ∧
      build dottedFiles ⟨[], none, 1⟩ (.fixed dottedStore) dottedRoot = .ok dottedEntries ∧
      ¬ IsExact (fun segment names => segment.components = names.map .named) dottedFiles
        ⟨[], none, 1⟩ (.fixed dottedStore) dottedRoot dottedEntries := by
  refine ⟨isTree_dottedFiles, build_dotted _, ?_⟩
  rintro ⟨root, manifest, storeRoot, own, others, located, whole, ownLists, othersLists⟩
  obtain ⟨rfl, rfl, rfl⟩ := located.unique (located_dotted _)
  have listed : ⟨.ofString "/s/x/1/elm.json", ""⟩ ∈ own ++ others := by
    rw [← whole]
    decide
  -- The entry is no file of the project, which lies elsewhere, nor one of a package with names
  -- alone, since both segments begin with another component.
  rcases List.mem_append.mp listed with isOwn | isOther
  · obtain ⟨names, path, ⟨location, -, sees⟩, -⟩ :=
      (ownLists.exact (.ofString "/s/x/1/elm.json")).mp ⟨_, isOwn, rfl⟩
    have inside : dottedRoot.components <+: (Path.ofString "/s/x/1/elm.json").components := by
      rw [path, Path.components_below _ (sees.isEntryName isTree_dottedFiles)]
      exact List.prefix_append _ _
    exact absurd inside (by decide)
  · obtain ⟨names, -, -, group, isGroup, dependency, member, package, filled, goes, -⟩ :=
      (othersLists.exact _).mp ⟨_, isOther, rfl⟩
    have unnamed : ∀ dependency ∈ dotted.dependencies,
        dependency.segment.components.head? = some .up ∨
          dependency.segment.components.head? = some .here := by
      decide
    have begins := unnamed dependency (Manifest.mem_dependencies.mpr ⟨group, isGroup, member⟩)
    rw [goes] at begins
    cases package with
    | nil => exact filled rfl
    | cons first rest => simp at begins

/-- The index of the sample covers the packages whose segments lead down. -/
theorem build_covers_dotted :
    dottedFiles.IsTree ∧
      build dottedFiles ⟨[], none, 1⟩ (.fixed dottedStore) dottedRoot = .ok dottedEntries ∧
      Covers dottedFiles ⟨[], none, 1⟩ (.fixed dottedStore) dottedRoot dottedEntries :=
  ⟨isTree_dottedFiles, build_dotted _, build_covers isTree_dottedFiles (build_dotted _)⟩

/-- The index of the sample is built without the package above the store, although that package
is there and has a manifest. -/
theorem build_omits_package_above :
    build dottedFiles ⟨[], none, 1⟩ (.fixed dottedStore) dottedRoot = .ok dottedEntries ∧
      Located dottedFiles ⟨[], none, 1⟩ (.fixed dottedStore) dottedRoot dottedRoot dotted
        dottedStore ∧
      ∃ dependency ∈ dotted.dependencies,
        dottedFiles.stat (dottedStore.join dependency.segment).manifest = .ok (.file [] fileMode) ∧
        ∀ entry ∈ dottedEntries, dottedFiles.locate entry.path ≠
          dottedFiles.locate (dottedStore.join dependency.segment).manifest := by
  refine ⟨build_dotted _, located_dotted _, ⟨"../o", "1"⟩, by decide,
    FileSystem.stat_of_through? (by decide) rfl rfl, ?_⟩
  have above : dottedFiles.locate (dottedStore.join (Dependency.segment ⟨"../o", "1"⟩)).manifest =
      .ok [[0x6F], [0x31], Utf8.encode manifestName] :=
    FileSystem.locate_of_through? (by decide) rfl
  rw [above, dottedEntries, List.forall_mem_cons, List.forall_mem_singleton]
  have own : dottedFiles.locate dottedRoot.manifest = .ok [[0x70], Utf8.encode manifestName] :=
    FileSystem.locate_of_through? (by decide) rfl
  have other : dottedFiles.locate (.ofString "/s/x/1/elm.json") =
      .ok [[0x73], [0x78], [0x31], Utf8.encode manifestName] :=
    FileSystem.locate_of_through? (by decide) rfl
  rw [own, other]
  decide

end ElmWorkbench.Index
