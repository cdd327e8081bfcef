import ElmWorkbench.Proofs.Project.Index
import ElmWorkbench.Settings.Basic
/-!
# Where a project and its packages lie

The root of a project is looked up before its files are listed, so they have absolute paths. The
store of packages is used as it is given: the files of packages have absolute paths just if the
settings, the environment or the manifest lead to the store by an absolute path
(`listings_isAbsolute_iff`).

The two parts of an index know nothing of each other. Each lists a path once, and a path is listed
twice just if it is the path of a file of the project and of one of a package
(`Index.build_isDistinct_iff`). For that a package has to lie in the project, hidden by no build
cache and no installed tools, or the project among the sources of a package (`Path.Overlaps`).
-/

namespace ElmWorkbench

/-! ## Paths to the store -/

namespace PackageStore

/-- What leads to a store is an absolute path: the store as it is given, or the Elm home, or the
version that a manifest names, which then takes the place of the home. -/
def IsAbsolute (store : PackageStore) (environment : Environment) (elmVersion : Option String) :
    Prop :=
  match store with
  | .fixed root => root.isAbsolute
  | _ => (∃ home, store.home environment = .ok home ∧ home.isAbsolute) ∨
      ∃ version, elmVersion = some version ∧ (Path.ofString version).isAbsolute

variable {store : PackageStore} {environment : Environment} {elmVersion : Option String}
  {projectRoot storeRoot home : Path}

/-- A store below an Elm home is absolute if the home or the version in between is. -/
theorem isAbsolute_below_home (version : String) :
    ((home.child version).known .packageStore).isAbsolute ↔
      home.isAbsolute ∨ (Path.ofString version).isAbsolute := by
  rw [Path.known, Path.child, Path.isAbsolute_join (by decide), Path.child]
  by_cases absolute : (Path.ofString version).isAbsolute
  · simp [Path.join, absolute]
  · rw [Path.isAbsolute_join (by simpa using absolute), or_iff_left absolute]

/-- A store that is not given itself lies below the Elm home, in the directory of a version. -/
theorem exists_of_root (stored : store.root environment elmVersion projectRoot = .ok storeRoot) :
    store = .fixed storeRoot ∨ (∀ root, store ≠ .fixed root) ∧
      ∃ home version, store.home environment = .ok home ∧ elmVersion = some version ∧
        (home.child version).known .packageStore = storeRoot := by
  cases store with
  | fixed root =>
    cases stored
    exact .inl rfl
  | discover | elmHome =>
    rw [root, Except.bind_eq_ok_iff] at stored
    · obtain ⟨home, isHome, selected⟩ := stored
      cases elmVersion with
      | none => cases selected
      | some version => exact .inr ⟨nofun, home, version, isHome, rfl, Except.ok.inj selected⟩
    · nofun

/-- The place of a store is absolute just if what leads to it is. -/
theorem isAbsolute_root_iff
    (stored : store.root environment elmVersion projectRoot = .ok storeRoot) :
    storeRoot.isAbsolute ↔ store.IsAbsolute environment elmVersion := by
  rcases exists_of_root stored with rfl | ⟨notFixed, home, version, isHome, rfl, rfl⟩
  · rfl
  · rw [isAbsolute_below_home, IsAbsolute]
    · simp [isHome]
    · exact notFixed

end PackageStore

/-! ## Packages in a project -/

namespace Path

/-- The root of a project and the directory of a package overlap: the package lies in the project,
where no build cache and no installed tools hide it, or the project lies among the sources of the
package. -/
def Overlaps (root package : Path) : Prop :=
  (∃ names : List Bytes, package.components = root.components ++ names.map .named ∧
    ∀ name ∈ names, name ≠ KnownDirectory.buildCache.nameBytes ∧
      name ≠ KnownDirectory.installedTools.nameBytes) ∨
    ∃ inner, root.components =
      package.components ++ .named KnownDirectory.packageSource.nameBytes :: inner

end Path

/-- A file of a package lies in the directory for sources unless it lies in the package itself. -/
theorem IsPackageFile.exists_eq_append {package names : List Bytes}
    (belongs : IsPackageFile package names) :
    ∃ first rest, names = package ++ first :: rest ∧
      (rest ≠ [] → first = KnownDirectory.packageSource.nameBytes) := by
  rcases belongs with whole | ⟨directories, name, -, whole⟩
  · exact ⟨_, [], whole, fun filled => absurd rfl filled⟩
  · exact ⟨_, _, whole, fun _ => rfl⟩

/-- Nothing on the way to a file of a project is hidden. -/
theorem IsProjectFile.not_hidden {front rest : List Bytes} (isOwn : IsProjectFile (front ++ rest))
    (nonempty : rest ≠ []) : ∀ name ∈ front, name ≠ KnownDirectory.buildCache.nameBytes ∧
      name ≠ KnownDirectory.installedTools.nameBytes := by
  obtain ⟨directories, last, whole, -, free⟩ := isOwn
  obtain ⟨between, other, rfl⟩ := (List.eq_nil_or_concat' rest).resolve_left nonempty
  rw [← List.append_assoc] at whole
  obtain ⟨rfl, -⟩ := List.append_singleton_inj.mp whole
  exact fun name member => free name (List.mem_append_left _ member)

/-- The names of a file of the project are not none. -/
theorem IsProjectFile.ne_nil {names : List Bytes} (isOwn : IsProjectFile names) : names ≠ [] := by
  obtain ⟨directories, last, rfl, -⟩ := isOwn
  simp

/-- One path leads to a file of a project and to one of a package only if the two overlap. -/
theorem Path.overlaps_of_same {root storeRoot : Path} {package own other : List Bytes}
    (isOwn : IsProjectFile own) (belongs : IsPackageFile package other)
    (ownEntries : ∀ name ∈ own, Path.IsEntryName name)
    (otherEntries : ∀ name ∈ other, Path.IsEntryName name)
    (same : (root.below own).same (storeRoot.below other)) :
    root.Overlaps (storeRoot.below package) := by
  obtain ⟨first, rest, rfl, inSources⟩ := belongs.exists_eq_append
  obtain ⟨packageEntries, -⟩ := List.forall_mem_append.mp otherEntries
  rw [Path.same, decide_eq_true_iff, components_below root ownEntries,
    components_below storeRoot otherEntries, List.map_append, ← List.append_assoc,
    ← components_below storeRoot packageEntries] at same
  -- Of two directories before one file, one lies in the other.
  rcases List.append_eq_append_iff.mp same with ⟨between, inside, ownNames⟩ |
    ⟨between, inside, otherNames⟩
  · obtain ⟨front, back, rfl, rfl, sameBack⟩ := List.map_eq_append_iff.mp ownNames
    have nonempty : back ≠ [] := by
      rintro rfl
      cases sameBack
    exact .inl ⟨front, inside, isOwn.not_hidden nonempty⟩
  · cases between with
    | nil => exact .inl ⟨[], by simpa using inside.symm, by simp⟩
    | cons next inner =>
      obtain ⟨rfl, furtherNames⟩ := List.cons.inj otherNames
      have further : rest ≠ [] := by
        rintro rfl
        simp [isOwn.ne_nil] at furtherNames
      exact .inr ⟨inner, by rw [inside, inSources further]⟩

namespace Index

variable {files : FileSystem} {environment : Environment} {store : PackageStore}
  {projectRoot root storeRoot path : Path} {manifest : Manifest}
  {entries own others : List IndexEntry}

/-! ## The parts of an index -/

/-- The parts of an index: the files of the project that is found and those of its packages. -/
structure IsParted (files : FileSystem) (environment : Environment) (store : PackageStore)
    (projectRoot root : Path) (manifest : Manifest) (storeRoot : Path)
    (entries own others : List IndexEntry) : Prop where
  located : Located files environment store projectRoot root manifest storeRoot
  whole : entries = own ++ others
  ownLists : Lists files root IsProjectFile own
  otherLists : Lists files storeRoot (manifest.Wants Path.LeadsDown) others

/-- An index that is built has its two parts. -/
theorem exists_isParted (tree : files.IsTree)
    (built : build files environment store projectRoot = .ok entries) :
    ∃ root manifest storeRoot own others,
      IsParted files environment store projectRoot root manifest storeRoot entries own others := by
  obtain ⟨root, manifest, storeRoot, own, others, located, gathers, rfl⟩ :=
    build_eq_ok_iff.mp built
  obtain ⟨ownLists, otherLists⟩ := gathers.lists tree
  exact ⟨root, manifest, storeRoot, own, others, located, rfl, ownLists, otherLists⟩

/-- An entry that is listed is seen by wanted names. -/
theorem Lists.exists_names {wanted : List Bytes → Prop} {entry : IndexEntry}
    (lists : Lists files root wanted entries) (member : entry ∈ entries) :
    ∃ names, entry.path = root.below names ∧ files.SeesBelow root names ∧ wanted names :=
  (lists.exact entry.path).mp ⟨entry, member, rfl⟩

/-- The names by which a file is seen below a root are those of entries. -/
theorem isEntryName_of_seesBelow {names : List Bytes} (tree : files.IsTree)
    (sees : files.SeesBelow root names) : ∀ name ∈ names, Path.IsEntryName name := by
  obtain ⟨location, -, sees⟩ := sees
  exact sees.isEntryName tree

/-- The paths of a listing begin as its root does. -/
theorem Lists.isAbsolute_iff {wanted : List Bytes → Prop} (lists : Lists files root wanted entries)
    (tree : files.IsTree) : ∀ entry ∈ entries, entry.path.isAbsolute ↔ root.isAbsolute := by
  intro entry member
  obtain ⟨names, path, sees, -⟩ := lists.exists_names member
  rw [path, Path.isAbsolute_below root (isEntryName_of_seesBelow tree sees)]

/-- The paths of a listing differ in their components. -/
theorem Lists.distinctPaths {wanted : List Bytes → Prop} (lists : Lists files root wanted entries) :
    entries.Pairwise fun left right => ¬ left.path.same right.path :=
  lists.ascending.imp Path.Before.not_same

end Index

/-! ## Absolute paths -/

/-- Listings of sources have absolute paths, and so has an index as far as it lists the project. The
paths of packages are absolute just if an absolute path leads to the store that is set. -/
theorem listings_isAbsolute_iff {files : FileSystem} (tree : files.IsTree) :
    (∀ (environment : Environment) (settings : Settings) (projectRoot : Path)
      (entries : List IndexEntry),
      Index.build files environment settings.packageStore projectRoot = .ok entries →
        ∃ root manifest storeRoot own others,
          Index.IsParted files environment settings.packageStore projectRoot root manifest storeRoot
            entries own others ∧
          (∀ entry ∈ own, entry.path.isAbsolute) ∧
          ∀ entry ∈ others, entry.path.isAbsolute ↔
            settings.packageStore.IsAbsolute environment manifest.elmVersion) ∧
    ∀ (projectRoot : Path) (paths : List Path), listSources files projectRoot = .ok paths →
      ∀ path ∈ paths, path.isAbsolute := by
  constructor
  · intro environment settings projectRoot entries built
    obtain ⟨root, manifest, storeRoot, own, others, parted⟩ := Index.exists_isParted tree built
    have absolute := FileSystem.isAbsolute_canonical parted.located.canonical
    have stored := PackageStore.isAbsolute_root_iff parted.located.stored
    exact ⟨root, manifest, storeRoot, own, others, parted,
      fun entry member => (parted.ownLists.isAbsolute_iff tree entry member).mpr absolute,
      fun entry member => (parted.otherLists.isAbsolute_iff tree entry member).trans stored⟩
  · intro projectRoot paths listed path member
    obtain ⟨root, manifest, canonical, -, ran⟩ := listSources_eq_ok_iff.mp listed
    have absolute := FileSystem.isAbsolute_canonical canonical
    obtain ⟨names, rfl, ⟨location, -, meets⟩, -⟩ :=
      (Walk.mem_run_iff_meets rfl tree absolute ran).mp member
    exact (Path.isAbsolute_below root (meets.isEntryName tree)).trans absolute

namespace Index

/-! ## Paths that are listed twice -/

/-- Names below a project and names below a store that lead to one path, which is that of a file of
the project and of a file of a package. -/
structure Shares (files : FileSystem) (root : Path) (manifest : Manifest) (storeRoot : Path)
    (own other : List Bytes) : Prop where
  samePath : (root.below own).same (storeRoot.below other)
  isFile : files.SeesBelow root own
  isProjectFile : IsProjectFile own
  isOtherFile : files.SeesBelow storeRoot other
  isPackageFile : manifest.Wants Path.LeadsDown other

/-- No package that a manifest depends on overlaps the project. -/
def IsApart (root : Path) (manifest : Manifest) (storeRoot : Path) : Prop :=
  ∀ group ∈ manifest.groups, ∀ dependency ∈ group.dependencies, ∀ package, package ≠ [] →
    dependency.segment.LeadsDown package → ¬ root.Overlaps (storeRoot.below package)

variable {ownNames otherNames : List Bytes}

/-- A project without a package that overlaps it shares no file with the store. -/
theorem IsApart.not_shares (apart : IsApart root manifest storeRoot) (tree : files.IsTree) :
    ¬ Shares files root manifest storeRoot ownNames otherNames := by
  intro shares
  obtain ⟨group, isGroup, dependency, member, package, filled, down, belongs⟩ :=
    shares.isPackageFile
  exact apart group isGroup dependency member package filled down
    (Path.overlaps_of_same shares.isProjectFile belongs
      (isEntryName_of_seesBelow tree shares.isFile)
      (isEntryName_of_seesBelow tree shares.isOtherFile) shares.samePath)

/-- The parts of an index list one path just if names below the project and names below the store
lead to it. -/
theorem IsParted.distinct_iff
    (parted : IsParted files environment store projectRoot root manifest storeRoot entries own
      others) :
    (entries.Pairwise fun left right => ¬ left.path.same right.path) ↔
      ∀ ownNames otherNames, ¬ Shares files root manifest storeRoot ownNames otherNames := by
  rw [parted.whole, List.pairwise_append, and_iff_right parted.ownLists.distinctPaths,
    and_iff_right parted.otherLists.distinctPaths]
  constructor
  · intro apart ownNames otherNames shares
    obtain ⟨entry, member, path⟩ :=
      (parted.ownLists.exact _).mpr ⟨ownNames, rfl, shares.isFile, shares.isProjectFile⟩
    obtain ⟨other, otherMember, otherPath⟩ :=
      (parted.otherLists.exact _).mpr ⟨otherNames, rfl, shares.isOtherFile, shares.isPackageFile⟩
    exact apart entry member other otherMember (by rw [path, otherPath]; exact shares.samePath)
  · intro apart entry member other otherMember same
    obtain ⟨ownNames, path, sees, isOwn⟩ := parted.ownLists.exists_names member
    obtain ⟨otherNames, otherPath, otherSees, wanted⟩ :=
      parted.otherLists.exists_names otherMember
    rw [path, otherPath] at same
    exact apart ownNames otherNames ⟨same, sees, isOwn, otherSees, wanted⟩

/-- The project and the store each list a path once, and the paths of a whole index are distinct
just if no path is that of a file of the project and of one of a package. So they are if no package
overlaps the project. -/
theorem build_isDistinct_iff (tree : files.IsTree)
    (built : build files environment store projectRoot = .ok entries) :
    ∃ root manifest storeRoot own others,
      IsParted files environment store projectRoot root manifest storeRoot entries own others ∧
      (own.Pairwise fun left right => ¬ left.path.same right.path) ∧
      (others.Pairwise fun left right => ¬ left.path.same right.path) ∧
      ((entries.Pairwise fun left right => ¬ left.path.same right.path) ↔
        ∀ ownNames otherNames, ¬ Shares files root manifest storeRoot ownNames otherNames) ∧
      (IsApart root manifest storeRoot →
        entries.Pairwise fun left right => ¬ left.path.same right.path) := by
  obtain ⟨root, manifest, storeRoot, own, others, parted⟩ := exists_isParted tree built
  exact ⟨root, manifest, storeRoot, own, others, parted, parted.ownLists.distinctPaths,
    parted.otherLists.distinctPaths, parted.distinct_iff,
    fun apart => parted.distinct_iff.mpr fun _ _ => apart.not_shares tree⟩

/-- The project and the store of the earlier sample lie beside each other. -/
theorem isApart_dotted : IsApart dottedRoot dotted dottedStore := by
  intro group isGroup dependency member package filled down overlaps
  have inside := Path.components_below dottedStore down.isEntryName
  have root : dottedRoot.components = [.root, .named [0x70]] := by decide
  have store : dottedStore.components = [.root, .named [0x73]] := by decide
  rw [store] at inside
  rcases overlaps with ⟨names, within, -⟩ | ⟨inner, within⟩
  · simp [inside, root] at within
  · simp [inside, root] at within

/-- The index of the sample lists no path twice. -/
theorem build_isDistinct_iff_dotted :
    dottedFiles.IsTree ∧
      build dottedFiles ⟨[], none, 1⟩ (.fixed dottedStore) dottedRoot = .ok dottedEntries ∧
      dottedEntries.Pairwise fun left right => ¬ left.path.same right.path := by
  obtain ⟨root, manifest, storeRoot, own, others, parted, -, -, -, distinct⟩ :=
    build_isDistinct_iff isTree_dottedFiles (build_dotted ⟨[], none, 1⟩)
  obtain ⟨rfl, rfl, rfl⟩ := parted.located.unique (located_dotted _)
  exact ⟨isTree_dottedFiles, build_dotted _, distinct isApart_dotted⟩

/-! ## A project that holds its own packages -/

/-- A manifest with one dependency. -/
def nestedManifest : String :=
  "\x7b\"source-directories\":[],\"elm-version\":\"v\",\"dependencies\":\x7b"
    ++ "\"direct\":\x7b\"x\":\"1\"\x7d,\"indirect\":\x7b\x7d\x7d,"
    ++ "\"test-dependencies\":\x7b\"direct\":\x7b\x7d,\"indirect\":\x7b\x7d\x7d\x7d"

/-- What the manifest says. -/
def nested : Manifest where
  sourceDirectories := []
  direct := ⟨[("x", "1")]⟩
  indirect := .empty
  testDirect := .empty
  testIndirect := .empty
  elmVersion := some "v"

/-- Where the packages of the sample are. -/
def nestedLocation : Location := [[0x70], [0x68], [0x76], Utf8.encode "packages"]

/-- The project `/p`, which is worked in, with the Elm home `h` and a package with one source. -/
def nestedFiles : FileSystem where
  -- The names of one byte are `p`, `h`, `v`, `x` and `1`.
  entries :=
    [([[0x70]], .directory directoryMode),
      ([[0x70], Utf8.encode manifestName], .file (Utf8.encode nestedManifest) fileMode),
      ([[0x70], [0x68]], .directory directoryMode),
      ([[0x70], [0x68], [0x76]], .directory directoryMode),
      (nestedLocation, .directory directoryMode),
      (nestedLocation ++ [[0x78]], .directory directoryMode),
      (nestedLocation ++ [[0x78], [0x31]], .directory directoryMode),
      (nestedLocation ++ [[0x78], [0x31], Utf8.encode manifestName], .file [] fileMode),
      (nestedLocation ++ [[0x78], [0x31], Utf8.encode "src"], .directory directoryMode),
      (nestedLocation ++ [[0x78], [0x31], Utf8.encode "src", Utf8.encode "A.elm"],
        .file [] fileMode)]
  workingDirectory := [[0x70]]

/-- The project of the sample. -/
def nestedRoot : Path := .ofString "/p"

/-- The Elm home of the sample. -/
def nestedHome : Path := .ofString "/p/h"

/-- The Elm home of the sample as it is called in the project. -/
def relativeHome : Path := .ofString "h"

/-- Settings with that Elm home. -/
def relativeSettings : Settings :=
  { Settings.default with elmHome := some relativeHome }

/-- The store of the sample. -/
def nestedStore : Path := .ofString "/p/h/v/packages"

/-- The store of the sample as it is called in the project. -/
def relativeStore : Path := .ofString "h/v/packages"

/-- The sample is a tree. -/
theorem isTree_nestedFiles : nestedFiles.IsTree := by
  unfold FileSystem.IsTree
  decide

/-- The sample has one dependency. -/
theorem dependencies_nested : nested.dependencies = [⟨"x", "1"⟩] := by
  decide

/-- The project of the sample and its store are found. -/
theorem located_nested {environment : Environment} {home : Path}
    (isStore : (home.child "v").known .packageStore = storeRoot) :
    Located nestedFiles environment (.elmHome home) nestedRoot nestedRoot nested storeRoot where
  canonical := by
    rw [FileSystem.canonical, FileSystem.locate_of_through? (by decide) rfl]
    rfl
  loaded := Manifest.load_of_stat (FileSystem.stat_of_through? (by decide) rfl rfl)
    (by decide +kernel)
  stored := congrArg Except.ok isStore

/-- Nothing hides the Elm home, so the walk goes down to the sources of the package. -/
theorem run_nestedRoot : ((Selection.project nestedRoot).walk nestedRoot).run nestedFiles =
    .ok [nestedRoot.manifest, .ofString "/p/h/v/packages/x/1/src/A.elm"] :=
  Walk.run_of_filesThrough? (by decide) rfl rfl rfl

/-- A walk through the store of the sample lists the files of its package. -/
theorem run_nestedStore :
    ((Selection.ofDependencies nestedStore [⟨"x", "1"⟩]).walk nestedStore).run nestedFiles =
      .ok [.ofString "/p/h/v/packages/x/1/elm.json",
        .ofString "/p/h/v/packages/x/1/src/A.elm"] :=
  Walk.run_of_filesThrough? (by decide) rfl rfl rfl

/-- The same walk from a relative store lists relative paths. -/
theorem run_relativeStore :
    ((Selection.ofDependencies relativeStore [⟨"x", "1"⟩]).walk relativeStore).run nestedFiles =
      .ok [.ofString "h/v/packages/x/1/elm.json", .ofString "h/v/packages/x/1/src/A.elm"] :=
  Walk.run_of_filesThrough? (by decide) rfl rfl rfl

/-- The entries of the sample that belong to the project. -/
def nestedOwn : List IndexEntry :=
  [⟨nestedRoot.manifest, nestedManifest⟩, ⟨.ofString "/p/h/v/packages/x/1/src/A.elm", ""⟩]

/-- The entries of the sample that belong to its package. -/
def nestedOthers : List IndexEntry :=
  [⟨.ofString "/p/h/v/packages/x/1/elm.json", ""⟩, ⟨.ofString "/p/h/v/packages/x/1/src/A.elm", ""⟩]

/-- The same entries as they are called in the project. -/
def relativeOthers : List IndexEntry :=
  [⟨.ofString "h/v/packages/x/1/elm.json", ""⟩, ⟨.ofString "h/v/packages/x/1/src/A.elm", ""⟩]

/-- An entry holds the text of the file that its path leads to without links. -/
theorem hasContents_of_through? {location : Location} {text : String} {mode : Nat}
    (limits : FileSystem.checkLimits path = .ok ())
    (through : files.through? (files.origin path) path.parts = some location)
    (found : files.find? location = some (.file (Utf8.encode text) mode)) :
    HasContents files ⟨path, text⟩ :=
  ⟨Utf8.encode text, mode, FileSystem.stat_of_through? limits through found,
    (Utf8.decodeLossy_of_decode? (Utf8.decode?_encode text)).symm⟩

/-- The entries of the project in the sample hold its texts. -/
theorem hasContents_nestedOwn : ∀ entry ∈ nestedOwn, HasContents nestedFiles entry := by
  rw [nestedOwn, List.forall_mem_cons, List.forall_mem_singleton]
  exact ⟨hasContents_of_through? (by decide) rfl rfl, hasContents_of_through? (by decide) rfl rfl⟩

/-- The index of the sample by a path to the Elm home. -/
theorem build_of_home {environment : Environment} {home : Path}
    (isStore : (home.child "v").known .packageStore = storeRoot)
    (storeExists : nestedFiles.isDirectory storeRoot)
    (packageExists : nestedFiles.isDirectory (storeRoot.join (Dependency.segment ⟨"x", "1"⟩)))
    (ranOthers : ((Selection.ofDependencies storeRoot [⟨"x", "1"⟩]).walk storeRoot).run
      nestedFiles = .ok (others.map IndexEntry.path))
    (contents : ∀ entry ∈ others, HasContents nestedFiles entry) :
    build nestedFiles environment (.elmHome home) nestedRoot = .ok (nestedOwn ++ others) := by
  refine build_eq_ok_iff.mpr ⟨nestedRoot, nested, storeRoot, nestedOwn, others,
    located_nested isStore, ?_, rfl⟩
  exact
    { storeExists
      packagesExist := by
        rw [dependencies_nested, List.forall_mem_singleton]
        exact packageExists
      ranOwn := run_nestedRoot
      ranOthers := by
        rw [dependencies_nested]
        exact ranOthers
      contents := List.forall_mem_append.mpr ⟨hasContents_nestedOwn, contents⟩ }

/-- The index of the sample lists the sources of the package twice. -/
theorem build_nested (environment : Environment) :
    build nestedFiles environment (.elmHome nestedHome) nestedRoot =
      .ok (nestedOwn ++ nestedOthers) := by
  refine build_of_home (by decide) (FileSystem.isDirectory_of_through? (by decide) rfl rfl)
    (FileSystem.isDirectory_of_through? (by decide) rfl rfl) run_nestedStore ?_
  rw [nestedOthers, List.forall_mem_cons, List.forall_mem_singleton]
  exact ⟨hasContents_of_through? (by decide) rfl rfl, hasContents_of_through? (by decide) rfl rfl⟩

/-- With a relative Elm home the index of the sample lists relative paths. -/
theorem build_relative (environment : Environment) :
    build nestedFiles environment relativeSettings.packageStore nestedRoot =
      .ok (nestedOwn ++ relativeOthers) := by
  refine build_of_home (by decide) (FileSystem.isDirectory_of_through? (by decide) rfl rfl)
    (FileSystem.isDirectory_of_through? (by decide) rfl rfl) run_relativeStore ?_
  rw [relativeOthers, List.forall_mem_cons, List.forall_mem_singleton]
  exact ⟨hasContents_of_through? (by decide) rfl rfl, hasContents_of_through? (by decide) rfl rfl⟩

/-- By a relative path to the Elm home, the index of the sample has relative paths. -/
theorem build_lists_relative_path :
    nestedFiles.IsTree ∧
      build nestedFiles ⟨[], none, 1⟩ relativeSettings.packageStore nestedRoot =
        .ok (nestedOwn ++ relativeOthers) ∧
      ¬ ∀ entry ∈ nestedOwn ++ relativeOthers, entry.path.isAbsolute :=
  ⟨isTree_nestedFiles, build_relative _, by decide⟩

/-- A relative Elm home gives relative paths for the packages alone. -/
theorem listings_isAbsolute_iff_relative :
    nestedFiles.IsTree ∧
      build nestedFiles ⟨[], none, 1⟩ relativeSettings.packageStore nestedRoot =
        .ok (nestedOwn ++ relativeOthers) ∧
      ∃ own others, nestedOwn ++ relativeOthers = own ++ others ∧
        (∀ entry ∈ own, entry.path.isAbsolute) ∧
        ∀ entry ∈ others, entry.path.isAbsolute = false := by
  obtain ⟨root, manifest, storeRoot, own, others, parted, absolute, relative⟩ :=
    (listings_isAbsolute_iff isTree_nestedFiles).1 ⟨[], none, 1⟩ relativeSettings nestedRoot _
      (build_relative _)
  obtain ⟨-, rfl, -⟩ := parted.located.unique (located_nested rfl)
  have isRelative :
      ¬ relativeSettings.packageStore.IsAbsolute ⟨[], none, 1⟩ nested.elmVersion := by
    rintro (⟨home, isHome, absolute⟩ | ⟨version, isVersion, absolute⟩)
    · cases isHome
      exact absurd absolute (by decide)
    · cases isVersion
      exact absurd absolute (by decide)
  exact ⟨isTree_nestedFiles, build_relative _, own, others, parted.whole, absolute,
    fun entry member => Bool.eq_false_iff.mpr ((relative entry member).not.mpr isRelative)⟩

/-- By an absolute path to the Elm home, the index of the sample lists a source of the package
twice. -/
theorem build_lists_path_twice :
    nestedFiles.IsTree ∧
      build nestedFiles ⟨[], none, 1⟩ (.elmHome nestedHome) nestedRoot =
        .ok (nestedOwn ++ nestedOthers) ∧
      ¬ (nestedOwn ++ nestedOthers).Pairwise fun left right => left.path ≠ right.path :=
  ⟨isTree_nestedFiles, build_nested _, by decide⟩

end Index

end ElmWorkbench
