import ElmWorkbench.Proofs.Except
import ElmWorkbench.Proofs.FileSystem.Meet
import ElmWorkbench.Proofs.Project.Selection
import ElmWorkbench.Proofs.Text.Utf8
/-!
# What a listing of sources holds

A listing of sources holds the source files inside the declared directories, as far as they lie in
no build cache and among no installed tools (`listSources_isExact`). The directories on the way to a
declared one are entered for the sake of what lies inside it only, so the names of a file alone tell
whether it is listed (`Selection.keeps_ofManifest_iff`). All that is listed is a part of what the
walk through the project lists for an index (`Selection.ofManifest_narrows`).
-/

namespace ElmWorkbench

/-! ## Declared directories -/

namespace Path

/-- A declared directory covers the directory that it leads down to, and all directories inside. -/
def Covers (declared : Path) (directories : List Bytes) : Prop :=
  ∃ front, declared.LeadsDown front ∧ front <+: directories

variable {declared : Path} {directories : List Bytes}

/-- A directory outside of the project covers none in it. -/
theorem not_covers (outside : declared.isAbsolute ∨ .up ∈ declared.components) :
    ¬ declared.Covers directories := by
  rintro ⟨front, down, -⟩
  rcases outside with absolute | up
  · simp [(leadsDown_iff.mp down).1] at absolute
  · rcases down with plain | dotted
    · simp [plain] at up
    · simp [dotted] at up

/-- The directory of the project itself covers all in it. -/
theorem covers_of_root (itself : declared.bytes = [] ∨ declared.bytes = dot) :
    declared.Covers directories := by
  obtain ⟨bytes⟩ := declared
  refine ⟨[], ?_, List.nil_prefix⟩
  rcases itself with rfl | rfl
  · exact .inl rfl
  · exact .inr rfl

end Path

/-- Names that lead from the root of a project to a source inside one of the directories that its
manifest declares, where no directory between them hides it. -/
def Manifest.Declares (manifest : Manifest) (names : List Bytes) : Prop :=
  ∃ directories name, names = directories ++ [name] ∧ IsSourceName name ∧
    (∃ declared ∈ manifest.sourceDirectories, declared.Covers directories) ∧
    ∀ directory ∈ directories, directory ≠ KnownDirectory.buildCache.nameBytes ∧
      directory ≠ KnownDirectory.installedTools.nameBytes

namespace Selection

variable {root : Path} {chosen : List (List Bytes)} {names directories : List Bytes} {name : Bytes}
  {manifest : Manifest}

/-- Names are inside of a chosen directory if they begin with those of one. -/
theorem isInside_iff : isInside chosen names ↔ ∃ front ∈ chosen, front <+: names := by
  simp [isInside]

/-- Names lead to a chosen directory if they are on the way to one or inside of one. -/
theorem leadsTo_iff :
    leadsTo chosen names ↔ ∃ front ∈ chosen, names <+: front ∨ front <+: names := by
  simp [leadsTo]

/-- All directories before one that lies inside a chosen one are on the way to it or inside it. -/
theorem leadsTo_of_isInside {front : List Bytes} (inside : isInside chosen directories)
    (isFront : front <+: directories) : leadsTo chosen front := by
  obtain ⟨directory, isChosen, begins⟩ := isInside_iff.mp inside
  exact leadsTo_iff.mpr ⟨directory, isChosen, List.prefix_or_prefix_of_prefix isFront begins⟩

/-- Names are inside of a declared directory if one covers them. -/
theorem isInside_filterMap_iff {declared : List Path} :
    isInside (declared.filterMap Path.names?) names ↔
      ∃ directory ∈ declared, directory.Covers names := by
  simp only [isInside_iff, List.mem_filterMap, Path.names?_eq_some_iff, Path.Covers]
  constructor
  · rintro ⟨front, ⟨directory, member, down⟩, isFront⟩
    exact ⟨directory, member, front, down, isFront⟩
  · rintro ⟨directory, member, front, down, isFront⟩
    exact ⟨front, ⟨directory, member, down⟩, isFront⟩

/-! ## What is kept -/

/-- The directories that are entered for sources are some of those that are entered for an index. -/
theorem keeps_sources_directory_iff (entries : ∀ part ∈ names, Path.IsEntryName part) :
    (sources root chosen).leavesOut (root.below names) .directory = false ↔
      (project root).leavesOut (root.below names) .directory = false ∧ leadsTo chosen names := by
  rw [leavesOut, Path.namesBelow?_below root entries, leavesOut]
  simp

/-- A source is kept if it lies inside a chosen directory. -/
theorem keeps_sources_file_iff (above : ∀ directory ∈ directories, Path.IsEntryName directory)
    (entry : Path.IsEntryName name) :
    (sources root chosen).leavesOut (root.below (directories ++ [name])) .file = false ↔
      IsSourceName name ∧ isInside chosen directories := by
  have entries : ∀ part ∈ directories ++ [name], Path.IsEntryName part :=
    List.forall_mem_append.mpr ⟨above, by simpa using entry⟩
  rw [leavesOut, Path.namesBelow?_below root entries]
  dsimp only
  rw [List.dropLast_concat, Path.below_concat, ← @isSource_join _ (root.below directories) entry]
  simp

/-- The walk for the sources of a manifest keeps those that the manifest declares. -/
theorem keeps_ofManifest_iff (nonempty : names ≠ [])
    (entries : ∀ part ∈ names, Path.IsEntryName part) :
    ((ofManifest root manifest).walk root).Keeps root names ↔ manifest.Declares names := by
  obtain ⟨directories, name, rfl⟩ := (List.eq_nil_or_concat' names).resolve_left nonempty
  obtain ⟨above, single⟩ := List.forall_mem_append.mp entries
  have entry : Path.IsEntryName name := single name List.mem_cons_self
  have fronts {front : List Bytes} (isFront : front <+: directories) :
      ∀ part ∈ front, Path.IsEntryName part := fun part member => above part (isFront.subset member)
  have free := @keeps_project_directories_iff root _ above
  simp only [Walk.keeps_concat_iff, ignores_walk, ofManifest]
  rw [keeps_sources_file_iff above entry]
  constructor
  · rintro ⟨⟨isSource, inside⟩, entered⟩
    refine ⟨directories, name, rfl, isSource, isInside_filterMap_iff.mp inside, free.mp ?_⟩
    intro front isFront filled
    exact ((keeps_sources_directory_iff (fronts isFront)).mp (entered front isFront filled)).1
  · rintro ⟨others, other, same, isSource, covered, unhidden⟩
    obtain ⟨rfl, rfl⟩ := List.append_singleton_inj.mp same
    have inside := isInside_filterMap_iff.mpr covered
    refine ⟨⟨isSource, inside⟩, fun front isFront filled => ?_⟩
    exact (keeps_sources_directory_iff (fronts isFront)).mpr
      ⟨free.mpr unhidden front isFront filled, leadsTo_of_isInside inside isFront⟩

/-- The walk for sources ignores all that the walk for an index of the project does. -/
theorem ofManifest_narrows (root : Path) (manifest : Manifest) :
    ((ofManifest root manifest).walk root).Narrows ((project root).walk root) where
  sameRoot := rfl
  sameLinks := rfl
  keeps path sort := by
    rw [ignores_walk, ignores_walk, ofManifest]
    cases sort with
    | directory =>
      rw [leavesOut, leavesOut]
      split
      · simp
      · intro kept
        exact (Bool.or_eq_false_iff.mp kept).1
    | file =>
      rw [leavesOut, leavesOut]
      split
      · simp
      · intro kept
        have isSource := (Bool.or_eq_false_iff.mp kept).1
        simp only [Bool.not_eq_false'] at isSource
        simp [isSource]

end Selection

/-! ## The listing -/

variable {files : FileSystem} {projectRoot root : Path} {manifest : Manifest} {paths : List Path}

/-- The root of a project is the canonical form of its path. -/
theorem canonicalRoot_eq_ok_iff :
    canonicalRoot files projectRoot = .ok root ↔ files.canonical projectRoot = .ok root := by
  rw [canonicalRoot]
  split
  · next same => rw [same, Except.ok.injEq, Except.ok.injEq]
  · next failed => simp [failed]
  · next failed => simp [failed]

/-- A manifest is loaded from a file that holds its text. -/
theorem Manifest.load_of_stat {text : String} {mode : Nat}
    (looked : files.stat root.manifest = .ok (.file (Utf8.encode text) mode))
    (parsed : Manifest.parse root.manifest text = .ok manifest) :
    Manifest.load files root = .ok manifest := by
  have read : files.readText root.manifest = .ok text := by
    rw [FileSystem.readText, FileSystem.readBytes, looked]
    simp only [Except.ok_bind, pure_bind, Utf8.decode?_encode]
    rfl
  rw [Manifest.load, read]
  exact parsed

/-- The sources that are listed are those that a walk below the root comes by. -/
theorem listSources_eq_ok_iff :
    listSources files projectRoot = .ok paths ↔
      ∃ root manifest, files.canonical projectRoot = .ok root ∧
        Manifest.load files root = .ok manifest ∧
        ((Selection.ofManifest root manifest).walk root).run files = .ok paths := by
  simp only [listSources, Except.bind_eq_ok_iff, canonicalRoot_eq_ok_iff, exists_and_left]

/-- Just the sources that a manifest declares below a root, in the order of their paths. -/
structure ListsDeclared (files : FileSystem) (root : Path) (manifest : Manifest)
    (paths : List Path) : Prop where
  exact : ∀ path, path ∈ paths ↔
    ∃ names, path = root.below names ∧ files.MeetsBelow root names ∧ manifest.Declares names
  ascending : paths.Pairwise Path.Before
  distinct : paths.Nodup

/-- A listing holds just the sources that the manifest declares. A declared directory outside of the
project adds nothing, and the project's own directory covers all of it. -/
theorem listSources_isExact (tree : files.IsTree)
    (listed : listSources files projectRoot = .ok paths) :
    (∃ root manifest, files.canonical projectRoot = .ok root ∧
      Manifest.load files root = .ok manifest ∧ ListsDeclared files root manifest paths) ∧
    (∀ (declared : Path) (directories : List Bytes),
      declared.isAbsolute ∨ .up ∈ declared.components → ¬ declared.Covers directories) ∧
    ∀ (declared : Path) (directories : List Bytes),
      declared.bytes = [] ∨ declared.bytes = Path.dot → declared.Covers directories := by
  obtain ⟨root, manifest, canonical, loaded, ran⟩ := listSources_eq_ok_iff.mp listed
  have ascending := Walk.pairwise_run tree ran
  refine ⟨⟨root, manifest, canonical, loaded, fun path => ?_, ascending,
    ascending.imp Path.Before.ne⟩, fun _ _ => Path.not_covers, fun _ _ => Path.covers_of_root⟩
  have absolute := FileSystem.isAbsolute_canonical canonical
  rw [Walk.mem_run_iff_meets rfl tree absolute ran]
  refine exists_congr fun names => and_congr_right fun _ => and_congr_right fun meets => ?_
  obtain ⟨location, -, meets⟩ := meets
  exact Selection.keeps_ofManifest_iff meets.ne_nil (meets.isEntryName tree)

/-! ## A project with a link in a declared directory -/

/-- A manifest that declares a directory behind a dot, one above the project and an absolute one. -/
def declaringManifest : String :=
  "\x7b\"source-directories\":[\"./s\",\"../o\",\"/o\"],\"dependencies\":\x7b\"direct\":\x7b\x7d,"
    ++ "\"indirect\":\x7b\x7d\x7d,\"test-dependencies\":\x7b\"direct\":\x7b\x7d,"
    ++ "\"indirect\":\x7b\x7d\x7d\x7d"

/-- The project `/p` with sources inside and outside of its declared directory `s`, and a directory
beside the project that a link in `s` leads to. -/
def declaringFiles : FileSystem where
  -- The names of one byte are `p`, `s`, `l` and `o`.
  entries :=
    [([[0x70]], .directory directoryMode),
      ([[0x70], Utf8.encode manifestName], .file (Utf8.encode declaringManifest) fileMode),
      ([[0x70], Utf8.encode "C.elm"], .file [] fileMode),
      ([[0x70], [0x73]], .directory directoryMode),
      ([[0x70], [0x73], Utf8.encode "A.elm"], .file [] fileMode),
      ([[0x70], [0x73], Utf8.encode "elm-stuff"], .directory directoryMode),
      ([[0x70], [0x73], Utf8.encode "elm-stuff", Utf8.encode "B.elm"], .file [] fileMode),
      ([[0x70], [0x73], [0x6C]], .link (.ofString "../../o")),
      ([[0x6F]], .directory directoryMode), ([[0x6F], Utf8.encode "D.elm"], .file [] fileMode)]
  workingDirectory := []

/-- What the manifest of the sample says. -/
def declaring : Manifest where
  sourceDirectories := [.ofString "./s", .ofString "../o", .ofString "/o"]
  direct := .empty
  indirect := .empty
  testDirect := .empty
  testIndirect := .empty
  elmVersion := none

/-- The project of the sample. -/
def declaringRoot : Path := .ofString "/p"

/-- The declared directory of the sample. -/
def declaredDirectory : Path := .ofString "/p/s"

/-- The sources that the sample declares. -/
def declaredPaths : List Path := [.ofString "/p/s/A.elm", .ofString "/p/s/l/D.elm"]

/-- The sample is a tree. -/
theorem isTree_declaringFiles : declaringFiles.IsTree := by
  unfold FileSystem.IsTree
  decide

/-- The declared directory of the sample is there. -/
theorem locate_declaredDirectory :
    declaringFiles.locate declaredDirectory = .ok [[0x70], [0x73]] :=
  FileSystem.locate_of_through? (by decide) rfl

/-- The walk goes through the link to the directory beside the project. -/
theorem filesAt_declaredLink {above : List Location} (outside : [[0x6F]] ∉ above) :
    ((Selection.ofManifest declaringRoot declaring).walk declaringRoot).filesAt declaringFiles 4094
      above declaredDirectory [[0x70], [0x73]] [0x6C] = [.ofString "/p/s/l/D.elm"] := by
  have straight : declaringFiles.Reaches linkLimit [] [[], [0x70], [0x73]] [[0x70], [0x73]]
      linkLimit :=
    FileSystem.reaches_of_through? rfl _
  have jump : declaringFiles.Reaches linkLimit [[0x70], [0x73]] [[0x6C]] [[0x6F]] 39 :=
    .jump rfl ⟨by decide, by decide⟩ (by decide) rfl
      (.leave rfl (.leave rfl (.enter rfl ⟨by decide, by decide⟩ (by decide) rfl nofun .done)))
  have leads : declaringFiles.Leads (declaredDirectory.join ⟨[0x6C]⟩) [[0x6F]] 39 :=
    ⟨by decide, straight.append jump⟩
  have linked := leads.locate_eq
  rw [Walk.filesAt, Walk.kind?_of_locate rfl locate_declaredDirectory (by decide) linked rfl
    fun _ _ => outside]
  change Walk.filesBelow _ _ 4094 _ _ = _
  rw [Walk.filesBelow_eq linked]
  rfl

/-- A walk through the sample lists its declared sources. -/
theorem run_declaring : ((Selection.ofManifest declaringRoot declaring).walk declaringRoot).run
    declaringFiles = .ok declaredPaths := by
  have opened : declaringFiles.locate declaringRoot = .ok [[0x70]] :=
    FileSystem.locate_of_through? (by decide) rfl
  rw [Walk.run_eq opened (by decide)]
  refine congrArg Except.ok ?_
  change Walk.filesBelow _ _ 4095 _ declaredDirectory ++ [] = _
  rw [Walk.filesBelow_eq locate_declaredDirectory]
  change [.ofString "/p/s/A.elm"] ++
    ([] ++ (Walk.filesAt _ _ 4094 _ declaredDirectory _ [0x6C] ++ [])) ++ [] = _
  rw [filesAt_declaredLink (by decide)]
  rfl

/-- The sources of the sample are listed. -/
theorem listSources_declaring : listSources declaringFiles declaringRoot = .ok declaredPaths := by
  have opened : declaringFiles.locate declaringRoot = .ok [[0x70]] :=
    FileSystem.locate_of_through? (by decide) rfl
  refine listSources_eq_ok_iff.mpr ⟨declaringRoot, declaring, ?_, ?_, run_declaring⟩
  · rw [FileSystem.canonical, opened]
    rfl
  · exact Manifest.load_of_stat (FileSystem.stat_of_through? (by decide) rfl rfl)
      (by decide +kernel)

/-- The listing of the sample has just the declared sources. -/
theorem listSources_isExact_declaring :
    declaringFiles.IsTree ∧ listSources declaringFiles declaringRoot = .ok declaredPaths ∧
      (∃ root manifest, declaringFiles.canonical declaringRoot = .ok root ∧
        Manifest.load declaringFiles root = .ok manifest ∧
        ListsDeclared declaringFiles root manifest declaredPaths) :=
  ⟨isTree_declaringFiles, listSources_declaring,
    (listSources_isExact isTree_declaringFiles listSources_declaring).1⟩

end ElmWorkbench
