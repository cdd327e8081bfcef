import ElmWorkbench.FileSystem.Walk
import ElmWorkbench.Proofs.FileSystem.Place
import ElmWorkbench.Proofs.Path.Below
/-!
# What a walk lists

A walk lists a file exactly if names lead to it and nothing on the way is ignored
(`Walk.mem_run_iff`), and lists paths in the order of their components (`Walk.pairwise_run`). The
bound on its depth is never used up, because paths grow with every name and one that is too long
is not opened. `FileSystem.Sees` says what a walk comes by that ignores nothing, in terms of
looking at paths only. Where there are no links, a walk can be evaluated
(`Walk.run_of_filesThrough?`).
-/

namespace ElmWorkbench

namespace FileSystem

/-! ## Names in a directory -/

/-- A file system in which all names are those of entries. -/
def IsTree (files : FileSystem) : Prop :=
  ∀ item ∈ files.entries, ∀ name ∈ item.1, Path.IsEntryName name

section Sorted

variable {name other : Bytes} {names : List Bytes}

/-- A name that is put in is there with those that were there. -/
theorem mem_insertName : other ∈ insertName name names ↔ other = name ∨ other ∈ names := by
  induction names with
  | nil => simp [insertName]
  | cons first rest inductionHypothesis =>
    rw [insertName]
    split
    · next same => simp [same]
    · split
      · simp
      · rw [List.mem_cons, inductionHypothesis, List.mem_cons]
        exact or_left_comm

/-- A name is put into a sorted list where it stays sorted. -/
theorem pairwise_insertName (sorted : names.Pairwise (· < ·)) :
    (insertName name names).Pairwise (· < ·) := by
  induction names with
  | nil => simp [insertName]
  | cons first rest inductionHypothesis =>
    obtain ⟨least, sortedRest⟩ := List.pairwise_cons.mp sorted
    rw [insertName]
    split
    · exact sorted
    · next different =>
      split
      · next less =>
        refine List.pairwise_cons.mpr ⟨fun later member => ?_, sorted⟩
        rcases List.mem_cons.mp member with rfl | member
        · exact less
        · exact List.lt_trans less (least later member)
      · next notLess =>
        refine List.pairwise_cons.mpr ⟨fun later member => ?_, inductionHypothesis sortedRest⟩
        rcases mem_insertName.mp member with rfl | member
        · exact Std.lt_of_le_of_ne (List.not_lt.mp notLess) (Ne.symm different)
        · exact least later member

end Sorted

section Trees

variable {files : FileSystem} {location : Location} {name : Bytes}

/-- The names in a directory come in order, each once. -/
theorem pairwise_names (files : FileSystem) (location : Location) :
    (files.names location).Pairwise (· < ·) := by
  rw [names]
  induction files.entries.filterMap fun item => nameBelow? location item.1 with
  | nil => exact .nil
  | cons name others inductionHypothesis => exact pairwise_insertName inductionHypothesis

/-- A location has a name in the directory that it is right below of. -/
theorem eq_of_nameBelow? {entry : Location} (below : nameBelow? location entry = some name) :
    entry = location ++ [name] := by
  rw [nameBelow?] at below
  split at below
  · next only last =>
    split at below
    · next isFront =>
      cases below
      obtain ⟨rest, rfl⟩ := List.isPrefixOf_iff_prefix.mp isFront
      rw [← last, List.drop_left]
    · cases below
  · cases below

/-- A directory lists the names of the entries right below it. -/
theorem mem_names_iff :
    name ∈ files.names location ↔
      ∃ item ∈ files.entries, nameBelow? location item.1 = some name := by
  rw [names, ← List.mem_filterMap]
  induction files.entries.filterMap fun item => nameBelow? location item.1 with
  | nil => rfl
  | cons first others inductionHypothesis =>
    rw [List.foldr_cons, mem_insertName, inductionHypothesis, List.mem_cons]

/-- All names that are listed in a tree are those of entries. -/
theorem IsTree.isEntryName (tree : files.IsTree) (listed : name ∈ files.names location) :
    Path.IsEntryName name := by
  obtain ⟨item, member, below⟩ := mem_names_iff.mp listed
  exact tree item member name (by simp [eq_of_nameBelow? below])

/-- The names in a directory are those that entries stand at. -/
theorem mem_names_of_find? {entry : Entry}
    (found : files.find? (location ++ [name]) = some entry) : name ∈ files.names location := by
  rw [find?, if_neg (by simp)] at found
  obtain ⟨item, first, -⟩ := Option.map_eq_some_iff.mp found
  have same : item.1 = location ++ [name] := by simpa using List.find?_some first
  refine mem_names_iff.mpr ⟨item, List.mem_of_find?_eq_some first, ?_⟩
  rw [same, nameBelow?, List.drop_left]
  simp

end Trees

/-! ## Entries of an open directory -/

section Opened

variable {files : FileSystem} {directory : Path} {location final : Location} {name : Bytes}

/-- A path to an entry of an open directory leads there, unless the entry is a link. -/
theorem locate_join (opened : files.locate directory = .ok location)
    (entry : Path.IsEntryName name) (located : files.locate (directory.join ⟨name⟩) = .ok final) :
    (∃ found, files.find? (location ++ [name]) = some found ∧ (∀ link, found ≠ .link link) ∧
        final = location ++ [name]) ∨
      ∃ link, files.find? (location ++ [name]) = some (.link link) := by
  obtain ⟨left, leads⟩ := exists_leads opened
  obtain ⟨leftJoined, joined⟩ := exists_leads located
  obtain ⟨front, void, parts, empty, joinedParts⟩ := Path.exists_parts_join directory entry.cut
  have toDirectory := leads.reaches
  have toEntry := joined.reaches
  rw [parts] at toDirectory
  rw [joinedParts, origin_join _ directory entry.cut] at toEntry
  obtain ⟨middle, between, first, second⟩ := toEntry.exists_middle
  obtain rfl : middle = location :=
    first.final_unique (toDirectory.dropVoid (Path.isVoid_of_eq_nil empty))
  cases second with
  | stay _ void _ => simp [entry.notVoid] at void
  | leave _ _ => exact absurd rfl entry.notUp
  | enter _ _ _ found notLink further =>
    cases further
    exact .inl ⟨_, found, notLink, rfl⟩
  | jump _ _ _ found _ => exact .inr ⟨_, found⟩

end Opened

/-- A walk that ignores nothing comes by these names to a regular file. `above` holds the
directories that it is inside of, and it follows no link to one of them. -/
inductive Sees (files : FileSystem) : List Location → Path → List Bytes → Prop where
  | file {above : List Location} {directory : Path} {location : Location} {name contents : Bytes}
      {mode : Nat} (opened : files.locate directory = .ok location)
      (listed : name ∈ files.names location)
      (isFile : files.stat (directory.join ⟨name⟩) = .ok (.file contents mode)) :
      Sees files above directory [name]
  | inside {above : List Location} {directory : Path} {location target : Location} {name : Bytes}
      {names : List Bytes} (opened : files.locate directory = .ok location)
      (listed : name ∈ files.names location)
      (entered : files.locate (directory.join ⟨name⟩) = .ok target)
      (isDirectory : files.hasDirectory target)
      (noLoop : ∀ link, files.find? (location ++ [name]) = some (.link link) → target ∉ above)
      (further : Sees files (target :: above) (directory.join ⟨name⟩) names) :
      Sees files above directory (name :: names)

/-- The names of a file that is seen are not none. -/
theorem Sees.ne_nil {files : FileSystem} {above : List Location} {directory : Path}
    {names : List Bytes} (sees : files.Sees above directory names) : names ≠ [] := by
  cases sees <;> exact List.cons_ne_nil _ _

/-- The names by which a file is seen in a tree are those of entries. -/
theorem Sees.isEntryName {files : FileSystem} {above : List Location} {directory : Path}
    {names : List Bytes} (tree : files.IsTree) (sees : files.Sees above directory names) :
    ∀ name ∈ names, Path.IsEntryName name := by
  induction sees with
  | file opened listed isFile => simpa using tree.isEntryName listed
  | inside opened listed entered isDirectory noLoop further inductionHypothesis =>
    exact List.forall_mem_cons.mpr ⟨tree.isEntryName listed, inductionHypothesis⟩

/-- A walk that starts at a root and ignores nothing comes by these names to a regular file. -/
def SeesBelow (files : FileSystem) (root : Path) (names : List Bytes) : Prop :=
  ∃ location, files.locate root = .ok location ∧ files.Sees [location] root names

end FileSystem

namespace Walk

open FileSystem (IsTree Sees)

variable {walk : Walk} {files : FileSystem} {above : List Location} {directory path : Path}
  {location : Location} {name : Bytes} {names : List Bytes}

/-! ## What an entry is for a walk -/

section Kinds

variable (follows : walk.followLinks = true) (opened : files.locate directory = .ok location)
  (entry : Path.IsEntryName name)

include follows opened entry

/-- A walk takes for a file what is one once it is looked up. -/
theorem kind?_of_stat {contents : Bytes} {mode : Nat}
    (isFile : files.stat (directory.join ⟨name⟩) = .ok (.file contents mode)) :
    walk.kind? files above (directory.join ⟨name⟩) (location ++ [name]) = some .file := by
  obtain ⟨final, left, leads, here⟩ := FileSystem.exists_leads_of_stat isFile
  have noDirectory : files.hasDirectory final = false := by
    rw [FileSystem.hasDirectory, here]
  rcases FileSystem.locate_join opened entry leads.locate_eq with
    ⟨found, isFound, -, rfl⟩ | ⟨link, isLink⟩
  · rw [kind?, here]
  · simp only [kind?, isLink, follows, leads.locate_eq, noDirectory]
    rfl

/-- A walk takes for a directory what leads to one, if no link goes back to a directory that it is
inside of. -/
theorem kind?_of_locate {target : Location}
    (entered : files.locate (directory.join ⟨name⟩) = .ok target)
    (isDirectory : files.hasDirectory target)
    (noLoop : ∀ link, files.find? (location ++ [name]) = some (.link link) → target ∉ above) :
    walk.kind? files above (directory.join ⟨name⟩) (location ++ [name]) =
      some (.directory target) := by
  rcases FileSystem.locate_join opened entry entered with ⟨found, isFound, -, rfl⟩ | ⟨link, isLink⟩
  · obtain ⟨mode, here⟩ : ∃ mode, files.find? (location ++ [name]) = some (.directory mode) := by
      rw [FileSystem.hasDirectory] at isDirectory
      split at isDirectory
      · next mode here => exact ⟨mode, here⟩
      · cases isDirectory
    rw [kind?, here]
  · simp only [kind?, isLink, follows, entered, isDirectory]
    simp [noLoop link isLink]

omit follows in
/-- A directory that is entered is where its path leads, and no link to one of those above. -/
theorem of_kind?_directory {target inner : Location}
    (kind : walk.kind? files above (directory.join ⟨name⟩) (location ++ [name]) =
      some (.directory target))
    (entered : files.locate (directory.join ⟨name⟩) = .ok inner) :
    inner = target ∧ files.hasDirectory target ∧
      ∀ link, files.find? (location ++ [name]) = some (.link link) → target ∉ above := by
  rcases FileSystem.locate_join opened entry entered with ⟨found, isFound, notLink, rfl⟩ |
    ⟨link, isLink⟩
  · rw [kind?, isFound] at kind
    cases found with
    | link link => exact absurd rfl (notLink link)
    | file contents mode => cases kind
    | directory mode =>
      cases kind
      refine ⟨rfl, by rw [FileSystem.hasDirectory, isFound], fun link isLink => ?_⟩
      rw [isFound] at isLink
      cases isLink
  · simp only [kind?, isLink, entered] at kind
    split at kind
    · cases kind
    · split at kind
      · next isDirectory =>
        split at kind
        · cases kind
        · next noLoop =>
          cases kind
          exact ⟨rfl, isDirectory, fun _ _ => by simpa using noLoop⟩
      · cases kind

end Kinds

/-! ## Files that a walk finds -/

/-- A walk comes by these names to a file and ignores nothing on the way. -/
inductive Finds (walk : Walk) (files : FileSystem) : List Location → Path → List Bytes → Prop where
  | file {above : List Location} {directory : Path} {location : Location} {name : Bytes}
      (opened : files.locate directory = .ok location) (listed : name ∈ files.names location)
      (kind : walk.kind? files above (directory.join ⟨name⟩) (location ++ [name]) = some .file)
      (kept : walk.ignores (directory.join ⟨name⟩) .file = false) :
      Finds walk files above directory [name]
  | inside {above : List Location} {directory : Path} {location target : Location} {name : Bytes}
      {names : List Bytes} (opened : files.locate directory = .ok location)
      (listed : name ∈ files.names location)
      (kind : walk.kind? files above (directory.join ⟨name⟩) (location ++ [name]) =
        some (.directory target))
      (kept : walk.ignores (directory.join ⟨name⟩) .directory = false)
      (further : Finds walk files (target :: above) (directory.join ⟨name⟩) names) :
      Finds walk files above directory (name :: names)

/-- The files that a walk lists for one name in a directory. -/
def filesAt (walk : Walk) (files : FileSystem) (depth : Nat) (above : List Location)
    (directory : Path) (location : Location) (name : Bytes) : List Path :=
  let path := directory.join ⟨name⟩
  match walk.kind? files above path (location ++ [name]) with
  | none => []
  | some .link => []
  | some .file => if walk.ignores path .file then [] else [path]
  | some (.directory target) =>
    if walk.ignores path .directory then []
    else walk.filesBelow files depth (target :: above) path

/-- Below an open directory, a walk lists the files for its names one after the other. -/
theorem filesBelow_eq (opened : files.locate directory = .ok location) (depth : Nat) :
    walk.filesBelow files (depth + 1) above directory =
      (files.names location).flatMap (walk.filesAt files depth above directory location) := by
  rw [filesBelow, opened]
  rfl

/-- A walk lists nothing below what it cannot open. -/
theorem filesBelow_error {cause : SystemCause} (failed : files.locate directory = .error cause)
    (depth : Nat) : walk.filesBelow files depth above directory = [] := by
  cases depth with
  | zero => rfl
  | succ depth => rw [filesBelow, failed]

/-- What is listed for a name is the file that has it, or lies in the directory that does. -/
theorem exists_of_mem_filesAt {depth : Nat}
    (listed : path ∈ walk.filesAt files depth above directory location name) :
    (walk.kind? files above (directory.join ⟨name⟩) (location ++ [name]) = some .file ∧
        walk.ignores (directory.join ⟨name⟩) .file = false ∧ path = directory.join ⟨name⟩) ∨
      ∃ target, walk.kind? files above (directory.join ⟨name⟩) (location ++ [name]) =
          some (.directory target) ∧
        walk.ignores (directory.join ⟨name⟩) .directory = false ∧
          path ∈ walk.filesBelow files depth (target :: above) (directory.join ⟨name⟩) := by
  unfold filesAt at listed
  dsimp only at listed
  split at listed
  · cases listed
  · cases listed
  · next kind =>
    split at listed
    · cases listed
    · next kept => exact .inl ⟨kind, by simpa using kept, List.mem_singleton.mp listed⟩
  · next target kind =>
    split at listed
    · cases listed
    · next kept => exact .inr ⟨target, kind, by simpa using kept, listed⟩

/-- A walk finds the files that it lists, by induction on the depth. -/
theorem exists_finds_of_mem {depth : Nat}
    (listed : path ∈ walk.filesBelow files depth above directory) :
    ∃ names, path = directory.below names ∧ walk.Finds files above directory names := by
  induction depth generalizing above directory with
  | zero => cases listed
  | succ depth inductionHypothesis =>
    cases opened : files.locate directory with
    | error cause =>
      rw [filesBelow_error opened] at listed
      cases listed
    | ok location =>
      rw [filesBelow_eq opened] at listed
      obtain ⟨name, member, listed⟩ := List.mem_flatMap.mp listed
      rcases exists_of_mem_filesAt listed with ⟨kind, kept, rfl⟩ | ⟨target, kind, kept, listed⟩
      · exact ⟨[name], rfl, .file opened member kind kept⟩
      · obtain ⟨names, rfl, further⟩ := inductionHypothesis listed
        exact ⟨name :: names, rfl, .inside opened member kind kept further⟩

/-- A path that leads somewhere is shorter than the limit. -/
theorem length_lt_of_locate (opened : files.locate directory = .ok location) :
    directory.bytes.length < pathLimit := by
  obtain ⟨left, leads⟩ := FileSystem.exists_leads opened
  exact (FileSystem.checkLimits_eq_ok_iff.mp leads.limits).2.2

/-- A walk lists the files that it finds, if the depth is enough for a path of the greatest
length. -/
theorem Finds.mem_filesBelow (tree : files.IsTree) (finds : walk.Finds files above directory names)
    {depth : Nat} (enough : pathLimit ≤ depth + directory.bytes.length) :
    directory.below names ∈ walk.filesBelow files depth above directory := by
  induction finds generalizing depth with
  | @file above directory location name opened listed kind kept =>
    have short := length_lt_of_locate opened
    obtain ⟨depth, rfl⟩ := Nat.exists_eq_add_one_of_ne_zero (by omega : depth ≠ 0)
    rw [filesBelow_eq opened]
    refine List.mem_flatMap.mpr ⟨name, listed, ?_⟩
    simp [filesAt, kind, kept]
  | @inside above directory location target name names opened listed kind kept further
      inductionHypothesis =>
    have short := length_lt_of_locate opened
    have longer := Path.length_lt_join directory (tree.isEntryName listed)
    obtain ⟨depth, rfl⟩ := Nat.exists_eq_add_one_of_ne_zero (by omega : depth ≠ 0)
    rw [filesBelow_eq opened]
    refine List.mem_flatMap.mpr ⟨name, listed, ?_⟩
    simp only [filesAt, kind, kept]
    exact inductionHypothesis (by omega)

/-- A walk lists just the files that it finds. -/
theorem mem_filesBelow_iff (tree : files.IsTree) {depth : Nat}
    (enough : pathLimit ≤ depth + directory.bytes.length) :
    path ∈ walk.filesBelow files depth above directory ↔
      ∃ names, path = directory.below names ∧ walk.Finds files above directory names := by
  constructor
  · exact exists_finds_of_mem
  · rintro ⟨names, rfl, finds⟩
    exact finds.mem_filesBelow tree enough

/-- The names by which a walk finds a file in a tree are those of entries. -/
theorem Finds.isEntryName (tree : files.IsTree) (finds : walk.Finds files above directory names) :
    ∀ name ∈ names, Path.IsEntryName name := by
  induction finds with
  | file opened listed kind kept => simpa using tree.isEntryName listed
  | inside opened listed kind kept further inductionHypothesis =>
    exact List.forall_mem_cons.mpr ⟨tree.isEntryName listed, inductionHypothesis⟩

/-- The files for a name lie at it or below it. -/
theorem exists_names_of_mem_filesAt (tree : files.IsTree) {depth : Nat}
    (entry : Path.IsEntryName name)
    (listed : path ∈ walk.filesAt files depth above directory location name) :
    ∃ names, path = directory.below (name :: names) ∧
      ∀ part ∈ name :: names, Path.IsEntryName part := by
  rcases exists_of_mem_filesAt listed with ⟨-, -, rfl⟩ | ⟨target, -, -, listed⟩
  · exact ⟨[], rfl, by simpa using entry⟩
  · obtain ⟨names, rfl, finds⟩ := exists_finds_of_mem listed
    exact ⟨names, rfl, List.forall_mem_cons.mpr ⟨entry, finds.isEntryName tree⟩⟩

/-- The files for a name are in order if those in the directories inside are. -/
theorem pairwise_filesAt {depth : Nat}
    (inner : ∀ above directory,
      (walk.filesBelow files depth above directory).Pairwise Path.Before) :
    (walk.filesAt files depth above directory location name).Pairwise Path.Before := by
  unfold filesAt
  dsimp only
  split
  · exact .nil
  · exact .nil
  · split
    · exact .nil
    · exact List.pairwise_singleton _ _
  · split
    · exact .nil
    · exact inner _ _

/-- A walk lists paths in order, each once. -/
theorem pairwise_filesBelow (tree : files.IsTree) (depth : Nat) (above : List Location)
    (directory : Path) : (walk.filesBelow files depth above directory).Pairwise Path.Before := by
  induction depth generalizing above directory with
  | zero => exact .nil
  | succ depth inductionHypothesis =>
    cases opened : files.locate directory with
    | error cause =>
      rw [filesBelow_error opened]
      exact .nil
    | ok location =>
      rw [filesBelow_eq opened, List.pairwise_flatMap]
      constructor
      · exact fun name _ => pairwise_filesAt inductionHypothesis
      · refine (FileSystem.pairwise_names files location).imp_of_mem ?_
        intro first second firstListed secondListed less path member other otherMember
        obtain ⟨lefts, rfl, entries⟩ :=
          exists_names_of_mem_filesAt tree (tree.isEntryName firstListed) member
        obtain ⟨rights, rfl, otherEntries⟩ :=
          exists_names_of_mem_filesAt tree (tree.isEntryName secondListed) otherMember
        exact Path.before_below directory entries otherEntries less

/-! ## Walks that ignore something and walks that do not -/

/-- A file that is not ignored, and no directory on the way to it is. -/
def Keeps (walk : Walk) (directory : Path) (names : List Bytes) : Prop :=
  walk.ignores (directory.below names) .file = false ∧
    ∀ front, front <+: names → front ≠ [] → front ≠ names →
      walk.ignores (directory.below front) .directory = false

/-- A walk keeps a file that it does not ignore. -/
theorem keeps_singleton (kept : walk.ignores (directory.join ⟨name⟩) .file = false) :
    walk.Keeps directory [name] := by
  refine ⟨kept, fun front isFront nonempty proper => ?_⟩
  rcases List.prefix_cons_iff.mp isFront with rfl | ⟨rest, rfl, isRest⟩
  · exact absurd rfl nonempty
  · rw [List.prefix_nil.mp isRest] at proper
    exact absurd rfl proper

/-- A walk keeps a file below a directory if it does not ignore the directory and keeps the file in
it. -/
theorem keeps_cons_iff (nonempty : names ≠ []) :
    walk.Keeps directory (name :: names) ↔
      walk.ignores (directory.join ⟨name⟩) .directory = false ∧
        walk.Keeps (directory.join ⟨name⟩) names := by
  constructor
  · rintro ⟨file, directories⟩
    refine ⟨directories [name] ⟨names, rfl⟩ (by simp) (by simpa using nonempty.symm), file, ?_⟩
    intro front isFront notEmpty proper
    exact directories (name :: front) (by simpa using isFront) (by simp) (by simpa using proper)
  · rintro ⟨first, file, directories⟩
    refine ⟨file, fun front isFront notEmpty proper => ?_⟩
    rcases List.prefix_cons_iff.mp isFront with rfl | ⟨rest, rfl, isRest⟩
    · exact absurd rfl notEmpty
    · by_cases last : rest = []
      · rw [last]
        exact first
      · exact directories rest isRest last (by simpa using proper)

/-- The last name is that of the file, those before it are those of directories. -/
theorem keeps_concat_iff {upper : List Bytes} :
    walk.Keeps directory (upper ++ [name]) ↔
      walk.ignores (directory.below (upper ++ [name])) .file = false ∧
        ∀ front, front <+: upper → front ≠ [] →
          walk.ignores (directory.below front) .directory = false := by
  refine and_congr_right fun _ => forall_congr' fun front => ?_
  rw [List.prefix_concat_iff]
  constructor
  · intro directories isFront nonempty
    refine directories (.inr isFront) nonempty fun same => ?_
    have short := isFront.length_le
    rw [same, List.length_append, List.length_singleton] at short
    omega
  · intro directories isFront nonempty proper
    exact directories (isFront.resolve_left proper) nonempty

/-- The names of a file that is found are not none. -/
theorem Finds.ne_nil (finds : walk.Finds files above directory names) : names ≠ [] := by
  cases finds <;> exact List.cons_ne_nil _ _

/-- A walk finds something only below what leads to a location. -/
theorem Finds.exists_locate (finds : walk.Finds files above directory names) :
    ∃ location, files.locate directory = .ok location := by
  cases finds with
  | file opened _ _ _ => exact ⟨_, opened⟩
  | inside opened _ _ _ _ => exact ⟨_, opened⟩

/-- A directory in which something is found is where its path leads, and no link to one of those
above. -/
theorem Finds.entered {target : Location}
    (finds : walk.Finds files (target :: above) (directory.join ⟨name⟩) names)
    (opened : files.locate directory = .ok location) (entry : Path.IsEntryName name)
    (kind : walk.kind? files above (directory.join ⟨name⟩) (location ++ [name]) =
      some (.directory target)) :
    files.locate (directory.join ⟨name⟩) = .ok target ∧ files.hasDirectory target ∧
      ∀ link, files.find? (location ++ [name]) = some (.link link) → target ∉ above := by
  obtain ⟨inner, entered⟩ := finds.exists_locate
  obtain ⟨rfl, rest⟩ := of_kind?_directory opened entry kind entered
  exact ⟨entered, rest⟩

/-- Without what is ignored, a walk finds the files that are seen, as far as these are files on
being looked at. -/
theorem Finds.sees (tree : files.IsTree) (finds : walk.Finds files above directory names)
    {contents : Bytes} {mode : Nat}
    (isFile : files.stat (directory.below names) = .ok (.file contents mode)) :
    files.Sees above directory names := by
  induction finds with
  | file opened listed kind kept => exact .file opened listed isFile
  | inside opened listed kind kept further inductionHypothesis =>
    obtain ⟨entered, isDirectory, noLoop⟩ := further.entered opened (tree.isEntryName listed) kind
    exact .inside opened listed entered isDirectory noLoop (inductionHypothesis isFile)

/-- The files that are seen are found if they are kept. -/
theorem finds_of_sees (follows : walk.followLinks = true) (tree : files.IsTree)
    (sees : files.Sees above directory names) (keeps : walk.Keeps directory names) :
    walk.Finds files above directory names := by
  induction sees with
  | file opened listed isFile =>
    exact .file opened listed (kind?_of_stat follows opened (tree.isEntryName listed) isFile) keeps.1
  | inside opened listed entered isDirectory noLoop further inductionHypothesis =>
    obtain ⟨kept, keepsFurther⟩ := (keeps_cons_iff further.ne_nil).mp keeps
    exact .inside opened listed
      (kind?_of_locate follows opened (tree.isEntryName listed) entered isDirectory noLoop) kept
      (inductionHypothesis keepsFurther)

/-- A walk keeps what it finds. -/
theorem Finds.keeps (finds : walk.Finds files above directory names) :
    walk.Keeps directory names := by
  induction finds with
  | file opened listed kind kept => exact keeps_singleton kept
  | inside opened listed kind kept further inductionHypothesis =>
    exact (keeps_cons_iff further.ne_nil).mpr ⟨kept, inductionHypothesis⟩

/-! ## Whole walks -/

/-- A walk that came out lists the files below its root. -/
theorem exists_of_run {paths : List Path} (ran : walk.run files = .ok paths) :
    ∃ location, files.locate walk.root = .ok location ∧
      paths = walk.filesBelow files pathLimit [location] walk.root := by
  obtain ⟨location, located, rest⟩ := Except.bind_eq_ok_iff.mp ran
  refine ⟨location, ?_, ?_⟩
  · cases found : files.locate walk.root with
    | error cause =>
      rw [FileSystem.concerning, found] at located
      cases located
    | ok location =>
      rw [FileSystem.concerning, found] at located
      cases located
      rfl
  · split at rest
    · cases rest
      rfl
    · cases rest

/-- A walk lists the files for each name in its root. -/
theorem run_eq (located : files.locate walk.root = .ok location)
    (isDirectory : files.hasDirectory location) :
    walk.run files = .ok ((files.names location).flatMap
      (walk.filesAt files (pathLimit - 1) [location] walk.root location)) := by
  rw [run, located, ← filesBelow_eq located]
  exact if_pos isDirectory

/-- A walk that follows links lists the files that are seen below its root and that it keeps, as
far as they are files on being looked at. -/
theorem mem_run_iff (follows : walk.followLinks = true) (tree : files.IsTree) {paths : List Path}
    (ran : walk.run files = .ok paths)
    (looked : ∀ path ∈ paths, ∃ contents mode, files.stat path = .ok (.file contents mode)) :
    path ∈ paths ↔
      ∃ names, path = walk.root.below names ∧ files.SeesBelow walk.root names ∧
        walk.Keeps walk.root names := by
  obtain ⟨location, located, rfl⟩ := exists_of_run ran
  rw [mem_filesBelow_iff tree (Nat.le_add_right _ _)]
  constructor
  · rintro ⟨names, rfl, finds⟩
    obtain ⟨contents, mode, isFile⟩ :=
      looked _ (finds.mem_filesBelow tree (Nat.le_add_right _ _))
    exact ⟨names, rfl, ⟨location, located, finds.sees tree isFile⟩, finds.keeps⟩
  · rintro ⟨names, rfl, ⟨start, locatedStart, sees⟩, keeps⟩
    rw [located] at locatedStart
    cases locatedStart
    exact ⟨names, rfl, finds_of_sees follows tree sees keeps⟩

/-- A walk lists paths in the order of their components. -/
theorem pairwise_run (tree : files.IsTree) {paths : List Path} (ran : walk.run files = .ok paths) :
    paths.Pairwise Path.Before := by
  obtain ⟨location, -, rfl⟩ := exists_of_run ran
  exact pairwise_filesBelow tree _ _ _

/-! ## Trees without links -/

/-- The parts that a list yields with every part defined are its parts one after the other. -/
theorem flatMap_of_mapM {Item Value : Type} {items : List Item} {parts : List (List Value)}
    {part? : Item → Option (List Value)} {part : Item → List Value}
    (all : items.mapM part? = some parts)
    (each : ∀ item values, part? item = some values → part item = values) :
    items.flatMap part = parts.flatten := by
  induction items generalizing parts with
  | nil =>
    cases all
    rfl
  | cons item others inductionHypothesis =>
    rw [List.mapM_cons] at all
    obtain ⟨values, found, all⟩ := Option.bind_eq_some_iff.mp all
    obtain ⟨rest, more, all⟩ := Option.bind_eq_some_iff.mp all
    cases all
    rw [List.flatMap_cons, each item values found, inductionHypothesis more, List.flatten_cons]

/-- The files below a directory, if the walk comes to no link on the way to it and below it. Unlike
a walk through links it recurses on the depth alone, so a closed tree can be walked by evaluation. -/
def filesThrough? (walk : Walk) (files : FileSystem) : Nat → Path → Option (List Path)
  | 0, _ => none
  | depth + 1, directory =>
    if FileSystem.checkLimits directory = .ok () then do
      let location ← files.through? (files.origin directory) directory.parts
      let listed ← (files.names location).mapM fun name =>
        let path := directory.join ⟨name⟩
        match files.find? (location ++ [name]) with
        | none => some []
        | some (.link _) => none
        | some (.file _ _) => some (if walk.ignores path .file then [] else [path])
        | some (.directory _) =>
          if walk.ignores path .directory then some [] else walk.filesThrough? files depth path
      pure listed.flatten
    else none

/-- Where no link is on the way, a walk lists what it lists without looking for links. -/
theorem filesBelow_of_filesThrough? {depth : Nat} {paths : List Path}
    (listed : walk.filesThrough? files depth directory = some paths) (above : List Location) :
    walk.filesBelow files depth above directory = paths := by
  induction depth generalizing above directory paths with
  | zero => cases listed
  | succ depth inductionHypothesis =>
    rw [filesThrough?] at listed
    split at listed
    · next limits =>
      obtain ⟨location, through, listed⟩ := Option.bind_eq_some_iff.mp listed
      obtain ⟨parts, all, listed⟩ := Option.bind_eq_some_iff.mp listed
      cases listed
      rw [filesBelow_eq (FileSystem.locate_of_through? limits through)]
      refine flatMap_of_mapM all fun name part isPart => ?_
      rw [filesAt, kind?]
      dsimp only at isPart ⊢
      split at isPart
      · next free =>
        cases isPart
        rw [free]
      · cases isPart
      · next isFile =>
        cases isPart
        rw [isFile]
      · next isDirectory =>
        rw [isDirectory]
        dsimp only
        split at isPart
        · next ignored =>
          cases isPart
          rw [if_pos ignored]
        · next kept =>
          rw [if_neg kept]
          exact inductionHypothesis isPart _
    · cases listed

/-- A walk that comes to no link lists what is evaluated without links. -/
theorem run_of_filesThrough? {paths : List Path}
    (limits : FileSystem.checkLimits walk.root = .ok ())
    (through : files.through? (files.origin walk.root) walk.root.parts = some location)
    (isDirectory : files.hasDirectory location)
    (listed : walk.filesThrough? files pathLimit walk.root = some paths) :
    walk.run files = .ok paths := by
  rw [run, FileSystem.locate_of_through? limits through,
    ← filesBelow_of_filesThrough? listed [location]]
  exact if_pos isDirectory

end Walk

end ElmWorkbench
