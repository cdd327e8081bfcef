import ElmWorkbench.Proofs.FileSystem.Meet
import ElmWorkbench.Proofs.FileSystem.Shape
import Mathlib.Data.List.Permutation
/-!
# What survives a walk

A file survives a walk if every directory on the way to it is entered and the file itself is taken,
which is said of each of its names apart (`Walk.Survives`). A walk lists exactly the files that
survive it, in the order of their components, whether it follows links or not
(`Walk.run_lists_survivors`). Going down one name puts one more directory above
(`FileSystem.IsAbove.concat`), so what the walk is inside of is told by the path alone.
-/

namespace ElmWorkbench

namespace FileSystem

variable {files : FileSystem} {directory path root : Path} {location : Location} {name : Bytes}
  {above : List Location} {upper : List Bytes}

/-- What stands under a name in the directory that a path leads to. -/
def entryIn? (files : FileSystem) (directory : Path) (name : Bytes) : Option Entry :=
  match files.locate directory with
  | .ok location => files.find? (location ++ [name])
  | .error _ => none

/-- What stands in a directory that is open is found at its location. -/
theorem entryIn?_eq (opened : files.locate directory = .ok location) (name : Bytes) :
    files.entryIn? directory name = files.find? (location ++ [name]) := by
  rw [entryIn?, opened]

/-- The directory of an entry is located, and the entry is found there. -/
theorem exists_of_entryIn? {entry : Entry} (stands : files.entryIn? directory name = some entry) :
    ∃ location, files.locate directory = .ok location ∧
      files.find? (location ++ [name]) = some entry := by
  rw [entryIn?] at stands
  split at stands
  · next location opened => exact ⟨location, opened, stands⟩
  · cases stands

/-- The directories that names lead through from a root, the root included. -/
def IsAbove (files : FileSystem) (root : Path) (upper : List Bytes) (above : List Location) :
    Prop :=
  ∀ location, location ∈ above ↔
    ∃ front, front <+: upper ∧ files.locate (root.below front) = .ok location

/-- No names lead through the root alone. -/
theorem isAbove_root (opened : files.locate root = .ok location) :
    files.IsAbove root [] [location] := by
  intro other
  simp [opened, eq_comm]

/-- One name further, one more directory is above. -/
theorem IsAbove.concat {target : Location} (isAbove : files.IsAbove root upper above)
    (entered : files.locate (root.below (upper ++ [name])) = .ok target) :
    files.IsAbove root (upper ++ [name]) (target :: above) := by
  intro other
  rw [List.mem_cons, isAbove other]
  constructor
  · rintro (rfl | ⟨front, isFront, leads⟩)
    · exact ⟨_, List.prefix_rfl, entered⟩
    · exact ⟨front, isFront.trans (List.prefix_append _ _), leads⟩
  · rintro ⟨front, isFront, leads⟩
    rcases List.prefix_concat_iff.mp isFront with rfl | isUpper
    · exact .inl (Except.ok.inj (leads.symm.trans entered))
    · exact .inr ⟨front, isUpper, leads⟩

end FileSystem

namespace Walk

/-- What a walk sees under a name in a directory: a link that is followed counts as what it leads
to. -/
def entryIn? (walk : Walk) (files : FileSystem) (directory : Path) (name : Bytes) : Option Entry :=
  match files.entryIn? directory name with
  | some (.link target) =>
    if walk.followLinks then (files.stat (directory.join ⟨name⟩)).toOption else some (.link target)
  | found => found

/-- A walk goes into the directory that has a name below other names: it sees a directory there, a
link leads to none of the directories on the path, and no condition ignores it. -/
structure Enters (walk : Walk) (files : FileSystem) (upper : List Bytes) (name : Bytes) : Prop where
  isDirectory : ∃ mode, walk.entryIn? files (walk.root.below upper) name = some (.directory mode)
  noLoop : ∀ target, files.entryIn? (walk.root.below upper) name = some (.link target) →
    ∀ front, front <+: upper →
      files.locate (walk.root.below front) ≠ files.locate (walk.root.below (upper ++ [name]))
  kept : ∀ condition ∈ walk.ignoring,
    condition (walk.root.below (upper ++ [name])) .directory = false

/-- A walk takes what has a name below other names: it sees a regular file there, and no condition
ignores it. -/
structure Takes (walk : Walk) (files : FileSystem) (upper : List Bytes) (name : Bytes) : Prop where
  isFile : ∃ contents mode,
    walk.entryIn? files (walk.root.below upper) name = some (.file contents mode)
  kept : ∀ condition ∈ walk.ignoring,
    condition (walk.root.below (upper ++ [name])) .file = false

/-- Names below other names lead to a file that a walk takes, through directories that it enters. -/
def SurvivesBelow (walk : Walk) (files : FileSystem) (upper names : List Bytes) : Prop :=
  ∃ inner name, names = inner ++ [name] ∧ walk.Takes files (upper ++ inner) name ∧
    ∀ front directory, front ++ [directory] <+: inner → walk.Enters files (upper ++ front) directory

/-- Names lead from the root to a file that a walk takes, and every directory on the way is one that
it enters. The root itself is not looked at. -/
def Survives (walk : Walk) (files : FileSystem) (names : List Bytes) : Prop :=
  walk.SurvivesBelow files [] names

variable {walk : Walk} {files : FileSystem} {above : List Location} {directory path : Path}
  {location target : Location} {name : Bytes} {upper names : List Bytes}

/-! ## One name -/

/-- A walk does not ignore what none of its conditions does. -/
theorem ignores_eq_false_iff {sort : EntrySort} : walk.ignores path sort = false ↔
    ∀ condition ∈ walk.ignoring, condition path sort = false := by
  simp [ignores]

/-- Something that a walk sees stands in an open directory. -/
theorem exists_of_entryIn? {entry : Entry}
    (sees : walk.entryIn? files directory name = some entry) :
    ∃ location, files.locate directory = .ok location ∧ name ∈ files.names location := by
  rw [entryIn?] at sees
  cases stands : files.entryIn? directory name with
  | none =>
    rw [stands] at sees
    cases sees
  | some found =>
    obtain ⟨location, opened, here⟩ := FileSystem.exists_of_entryIn? stands
    exact ⟨location, opened, FileSystem.mem_names_of_find? here⟩

/-- What a followed link leads to is a directory or a regular file. -/
theorem stat_cases (starts : files.Stands (files.origin path))
    (located : files.locate path = .ok target) :
    (files.hasDirectory target ∧ ∃ mode, files.stat path = .ok (.directory mode)) ∨
      files.hasDirectory target = false ∧
        ∃ contents mode, files.stat path = .ok (.file contents mode) := by
  cases isDirectory : files.hasDirectory target with
  | true =>
    obtain ⟨mode, found⟩ := FileSystem.find?_of_hasDirectory isDirectory
    refine .inl ⟨rfl, mode, ?_⟩
    rw [FileSystem.stat, located, Except.ok_bind, found]
    rfl
  | false => exact .inr ⟨rfl, FileSystem.exists_stat_of_locate starts located isDirectory⟩

section Kinds

variable (starts : files.Stands (files.origin directory))
  (opened : files.locate directory = .ok location) (entry : Path.IsEntryName name)

include starts opened entry

/-- A walk takes an entry for a file if it sees a regular file there. -/
theorem kind?_eq_file_iff_sees :
    walk.kind? files above (directory.join ⟨name⟩) (location ++ [name]) = some .file ↔
      ∃ contents mode, walk.entryIn? files directory name = some (.file contents mode) := by
  have joined : files.Stands (files.origin (directory.join ⟨name⟩)) := by
    rwa [FileSystem.origin_join _ directory entry.cut]
  rw [kind?, entryIn?, FileSystem.entryIn?_eq opened]
  cases found : files.find? (location ++ [name]) with
  | none => simp
  | some standing =>
    cases standing with
    | file contents mode => simp
    | directory mode => simp
    | link link =>
      dsimp only
      by_cases follows : walk.followLinks
      · rw [if_neg (by simp [follows]), if_pos follows]
        cases located : files.locate (directory.join ⟨name⟩) with
        | error cause => simp [FileSystem.stat, located, Except.toOption]
        | ok final =>
          rcases stat_cases joined located with ⟨isDirectory, mode, looked⟩ |
            ⟨noDirectory, contents, mode, looked⟩
          · by_cases loop : final ∈ above <;> simp [isDirectory, loop, looked, Except.toOption]
          · simp [noDirectory, looked, Except.toOption]
      · simp [follows]

/-- A directory that can be opened is entered unless a link leads to it from inside. -/
theorem kind?_eq_directory_iff_sees {inner : Location}
    (entered : files.locate (directory.join ⟨name⟩) = .ok inner) :
    walk.kind? files above (directory.join ⟨name⟩) (location ++ [name]) =
        some (.directory target) ↔
      target = inner ∧ (∃ mode, walk.entryIn? files directory name = some (.directory mode)) ∧
        ∀ link, files.entryIn? directory name = some (.link link) → inner ∉ above := by
  have joined : files.Stands (files.origin (directory.join ⟨name⟩)) := by
    rwa [FileSystem.origin_join _ directory entry.cut]
  rw [kind?, entryIn?, FileSystem.entryIn?_eq opened]
  rcases FileSystem.locate_join opened entry entered with ⟨standing, found, notLink, rfl⟩ |
    ⟨link, found⟩
  · rw [found]
    cases standing with
    | file contents mode => simp
    | directory mode => simp [eq_comm]
    | link link => exact absurd rfl (notLink link)
  · simp only [found, entered]
    by_cases follows : walk.followLinks
    · rw [if_neg (by simp [follows]), if_pos follows]
      rcases stat_cases joined entered with ⟨isDirectory, mode, looked⟩ |
        ⟨noDirectory, contents, mode, looked⟩
      · by_cases loop : inner ∈ above
        · simp [isDirectory, loop]
        · simp [isDirectory, loop, looked, Except.toOption, eq_comm]
      · simp [noDirectory, looked, Except.toOption]
    · simp [follows]

end Kinds

/-! ## All names -/

/-- The last name is found if the walk takes what has it. -/
theorem finds_singleton_iff_takes (tree : files.IsTree)
    (starts : files.Stands (files.origin (walk.root.below upper))) :
    walk.Finds files above (walk.root.below upper) [name] ↔ walk.Takes files upper name := by
  have further := Path.below_concat walk.root upper name
  constructor
  · intro finds
    cases finds with
    | file opened listed kind kept =>
      refine ⟨(kind?_eq_file_iff_sees starts opened (tree.isEntryName listed)).mp kind, ?_⟩
      rw [further]
      exact ignores_eq_false_iff.mp kept
    | inside opened listed kind kept finds => exact absurd rfl finds.ne_nil
  · rintro ⟨⟨contents, mode, sees⟩, kept⟩
    obtain ⟨location, opened, listed⟩ := exists_of_entryIn? sees
    rw [further] at kept
    exact .file opened listed ((kind?_eq_file_iff_sees starts opened (tree.isEntryName listed)).mpr
      ⟨contents, mode, sees⟩) (ignores_eq_false_iff.mpr kept)

/-- A name before others is found if the walk goes into the directory that has it, and they are found
from there. -/
theorem finds_cons_iff_enters (tree : files.IsTree)
    (starts : files.Stands (files.origin (walk.root.below upper)))
    (isAbove : files.IsAbove walk.root upper above) (nonempty : names ≠ []) :
    walk.Finds files above (walk.root.below upper) (name :: names) ↔
      walk.Enters files upper name ∧
        ∃ target, files.locate (walk.root.below (upper ++ [name])) = .ok target ∧
          walk.Finds files (target :: above) (walk.root.below (upper ++ [name])) names := by
  have further := Path.below_concat walk.root upper name
  rw [further]
  constructor
  · intro finds
    cases finds with
    | file => exact absurd rfl nonempty
    | inside opened listed kind kept finds =>
      obtain ⟨inner, entered⟩ := finds.exists_locate
      obtain ⟨rfl, isDirectory, noLoop⟩ :=
        (kind?_eq_directory_iff_sees starts opened (tree.isEntryName listed) entered).mp kind
      refine ⟨⟨isDirectory, fun link linked front isFront same => ?_, ?_⟩, _, entered, finds⟩
      · rw [further] at same
        exact noLoop link linked ((isAbove _).mpr ⟨front, isFront, same.trans entered⟩)
      · rw [further]
        exact ignores_eq_false_iff.mp kept
  · rintro ⟨⟨⟨mode, sees⟩, noLoop, kept⟩, target, entered, finds⟩
    obtain ⟨location, opened, listed⟩ := exists_of_entryIn? sees
    rw [further] at noLoop kept
    refine .inside opened listed ?_ (ignores_eq_false_iff.mpr kept) finds
    refine (kind?_eq_directory_iff_sees starts opened (tree.isEntryName listed) entered).mpr
      ⟨rfl, ⟨mode, sees⟩, fun link linked inside => ?_⟩
    obtain ⟨front, isFront, same⟩ := (isAbove target).mp inside
    exact noLoop link linked front isFront (same.trans entered.symm)

/-- A single name survives if the walk takes it. -/
theorem survivesBelow_singleton_iff :
    walk.SurvivesBelow files upper [name] ↔ walk.Takes files upper name := by
  constructor
  · rintro ⟨inner, last, whole, takes, -⟩
    obtain ⟨rfl, rfl⟩ := List.append_singleton_inj.mp ((List.nil_append [name]).trans whole)
    simpa using takes
  · intro takes
    exact ⟨[], name, rfl, by simpa using takes, fun front directory isFront => by simp at isFront⟩

/-- Several names survive if the walk enters the first and the others survive below it. -/
theorem survivesBelow_cons_iff (nonempty : names ≠ []) :
    walk.SurvivesBelow files upper (name :: names) ↔
      walk.Enters files upper name ∧ walk.SurvivesBelow files (upper ++ [name]) names := by
  constructor
  · rintro ⟨inner, last, whole, takes, enters⟩
    cases inner with
    | nil => exact absurd (List.cons.inj whole).2 nonempty
    | cons first inner =>
      obtain ⟨rfl, rfl⟩ := List.cons.inj whole
      refine ⟨by simpa using enters [] name (by simp), inner, last, rfl, by simpa using takes, ?_⟩
      intro front directory isFront
      simpa using enters (name :: front) directory (by simpa using isFront)
  · rintro ⟨first, inner, last, rfl, takes, enters⟩
    refine ⟨name :: inner, last, rfl, by simpa using takes, fun front directory isFront => ?_⟩
    cases front with
    | nil =>
      obtain rfl : directory = name := by simpa using isFront
      simpa using first
    | cons next front =>
      obtain ⟨rfl, further⟩ := List.cons_prefix_cons.mp isFront
      simpa using enters front directory further

/-- Names that survive start in a directory that can be opened. -/
theorem SurvivesBelow.exists_locate (survives : walk.SurvivesBelow files upper names) :
    ∃ location, files.locate (walk.root.below upper) = .ok location := by
  obtain ⟨inner, last, -, takes, enters⟩ := survives
  cases inner with
  | nil =>
    obtain ⟨contents, mode, sees⟩ := takes.isFile
    obtain ⟨location, opened, -⟩ := exists_of_entryIn? sees
    exact ⟨location, by simpa using opened⟩
  | cons first inner =>
    obtain ⟨mode, sees⟩ := (enters [] first (by simp)).isDirectory
    obtain ⟨location, opened, -⟩ := exists_of_entryIn? sees
    exact ⟨location, by simpa using opened⟩

/-- What a walk finds below names is what survives there. It starts in a directory that has been
opened, and the directories above are those that the names lead through. -/
theorem finds_iff_survivesBelow (tree : files.IsTree)
    (starts : files.Stands (files.origin walk.root))
    (entries : ∀ part ∈ upper, Path.IsEntryName part)
    (isAbove : files.IsAbove walk.root upper above) :
    walk.Finds files above (walk.root.below upper) names ↔
      walk.SurvivesBelow files upper names := by
  -- On the names that are left: each directory that is entered moves its name to those gone through,
  -- and what is above follows from these alone.
  induction names generalizing upper above with
  | nil =>
    constructor
    · intro finds
      exact absurd rfl finds.ne_nil
    · rintro ⟨inner, name, whole, -⟩
      simp at whole
  | cons name names inductionHypothesis =>
    have startsBelow : files.Stands (files.origin (walk.root.below upper)) := by
      rwa [FileSystem.origin, Path.isAbsolute_below _ entries]
    by_cases nonempty : names = []
    · subst nonempty
      rw [finds_singleton_iff_takes tree startsBelow, survivesBelow_singleton_iff]
    · rw [finds_cons_iff_enters tree startsBelow isAbove nonempty, survivesBelow_cons_iff nonempty]
      refine and_congr_right fun enters => ?_
      obtain ⟨mode, sees⟩ := enters.isDirectory
      obtain ⟨location, opened, listed⟩ := exists_of_entryIn? sees
      have entriesToo : ∀ part ∈ upper ++ [name], Path.IsEntryName part :=
        List.forall_mem_append.mpr ⟨entries, by simpa using tree.isEntryName listed⟩
      constructor
      · rintro ⟨target, entered, finds⟩
        exact (inductionHypothesis entriesToo (isAbove.concat entered)).mp finds
      · intro survives
        obtain ⟨target, entered⟩ := survives.exists_locate
        exact ⟨target, entered,
          (inductionHypothesis entriesToo (isAbove.concat entered)).mpr survives⟩

/-! ## Whole walks -/

/-- Just the files that survive a walk, each once, in the order of their components. -/
structure ListsSurvivors (walk : Walk) (files : FileSystem) (paths : List Path) : Prop where
  exact : ∀ path, path ∈ paths ↔
    ∃ names, path = walk.root.below names ∧ walk.Survives files names
  ascending : paths.Pairwise Path.Before
  distinct : paths.Nodup

/-- A walk from a directory lists just the files that survive it, and does not depend on the order
in which a file system keeps its entries. -/
theorem run_lists_survivors (tree : files.IsTree) (starts : files.Stands files.workingDirectory)
    (rooted : files.isDirectory walk.root) :
    (∃ paths, walk.run files = .ok paths ∧ walk.ListsSurvivors files paths) ∧
      ∀ other : FileSystem, other.workingDirectory = files.workingDirectory →
        (∀ location, other.find? location = files.find? location) →
          walk.run other = walk.run files := by
  obtain ⟨location, opened, isDirectory⟩ := FileSystem.isDirectory_iff.mp rooted
  have startsRoot : files.Stands (files.origin walk.root) := by
    rw [FileSystem.origin]
    split
    · exact FileSystem.stands_root files
    · exact starts
  have ran : walk.run files = .ok (walk.filesBelow files pathLimit [location] walk.root) := by
    rw [run, FileSystem.concerning, opened]
    exact if_pos isDirectory
  have ascending := pairwise_run tree ran
  refine ⟨⟨_, ran, fun path => ?_, ascending, ascending.imp Path.Before.ne⟩, ?_⟩
  · rw [mem_filesBelow_iff tree (Nat.le_add_right _ _)]
    refine exists_congr fun names => and_congr_right fun _ => ?_
    exact finds_iff_survivesBelow tree startsRoot (by simp) (FileSystem.isAbove_root opened)
  · intro other sameStart sameEntries
    refine walk.run_eq_of_sameShape ⟨sameStart, fun location => ?_⟩
    rw [sameEntries location]
    exact .same _

/-! ## A tree with links -/

/-- A directory `/r` with a link that leads back to it, a broken link, a link to a directory beside
it, and a directory that is ignored. -/
def linkedFiles : FileSystem where
  -- The names of one byte are `r`, `a`, `b`, `c`, `f`, `l`, `n` and `o`.
  entries :=
    [([[0x72]], .directory directoryMode), ([[0x72], [0x61]], .directory directoryMode),
      ([[0x72], [0x61], [0x66]], .file [] fileMode),
      ([[0x72], [0x61], [0x6C]], .link (.ofString "..")),
      ([[0x72], [0x62]], .link (.ofString "x")), ([[0x72], [0x63]], .link (.ofString "../o")),
      ([[0x72], [0x6E]], .directory directoryMode),
      ([[0x72], [0x6E], [0x66]], .file [] fileMode),
      ([[0x6F]], .directory directoryMode), ([[0x6F], [0x66]], .file [] fileMode)]
  workingDirectory := []

/-- A walk that follows links and ignores directories named `n` and files named `s`. -/
def linkedWalk : Walk where
  root := .ofString "/r"
  followLinks := true
  ignoring :=
    [fun path sort => sort = .directory && path.fileName? = some [0x6E],
      fun path sort => sort = .file && path.fileName? = some [0x73]]

/-- The walk through the tree with links lists just its survivors, two files. -/
theorem run_lists_survivors_linked :
    linkedFiles.IsTree ∧ linkedFiles.Stands linkedFiles.workingDirectory ∧
      linkedFiles.isDirectory linkedWalk.root ∧
      linkedWalk.run linkedFiles = .ok [.ofString "/r/a/f", .ofString "/r/c/f"] ∧
      linkedWalk.ListsSurvivors linkedFiles [.ofString "/r/a/f", .ofString "/r/c/f"] := by
  have tree : linkedFiles.IsTree := by
    unfold FileSystem.IsTree
    decide
  have starts : linkedFiles.Stands linkedFiles.workingDirectory := FileSystem.stands_root _
  have rooted : linkedFiles.isDirectory linkedWalk.root :=
    FileSystem.isDirectory_of_through? (by decide) rfl rfl
  have ran : linkedWalk.run linkedFiles = .ok [.ofString "/r/a/f", .ofString "/r/c/f"] := by cbv
  obtain ⟨paths, same, lists⟩ := (run_lists_survivors tree starts rooted).1
  obtain rfl := Except.ok.inj (ran.symm.trans same)
  exact ⟨tree, starts, rooted, ran, lists⟩

/-- Without following links, only the file inside of the tree is left. -/
example : { linkedWalk with followLinks := false }.run linkedFiles = .ok [.ofString "/r/a/f"] := by
  cbv

end Walk

end ElmWorkbench
