import ElmWorkbench.Proofs.FileSystem.Walk
import Mathlib.Data.List.Flatten
/-!
# What walks come by

A walk tells a regular file by the entry that it finds in an open directory, and looks at a path
only where a link stands. `FileSystem.Meets` says what a walk comes by that ignores nothing, whether
or not the files can be opened by their paths, and a walk lists exactly what it meets and keeps
(`Walk.mem_run_iff_meets`). Of two walks below one root, the one that ignores more lists a part of
what the other one lists, in the same order (`Walk.Narrows.exists_run_sublist`).
-/

namespace ElmWorkbench

namespace FileSystem

/-! ## Where absolute paths lead -/

/-- An entry that is no link stands at a location, and directories stand above it. -/
structure Stands (files : FileSystem) (location : Location) : Prop where
  here : ∃ entry, files.find? location = some entry ∧ ∀ target, entry ≠ .link target
  above : ∀ front, front <+: location → front ≠ location → files.hasDirectory front

section Standing

variable {files : FileSystem} {links left : Nat} {current final : Location} {parts : List Bytes}

/-- The root stands. -/
theorem stands_root (files : FileSystem) : files.Stands [] where
  here := ⟨.directory directoryMode, rfl, fun _ => by simp⟩
  above := fun _ isFront proper => absurd (List.prefix_nil.mp isFront) proper

/-- What is above an entry that stands does so as well. -/
theorem Stands.dropLast (stands : files.Stands current) : files.Stands current.dropLast := by
  rcases List.eq_nil_or_concat' current with rfl | ⟨upper, last, rfl⟩
  · exact stands_root files
  · rw [List.dropLast_concat]
    have shorter {front : Location} (isFront : front <+: upper) : files.hasDirectory front := by
      refine stands.above front (isFront.trans (List.prefix_append _ _)) fun same => ?_
      have short := isFront.length_le
      rw [same, List.length_append, List.length_singleton] at short
      omega
    obtain ⟨mode, found⟩ := find?_of_hasDirectory (shorter List.prefix_rfl)
    exact ⟨⟨_, found, fun _ => by simp⟩, fun front isFront _ => shorter isFront⟩

/-- From such a location parts lead to another one. -/
theorem Reaches.stands (reaches : files.Reaches links current parts final left)
    (stands : files.Stands current) : files.Stands final := by
  induction reaches with
  | done => exact stands
  | stay directory void further inductionHypothesis => exact inductionHypothesis stands
  | leave directory further inductionHypothesis => exact inductionHypothesis stands.dropLast
  | @enter links left current final part rest entry directory isName short found notLink further
      inductionHypothesis =>
    refine inductionHypothesis ⟨⟨entry, found, notLink⟩, fun front isFront proper => ?_⟩
    have isUpper := (List.prefix_concat_iff.mp isFront).resolve_left proper
    by_cases whole : front = current
    · rwa [whole]
    · exact stands.above front isUpper whole
  | jump directory isName short found further inductionHypothesis =>
    refine inductionHypothesis ?_
    split
    · exact stands_root files
    · exact stands

/-- An absolute path starts from the root. -/
theorem stands_origin {path : Path} (absolute : path.isAbsolute) :
    files.Stands (files.origin path) := by
  rw [origin, if_pos absolute]
  exact stands_root files

/-- A path that starts from such a location and leads to no directory leads to a regular file. -/
theorem exists_stat_of_locate {path : Path} (starts : files.Stands (files.origin path))
    (located : files.locate path = .ok final) (noDirectory : files.hasDirectory final = false) :
    ∃ contents mode, files.stat path = .ok (.file contents mode) := by
  obtain ⟨left, leads⟩ := exists_leads located
  obtain ⟨entry, found, notLink⟩ := (leads.reaches.stands starts).here
  cases entry with
  | file contents mode => exact ⟨contents, mode, leads.stat_eq found⟩
  | directory mode => simp [hasDirectory, found] at noDirectory
  | link target => exact absurd rfl (notLink target)

/-- Canonical paths are absolute. -/
theorem isAbsolute_canonical {path canonical : Path}
    (isCanonical : files.canonical path = .ok canonical) : canonical.isAbsolute := by
  rw [FileSystem.canonical] at isCanonical
  cases located : files.locate path with
  | error cause =>
    rw [located] at isCanonical
    cases isCanonical
  | ok location =>
    rw [located] at isCanonical
    cases isCanonical
    cases location <;> rfl

end Standing

/-! ## Files in open directories -/

/-- A name in an open directory is that of a regular file or of a link to one. -/
inductive HoldsFile (files : FileSystem) (directory : Path) (location : Location) (name : Bytes) :
    Prop where
  | file {contents : Bytes} {mode : Nat}
      (found : files.find? (location ++ [name]) = some (.file contents mode)) :
      HoldsFile files directory location name
  | link {target : Path} {contents : Bytes} {mode : Nat}
      (found : files.find? (location ++ [name]) = some (.link target))
      (isFile : files.stat (directory.join ⟨name⟩) = .ok (.file contents mode)) :
      HoldsFile files directory location name

/-- A walk that ignores nothing comes by these names to a regular file or to a link to one. `above`
holds the directories that it is inside of, and it follows no link to one of them. -/
inductive Meets (files : FileSystem) : List Location → Path → List Bytes → Prop where
  | file {above : List Location} {directory : Path} {location : Location} {name : Bytes}
      (opened : files.locate directory = .ok location)
      (listed : name ∈ files.names location) (holds : files.HoldsFile directory location name) :
      Meets files above directory [name]
  | inside {above : List Location} {directory : Path} {location target : Location} {name : Bytes}
      {names : List Bytes} (opened : files.locate directory = .ok location)
      (listed : name ∈ files.names location)
      (entered : files.locate (directory.join ⟨name⟩) = .ok target)
      (isDirectory : files.hasDirectory target)
      (noLoop : ∀ link, files.find? (location ++ [name]) = some (.link link) → target ∉ above)
      (further : Meets files (target :: above) (directory.join ⟨name⟩) names) :
      Meets files above directory (name :: names)

/-- A walk that starts at a root and ignores nothing comes by these names to a regular file or to a
link to one. -/
def MeetsBelow (files : FileSystem) (root : Path) (names : List Bytes) : Prop :=
  ∃ location, files.locate root = .ok location ∧ files.Meets [location] root names

section Meeting

variable {files : FileSystem} {above : List Location} {directory : Path} {names : List Bytes}

/-- The names of a file are not none. -/
theorem Meets.ne_nil (meets : files.Meets above directory names) : names ≠ [] := by
  cases meets <;> exact List.cons_ne_nil _ _

/-- The names that a walk comes by are those of entries. -/
theorem Meets.isEntryName (tree : files.IsTree) (meets : files.Meets above directory names) :
    ∀ name ∈ names, Path.IsEntryName name := by
  induction meets with
  | file opened listed holds => simpa using tree.isEntryName listed
  | inside opened listed entered isDirectory noLoop further inductionHypothesis =>
    exact List.forall_mem_cons.mpr ⟨tree.isEntryName listed, inductionHypothesis⟩

end Meeting

end FileSystem

namespace Walk

open FileSystem (IsTree Meets)

variable {walk : Walk} {files : FileSystem} {above : List Location} {directory path : Path}
  {location : Location} {name : Bytes} {names : List Bytes}

/-! ## Walks that follow links -/

/-- What a walk takes for a file is one, or a link to one. -/
theorem kind?_eq_file_iff (follows : walk.followLinks = true) (absolute : directory.isAbsolute)
    (opened : files.locate directory = .ok location) (entry : Path.IsEntryName name) :
    walk.kind? files above (directory.join ⟨name⟩) (location ++ [name]) = some .file ↔
      files.HoldsFile directory location name := by
  constructor
  · intro kind
    rw [kind?] at kind
    split at kind
    · cases kind
    · next contents mode found => exact .file found
    · cases kind
    · next target found =>
      rw [follows, if_neg (by simp)] at kind
      split at kind
      · cases kind
      · next final located =>
        split at kind
        · split at kind <;> cases kind
        · next noDirectory =>
          have joined : (directory.join ⟨name⟩).isAbsolute := by
            rwa [Path.isAbsolute_join_name _ entry.cut]
          obtain ⟨contents, mode, isFile⟩ :=
            FileSystem.exists_stat_of_locate (FileSystem.stands_origin joined) located
              (by simpa using noDirectory)
          exact .link found isFile
  · rintro (found | ⟨-, isFile⟩)
    · rw [kind?, found]
    · exact kind?_of_stat follows opened entry isFile

/-- A walk meets what it finds. -/
theorem Finds.meets (follows : walk.followLinks = true) (tree : files.IsTree)
    (absolute : directory.isAbsolute) (finds : walk.Finds files above directory names) :
    files.Meets above directory names := by
  induction finds with
  | file opened listed kind kept =>
    exact .file opened listed
      ((kind?_eq_file_iff follows absolute opened (tree.isEntryName listed)).mp kind)
  | inside opened listed kind kept further inductionHypothesis =>
    have entry := tree.isEntryName listed
    obtain ⟨entered, isDirectory, noLoop⟩ := further.entered opened entry kind
    refine .inside opened listed entered isDirectory noLoop (inductionHypothesis ?_)
    rwa [Path.isAbsolute_join_name _ entry.cut]

/-- A walk finds what it meets and keeps. -/
theorem finds_of_meets (follows : walk.followLinks = true) (tree : files.IsTree)
    (absolute : directory.isAbsolute) (meets : files.Meets above directory names)
    (keeps : walk.Keeps directory names) : walk.Finds files above directory names := by
  induction meets with
  | file opened listed holds =>
    exact .file opened listed
      ((kind?_eq_file_iff follows absolute opened (tree.isEntryName listed)).mpr holds) keeps.1
  | inside opened listed entered isDirectory noLoop further inductionHypothesis =>
    have entry := tree.isEntryName listed
    obtain ⟨kept, keepsFurther⟩ := (keeps_cons_iff further.ne_nil).mp keeps
    refine .inside opened listed (kind?_of_locate follows opened entry entered isDirectory noLoop)
      kept (inductionHypothesis ?_ keepsFurther)
    rwa [Path.isAbsolute_join_name _ entry.cut]

/-- A walk that follows links lists what is met below its root and kept. -/
theorem mem_run_iff_meets (follows : walk.followLinks = true) (tree : files.IsTree)
    (absolute : walk.root.isAbsolute) {paths : List Path} (ran : walk.run files = .ok paths) :
    path ∈ paths ↔
      ∃ names, path = walk.root.below names ∧ files.MeetsBelow walk.root names ∧
        walk.Keeps walk.root names := by
  obtain ⟨location, located, rfl⟩ := exists_of_run ran
  rw [mem_filesBelow_iff tree (Nat.le_add_right _ _)]
  refine exists_congr fun names => and_congr_right fun _ => ?_
  constructor
  · intro finds
    exact ⟨⟨location, located, finds.meets follows tree absolute⟩, finds.keeps⟩
  · rintro ⟨⟨start, locatedStart, meets⟩, keeps⟩
    obtain rfl : location = start := Except.ok.inj (located.symm.trans locatedStart)
    exact finds_of_meets follows tree absolute meets keeps

/-! ## Walks that ignore more -/

section Less

variable {wider : Walk}

/-- A walk that ignores all that another one does, and perhaps more. -/
structure Narrows (walk wider : Walk) : Prop where
  sameRoot : walk.root = wider.root
  sameLinks : walk.followLinks = wider.followLinks
  keeps : ∀ path sort, walk.ignores path sort = false → wider.ignores path sort = false

/-- A walk that ignores more sees the same kinds of entries. -/
theorem Narrows.kind?_eq (narrows : walk.Narrows wider) :
    walk.kind? files above path location = wider.kind? files above path location := by
  rw [kind?, kind?, narrows.sameLinks]

/-- A walk that ignores more lists fewer files for a name, in the same order, if it does so for the
directories inside. -/
theorem Narrows.filesAt_sublist (narrows : walk.Narrows wider) {depth : Nat}
    (inner : ∀ above directory, (walk.filesBelow files depth above directory).Sublist
      (wider.filesBelow files depth above directory)) :
    (walk.filesAt files depth above directory location name).Sublist
      (wider.filesAt files depth above directory location name) := by
  unfold filesAt
  dsimp only
  rw [narrows.kind?_eq]
  split
  · exact .slnil
  · exact .slnil
  · split
    · exact List.nil_sublist _
    · next kept => rw [narrows.keeps _ _ (by simpa using kept)]; exact .refl _
  · split
    · exact List.nil_sublist _
    · next kept => rw [narrows.keeps _ _ (by simpa using kept)]; exact inner _ _

/-- A walk that ignores more lists fewer files below a directory, in the same order. -/
theorem Narrows.filesBelow_sublist (narrows : walk.Narrows wider) (depth : Nat)
    (above : List Location) (directory : Path) :
    (walk.filesBelow files depth above directory).Sublist
      (wider.filesBelow files depth above directory) := by
  induction depth generalizing above directory with
  | zero => exact .slnil
  | succ depth inductionHypothesis =>
    cases opened : files.locate directory with
    | error cause =>
      rw [filesBelow_error opened]
      exact List.nil_sublist _
    | ok location =>
      rw [filesBelow_eq opened, filesBelow_eq opened]
      exact List.Sublist.flatMap_right _ fun _ _ => narrows.filesAt_sublist inductionHypothesis

/-- A walk comes out if one that ignores less does, and lists a part of the same paths in the same
order. -/
theorem Narrows.exists_run_sublist (narrows : walk.Narrows wider) {others : List Path}
    (ran : wider.run files = .ok others) :
    ∃ paths, walk.run files = .ok paths ∧ paths.Sublist others := by
  rw [run] at ran ⊢
  rw [narrows.sameRoot]
  obtain ⟨root, located, listed⟩ := Except.bind_eq_ok_iff.mp ran
  rw [located, Except.ok_bind]
  split at listed
  · next isDirectory =>
    obtain rfl := Except.ok.inj listed
    rw [if_pos isDirectory]
    exact ⟨_, rfl, narrows.filesBelow_sublist _ _ _⟩
  · cases listed

end Less

end Walk

end ElmWorkbench
