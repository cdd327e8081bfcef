import ElmWorkbench.Proofs.FileSystem.Walk
import Mathlib.Data.List.Sort
/-!
# File systems of one shape

Two file systems have one shape if they differ at most in what regular files hold. Paths lead to the
same locations in both (`SameShape.locate_eq`), directories hold the same names
(`SameShape.names_eq`), and so every walk lists the same paths (`Walk.run_eq_of_sameShape`). A file
that is written anew keeps the shape (`Replaces.sameShape`).
-/

namespace ElmWorkbench.FileSystem

/-- A directory lists the names that entries stand at. -/
theorem mem_names_iff_isSome {files : FileSystem} {location : Location} {name : Bytes} :
    name ∈ files.names location ↔ (files.find? (location ++ [name])).isSome := by
  constructor
  · intro listed
    obtain ⟨item, member, below⟩ := mem_names_iff.mp listed
    have placed := eq_of_nameBelow? below
    rw [find?, if_neg (by simp), Option.isSome_map, List.find?_isSome]
    exact ⟨item, member, by simpa using placed⟩
  · intro found
    obtain ⟨entry, here⟩ := Option.isSome_iff_exists.mp found
    exact mem_names_of_find? here

/-- What stands at a location before and after: the same, or a regular file both times. -/
inductive SameSort : Option Entry → Option Entry → Prop where
  | same (found : Option Entry) : SameSort found found
  | files (contents other : Bytes) (mode otherMode : Nat) :
      SameSort (some (.file contents mode)) (some (.file other otherMode))

/-- Two file systems that differ at most in what regular files hold. -/
structure SameShape (files after : FileSystem) : Prop where
  start : after.workingDirectory = files.workingDirectory
  sorts : ∀ location, SameSort (files.find? location) (after.find? location)

namespace SameShape

variable {files after : FileSystem} (same : SameShape files after)

include same

/-- Where no regular file stands, the same stands afterwards. -/
theorem find?_eq {location : Location}
    (noFile : ∀ contents mode, files.find? location ≠ some (.file contents mode)) :
    after.find? location = files.find? location := by
  have sort := same.sorts location
  generalize files.find? location = found at sort noFile
  generalize after.find? location = foundAfter at sort
  cases sort with
  | same found => rfl
  | files contents other mode otherMode => exact absurd rfl (noFile contents mode)

/-- Where an entry that is no link stands, one stands afterwards. -/
theorem exists_find? {location : Location} {entry : Entry}
    (found : files.find? location = some entry) (notLink : ∀ target, entry ≠ .link target) :
    ∃ other, after.find? location = some other ∧ ∀ target, other ≠ .link target := by
  cases entry with
  | file contents mode =>
    have sort := same.sorts location
    rw [found] at sort
    generalize after.find? location = foundAfter at sort
    cases sort <;> exact ⟨_, rfl, fun _ => by simp⟩
  | directory mode => exact ⟨_, (same.find?_eq (by simp [found])).trans found, notLink⟩
  | link target => exact absurd rfl (notLink target)

/-- File systems of one shape have the same directories. -/
theorem hasDirectory_eq (location : Location) :
    after.hasDirectory location = files.hasDirectory location := by
  have sort := same.sorts location
  rw [hasDirectory, hasDirectory]
  generalize files.find? location = found at sort
  generalize after.find? location = foundAfter at sort
  cases sort <;> rfl

/-! ## Paths -/

/-- Paths are followed in the same way in file systems of one shape. -/
theorem follow_eq (followLast : Bool) (links : Nat) (current : Location) (parts : List Bytes) :
    after.follow followLast links current parts = files.follow followLast links current parts := by
  have entered {current : Location} (directory : ¬ (!files.hasDirectory current) = true) :
      files.hasDirectory current ∧ after.hasDirectory current := by
    rw [same.hasDirectory_eq]
    simpa using directory
  have isName {part : Bytes} (notVoid : ¬ Path.isVoid part = true) (notUp : ¬ part = Path.dotDot) :
      Path.IsName part := ⟨by simpa using notVoid, notUp⟩
  -- On the steps of following the parts: what stands at a name decides the step, and it is of one
  -- sort before and after.
  induction links, current, parts using follow.induct files followLast with
  | case1 links current => rw [follow, follow]
  | case2 links current part rest noDirectory =>
    rw [follow, follow, same.hasDirectory_eq, if_pos noDirectory, if_pos noDirectory]
  | case3 links current part rest directory void inductionHypothesis =>
    obtain ⟨here, hereAfter⟩ := entered directory
    rw [follow_stay hereAfter void, follow_stay here void, inductionHypothesis]
  | case4 links current rest directory notVoid inductionHypothesis =>
    obtain ⟨here, hereAfter⟩ := entered directory
    rw [follow_leave hereAfter, follow_leave here, inductionHypothesis]
  | case5 links current part rest directory notVoid notUp long =>
    obtain ⟨here, hereAfter⟩ := entered directory
    rw [follow_long hereAfter (isName notVoid notUp) long,
      follow_long here (isName notVoid notUp) long]
  | case6 links current part directory notVoid notUp short vacant =>
    obtain ⟨here, hereAfter⟩ := entered directory
    rw [follow_name hereAfter (isName notVoid notUp) (Nat.not_lt.mp short),
      follow_name here (isName notVoid notUp) (Nat.not_lt.mp short),
      same.find?_eq (by simp [vacant]), vacant]
  | case7 links current part rest directory notVoid notUp short missing more =>
    obtain ⟨here, hereAfter⟩ := entered directory
    rw [follow_name hereAfter (isName notVoid notUp) (Nat.not_lt.mp short),
      follow_name here (isName notVoid notUp) (Nat.not_lt.mp short),
      same.find?_eq (by simp [missing]), missing]
  | case8 links current part rest directory notVoid notUp short target found kept =>
    obtain ⟨here, hereAfter⟩ := entered directory
    rw [follow_name hereAfter (isName notVoid notUp) (Nat.not_lt.mp short),
      follow_name here (isName notVoid notUp) (Nat.not_lt.mp short),
      same.find?_eq (by simp [found]), found]
    dsimp only
    rw [if_pos kept, if_pos kept]
  | case9 current part rest directory notVoid notUp short target found followed =>
    obtain ⟨here, hereAfter⟩ := entered directory
    rw [follow_name hereAfter (isName notVoid notUp) (Nat.not_lt.mp short),
      follow_name here (isName notVoid notUp) (Nat.not_lt.mp short),
      same.find?_eq (by simp [found]), found]
  | case10 current part rest directory notVoid notUp short target found followed fewer
      inductionHypothesis =>
    obtain ⟨here, hereAfter⟩ := entered directory
    rw [follow_name hereAfter (isName notVoid notUp) (Nat.not_lt.mp short),
      follow_name here (isName notVoid notUp) (Nat.not_lt.mp short),
      same.find?_eq (by simp [found]), found]
    dsimp only
    rw [if_neg followed, if_neg followed]
    exact inductionHypothesis
  | case11 links current part rest directory notVoid notUp short entry notLink found
      inductionHypothesis =>
    obtain ⟨here, hereAfter⟩ := entered directory
    obtain ⟨other, foundAfter, noLink⟩ := same.exists_find? found notLink
    rw [follow_enter hereAfter (isName notVoid notUp) (Nat.not_lt.mp short) foundAfter noLink,
      follow_enter here (isName notVoid notUp) (Nat.not_lt.mp short) found notLink,
      inductionHypothesis]

/-- Paths lead to the same locations. -/
theorem locate_eq (path : Path) : after.locate path = files.locate path := by
  rw [locate, locate, resolve, resolve, origin, origin, same.start]
  simp only [same.follow_eq]

/-- A path leads to the same entry, unless it leads to a regular file that holds something else. -/
theorem stat_eq {path : Path} (kept : ∀ location, files.locate path = .ok location →
    after.find? location = files.find? location) : after.stat path = files.stat path := by
  rw [stat, stat, same.locate_eq]
  cases located : files.locate path with
  | error cause => rfl
  | ok location => rw [Except.ok_bind, Except.ok_bind, kept location located]

/-- Paths have the same canonical forms in file systems of one shape. -/
theorem canonical_eq (path : Path) : after.canonical path = files.canonical path := by
  rw [canonical, canonical, same.locate_eq]

/-- The same paths are directories in file systems of one shape. -/
theorem isDirectory_eq (path : Path) : after.isDirectory path = files.isDirectory path := by
  rw [isDirectory, isDirectory, stat, stat, same.locate_eq]
  cases files.locate path with
  | error cause => rfl
  | ok location =>
    rw [Except.ok_bind, Except.ok_bind]
    have sort := same.sorts location
    generalize files.find? location = found at sort
    generalize after.find? location = foundAfter at sort
    cases sort <;> rfl

/-! ## Walks -/

/-- Directories hold the same names. -/
theorem names_eq (location : Location) : after.names location = files.names location := by
  have members (name : Bytes) : name ∈ after.names location ↔ name ∈ files.names location := by
    have sort := same.sorts (location ++ [name])
    rw [mem_names_iff_isSome, mem_names_iff_isSome]
    generalize files.find? (location ++ [name]) = found at sort
    generalize after.find? (location ++ [name]) = foundAfter at sort
    cases sort <;> rfl
  have distinct {names : List Bytes} (sorted : names.Pairwise (· < ·)) : names.Nodup :=
    sorted.imp fun less => Std.ne_of_lt less
  have sorted := pairwise_names files location
  have sortedAfter := pairwise_names after location
  have permuted := (List.perm_ext_iff_of_nodup (distinct sortedAfter) (distinct sorted)).mpr members
  refine permuted.eq_of_pairwise ?_ sortedAfter sorted
  exact fun _ _ _ _ less greater => absurd less (List.lt_asymm greater)

end SameShape

/-! ## Replaced files -/

/-- Paths to one location lead to one entry. -/
theorem stat_congr {files : FileSystem} {path other : Path}
    (same : files.locate path = files.locate other) : files.stat path = files.stat other := by
  rw [stat, stat, same]

/-- Where there are no links, a path that leads to a file names the place of that file. -/
theorem Leads.eq_of_place? {files : FileSystem} {path : Path} {final location : Location}
    {left mode : Nat} {contents : Bytes} (leads : files.Leads path final left)
    (found : files.find? final = some (.file contents mode))
    (unlinked : ∀ location target, files.find? location ≠ some (.link target))
    (named : files.place? path = some location) : location = final := by
  obtain ⟨front, last, directory, between, parts, notVoid, upper, reaches⟩ :=
    leads.exists_last found
  cases reaches with
  | stay here void further => simp [notVoid] at void
  | leave here further =>
    rw [place?, locateParent, leads.limits, Except.ok_bind, parts, splitEnding_up] at named
    simp only [upper.follow_eq, Except.ok_bind, here] at named
    cases named
  | enter here isName short standing notLink further =>
    cases further
    have names : files.Names path directory last _ :=
      ⟨leads.limits, isName, ⟨front, parts, upper⟩, here⟩
    rw [names.place?_eq] at named
    exact (Option.some.inj named).symm
  | jump here isName short standing further => exact absurd standing (unlinked _ _)

/-- A file in the place of a file keeps the shape. -/
theorem sameShape_of_file {files after : FileSystem} {location : Location} {contents old : Bytes}
    {mode oldMode : Nat} (start : after.workingDirectory = files.workingDirectory)
    (found : files.find? location = some (.file old oldMode))
    (now : after.find? location = some (.file contents mode))
    (others : ∀ other, other ≠ location → after.find? other = files.find? other) :
    files.SameShape after where
  start := start
  sorts other := by
    by_cases here : other = location
    · subst here
      rw [found, now]
      exact .files ..
    · rw [others other here]
      exact .same _

/-- Replacing a regular file by another one keeps the shape. -/
theorem Replaces.sameShape {files after : FileSystem} {path : Path} {location : Location}
    {contents old : Bytes} {mode oldMode : Nat}
    (replaces : files.Replaces after path location (.file contents mode))
    (found : files.find? location = some (.file old oldMode)) : files.SameShape after :=
  sameShape_of_file replaces.sameStart found replaces.now replaces.others

end ElmWorkbench.FileSystem

namespace ElmWorkbench.Walk

variable {files after : FileSystem} (walk : Walk)

/-- A walk sees the same kinds of entries in file systems of one shape. -/
theorem kind?_eq_of_sameShape (same : files.SameShape after) (above : List Location) (path : Path)
    (location : Location) :
    walk.kind? after above path location = walk.kind? files above path location := by
  have sort := same.sorts location
  rw [kind?, kind?, same.locate_eq]
  simp only [same.hasDirectory_eq]
  generalize files.find? location = found at sort
  generalize after.find? location = foundAfter at sort
  cases sort <;> rfl

/-- A walk lists the same files in file systems of one shape. -/
theorem filesBelow_eq_of_sameShape (same : files.SameShape after) (depth : Nat)
    (above : List Location) (directory : Path) :
    walk.filesBelow after depth above directory = walk.filesBelow files depth above directory := by
  induction depth generalizing above directory with
  | zero => rfl
  | succ depth inductionHypothesis =>
    rw [filesBelow, filesBelow, same.locate_eq]
    simp only [same.names_eq, walk.kind?_eq_of_sameShape same, inductionHypothesis]

/-- A walk lists the same paths. -/
theorem run_eq_of_sameShape (same : files.SameShape after) : walk.run after = walk.run files := by
  rw [run, run, same.locate_eq]
  simp only [same.hasDirectory_eq, walk.filesBelow_eq_of_sameShape same]

end ElmWorkbench.Walk
