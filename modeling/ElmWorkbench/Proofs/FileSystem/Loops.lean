import ElmWorkbench.Proofs.FileSystem.Survival
import Mathlib.Data.Finset.Card
import Mathlib.Data.Finset.Lattice.Fold
import Mathlib.Order.Lattice.Nat
/-!
# Walks in trees with links

A link is followed only if it leads to none of the directories that the walk is inside of, and each
directory that is entered below a directory lies deeper in the tree. So with every step down either
fewer directories are left that a link may lead to, or less of the tree is left below
(`Walk.Descends.length_le`), and a walk comes to its end by itself: the number that bounds its depth
is not needed (`Walk.run_ends`). The same directory may still be entered many times, and by way of a
link to a directory around it even inside of itself.
-/

namespace ElmWorkbench

namespace FileSystem

variable {files : FileSystem} {location : Location} {above : List Location}

/-! ## Counting directories -/

/-- The locations of all directories, the root among them. -/
def directories (files : FileSystem) : Finset Location :=
  ([] :: files.entries.map Prod.fst).toFinset.filter fun location => files.hasDirectory location

/-- The directories are the locations where one stands. -/
theorem mem_directories : location ∈ files.directories ↔ files.hasDirectory location := by
  rw [directories, Finset.mem_filter, List.mem_toFinset, and_iff_right_iff_imp]
  intro isDirectory
  obtain ⟨mode, found⟩ := find?_of_hasDirectory isDirectory
  rw [find?] at found
  split at found
  · next isRoot =>
    rw [isRoot]
    exact List.mem_cons_self
  · obtain ⟨item, first, -⟩ := Option.map_eq_some_iff.mp found
    have same : item.1 = location := by simpa using List.find?_some first
    exact List.mem_cons_of_mem _ (List.mem_map.mpr ⟨item, List.mem_of_find?_eq_some first, same⟩)

/-- How many names lead to the deepest directory. -/
def height (files : FileSystem) : Nat :=
  files.directories.sup List.length

/-- No directory lies deeper than the height. -/
theorem length_le_height (isDirectory : files.hasDirectory location) :
    location.length ≤ files.height :=
  Finset.le_sup (f := List.length) (mem_directories.mpr isDirectory)

/-- The directories that a link may lead to from inside of some directories. -/
def remaining (files : FileSystem) (above : List Location) : Finset Location :=
  files.directories.filter (· ∉ above)

/-- Inside of one more directory, links may lead to no more directories than before. -/
theorem remaining_cons_subset (target : Location) (above : List Location) :
    files.remaining (target :: above) ⊆ files.remaining above :=
  Finset.monotone_filter_right _ fun _ _ apart => mt (List.mem_cons_of_mem target) apart

/-- A directory that has not been come through yet no longer remains. -/
theorem card_remaining_lt {target : Location} (isDirectory : files.hasDirectory target)
    (apart : target ∉ above) :
    (files.remaining (target :: above)).card < (files.remaining above).card := by
  refine Finset.card_lt_card ⟨remaining_cons_subset target above, fun same => ?_⟩
  have here : target ∈ files.remaining above :=
    Finset.mem_filter.mpr ⟨mem_directories.mpr isDirectory, apart⟩
  exact (Finset.mem_filter.mp (same here)).2 List.mem_cons_self

/-- At its start a walk is inside of one directory. -/
theorem card_remaining_root (isDirectory : files.hasDirectory location) :
    (files.remaining [location]).card < files.directories.card := by
  refine Finset.card_lt_card ⟨Finset.filter_subset _ _, fun same => ?_⟩
  have here := same (mem_directories.mpr isDirectory)
  exact (Finset.mem_filter.mp here).2 List.mem_cons_self

/-! ## Links on a way -/

/-- How many of the names that lead down from a directory are those of links. -/
def linksBelow (files : FileSystem) (directory : Path) : List Bytes → Nat
  | [] => 0
  | name :: names =>
    match files.entryIn? directory name with
    | some (.link _) => files.linksBelow (directory.join ⟨name⟩) names + 1
    | _ => files.linksBelow (directory.join ⟨name⟩) names

/-- Names lead down from a root, and each link among them to a directory that the names before it
have not come through. -/
def NeverReturns (files : FileSystem) (root : Path) (names : List Bytes) : Prop :=
  ∀ upper name link, upper ++ [name] <+: names →
    files.entryIn? (root.below upper) name = some (.link link) →
      ∃ target, files.locate (root.below (upper ++ [name])) = .ok target ∧
        files.hasDirectory target ∧
        ∀ front, front <+: upper → files.locate (root.below front) ≠ .ok target

/-- No names lead back. -/
theorem neverReturns_nil {root : Path} : files.NeverReturns root [] := by
  intro upper name link isFront
  simp at isFront

end FileSystem

namespace Walk

variable {walk : Walk} {files : FileSystem} {above : List Location} {directory path : Path}
  {location target : Location} {name : Bytes} {upper names : List Bytes}

/-- Names of directories that a walk enters one inside of the other. `above` holds those that it is
inside of before. -/
inductive Descends (walk : Walk) (files : FileSystem) :
    List Location → Path → List Bytes → Prop where
  | here {above : List Location} {directory : Path} : Descends walk files above directory []
  | into {above : List Location} {directory : Path} {location target : Location} {name : Bytes}
      {names : List Bytes} (opened : files.locate directory = .ok location)
      (listed : name ∈ files.names location)
      (kind : walk.kind? files above (directory.join ⟨name⟩) (location ++ [name]) =
        some (.directory target))
      (kept : walk.ignores (directory.join ⟨name⟩) .directory = false)
      (further : Descends walk files (target :: above) (directory.join ⟨name⟩) names) :
      Descends walk files above directory (name :: names)

/-! ## One step down -/

/-- A directory that is entered has the name itself, or a link to it does and it is none of those
above. -/
theorem kind?_directory_cases
    (kind : walk.kind? files above path location = some (.directory target)) :
    (∃ mode, files.find? location = some (.directory mode) ∧ target = location) ∨
      ∃ link, files.find? location = some (.link link) ∧ files.locate path = .ok target ∧
        files.hasDirectory target ∧ target ∉ above := by
  rw [kind?] at kind
  split at kind
  · cases kind
  · cases kind
  · next mode found =>
    cases kind
    exact .inl ⟨mode, found, rfl⟩
  · next link found =>
    split at kind
    · cases kind
    · cases located : files.locate path with
      | error cause =>
        rw [located] at kind
        cases kind
      | ok final =>
        simp only [located] at kind
        split at kind
        · next isDirectory =>
          split at kind
          · cases kind
          · next apart =>
            cases kind
            exact .inr ⟨link, found, rfl, isDirectory, by simpa using apart⟩
        · cases kind

/-- What lies inside of a directory that is entered is found from where it is. -/
theorem locate_of_descends (tree : files.IsTree) (opened : files.locate directory = .ok location)
    (listed : name ∈ files.names location)
    (kind : walk.kind? files above (directory.join ⟨name⟩) (location ++ [name]) =
      some (.directory target))
    (further : walk.Descends files (target :: above) (directory.join ⟨name⟩) names)
    (nonempty : names ≠ []) : files.locate (directory.join ⟨name⟩) = .ok target := by
  cases further with
  | here => exact absurd rfl nonempty
  | into inside _ _ _ _ =>
    obtain ⟨rfl, -⟩ := of_kind?_directory opened (tree.isEntryName listed) kind inside
    exact inside

/-! ## How far down -/

/-- Entering a directory uses up one of those that links may lead to, or one level of the tree. -/
theorem Descends.length_le (tree : files.IsTree)
    (descends : walk.Descends files above directory names)
    (opened : files.locate directory = .ok location) :
    names.length ≤ (files.remaining above).card * (files.height + 1) +
      (files.height - location.length) := by
  induction descends generalizing location with
  | here => exact Nat.zero_le _
  | @into above directory start target name names isOpen listed kind kept further
      inductionHypothesis =>
    obtain rfl := Except.ok.inj (isOpen.symm.trans opened)
    have rest : names.length ≤ (files.remaining (target :: above)).card * (files.height + 1) +
        (files.height - target.length) := by
      by_cases last : names = []
      · rw [last]
        exact Nat.zero_le _
      · exact inductionHypothesis
          (locate_of_descends tree opened listed kind further last)
    rw [List.length_cons]
    rcases kind?_directory_cases kind with ⟨mode, found, rfl⟩ | ⟨link, -, -, isDirectory, apart⟩
    · have deep : (start ++ [name]).length ≤ files.height :=
        FileSystem.length_le_height (by rw [FileSystem.hasDirectory, found])
      have fewer := Nat.mul_le_mul_right (files.height + 1)
        (Finset.card_le_card (files.remaining_cons_subset (start ++ [name]) above))
      rw [List.length_append, List.length_singleton] at deep rest
      omega
    · have fewer := Nat.mul_le_mul_right (files.height + 1)
        (FileSystem.card_remaining_lt isDirectory apart)
      rw [Nat.succ_mul] at fewer
      omega

/-- From a directory a walk goes down fewer levels than there are directories, times their
height. -/
theorem Descends.length_lt (tree : files.IsTree)
    (descends : walk.Descends files [location] directory names)
    (opened : files.locate directory = .ok location) (isDirectory : files.hasDirectory location) :
    names.length < files.directories.card * (files.height + 1) := by
  have bound := descends.length_le tree opened
  have fewer := Nat.mul_le_mul_right (files.height + 1) (files.card_remaining_root isDirectory)
  rw [Nat.succ_mul] at fewer
  omega

/-- Paths grow with every name, so a walk goes down fewer levels than the longest path has bytes. -/
theorem Descends.length_add_le (tree : files.IsTree)
    (descends : walk.Descends files above directory names)
    (opened : files.locate directory = .ok location) :
    names.length + directory.bytes.length ≤ pathLimit := by
  induction descends generalizing location with
  | here =>
    rw [List.length_nil, Nat.zero_add]
    exact (length_lt_of_locate opened).le
  | @into above directory start target name names isOpen listed kind kept further
      inductionHypothesis =>
    have longer := Path.length_lt_join directory (tree.isEntryName listed)
    by_cases last : names = []
    · have short := length_lt_of_locate opened
      rw [last, List.length_singleton]
      omega
    · have rest := inductionHypothesis (locate_of_descends tree isOpen listed kind further last)
      rw [List.length_cons]
      omega

/-- A walk that descends has fewer names behind it than a path has bytes at most. -/
theorem Descends.length_lt_pathLimit (tree : files.IsTree)
    (descends : walk.Descends files above directory names)
    (opened : files.locate directory = .ok location) : names.length < pathLimit := by
  obtain ⟨left, leads⟩ := FileSystem.exists_leads opened
  have filled := List.length_pos_of_ne_nil (FileSystem.checkLimits_eq_ok_iff.mp leads.limits).2.1
  have bound := descends.length_add_le tree opened
  omega

/-- A bound on the depth that no way down reaches takes nothing away. -/
theorem filesBelow_add {depth : Nat}
    (unreached : ∀ names, walk.Descends files above directory names → names.length < depth)
    (more : Nat) :
    walk.filesBelow files (depth + more) above directory =
      walk.filesBelow files depth above directory := by
  induction depth generalizing above directory with
  | zero => exact absurd (unreached [] .here) (Nat.not_lt_zero _)
  | succ depth inductionHypothesis =>
    rw [Nat.add_right_comm]
    cases opened : files.locate directory with
    | error cause => rw [filesBelow_error opened, filesBelow_error opened]
    | ok location =>
      rw [filesBelow_eq opened, filesBelow_eq opened]
      refine List.flatMap_congr fun name listed => ?_
      unfold filesAt
      dsimp only
      split
      · rfl
      · rfl
      · rfl
      · next target kind =>
        split
        · rfl
        · next kept =>
          refine inductionHypothesis fun names further => ?_
          exact Nat.lt_of_succ_lt_succ
            (unreached (name :: names) (.into opened listed kind (by simpa using kept) further))

/-! ## Links on the way -/

/-- Each link on the way down leads to another directory. -/
theorem Descends.linksBelow_le (descends : walk.Descends files above directory names) :
    files.linksBelow directory names ≤ (files.remaining above).card := by
  induction descends with
  | here => exact Nat.zero_le _
  | @into above directory start target name names opened listed kind kept further
      inductionHypothesis =>
    rw [FileSystem.linksBelow, FileSystem.entryIn?_eq opened]
    rcases kind?_directory_cases kind with ⟨mode, found, rfl⟩ |
      ⟨link, found, -, isDirectory, apart⟩
    · rw [found]
      exact inductionHypothesis.trans
        (Finset.card_le_card (files.remaining_cons_subset (start ++ [name]) above))
    · rw [found]
      exact inductionHypothesis.trans_lt (FileSystem.card_remaining_lt isDirectory apart)

/-- A walk that has come down without returning goes on without returning. -/
theorem Descends.neverReturns {root : Path} (tree : files.IsTree)
    (descends : walk.Descends files above (root.below upper) names)
    (isAbove : files.IsAbove root upper above) (before : files.NeverReturns root upper) :
    files.NeverReturns root (upper ++ names) := by
  -- On the names that are left: one of them at a time joins those that have been gone through.
  generalize start : root.below upper = directory at descends
  induction descends generalizing upper with
  | here => rwa [List.append_nil]
  | @into above directory location target name names opened listed kind kept further
      inductionHypothesis =>
    subst start
    have joined := Path.below_concat root upper name
    have now : files.NeverReturns root (upper ++ [name]) := by
      intro front next link isFront linked
      rcases List.prefix_concat_iff.mp isFront with whole | isUpper
      · obtain ⟨rfl, rfl⟩ := List.append_singleton_inj.mp whole
        rw [FileSystem.entryIn?_eq opened] at linked
        rcases kind?_directory_cases kind with ⟨mode, found, -⟩ |
          ⟨_, -, located, isDirectory, apart⟩
        · rw [found] at linked
          cases linked
        · refine ⟨target, joined ▸ located, isDirectory, fun earlier isEarlier same => ?_⟩
          exact apart ((isAbove target).mpr ⟨earlier, isEarlier, same⟩)
      · exact before front next link isUpper linked
    by_cases last : names = []
    · rwa [last]
    · have inside := locate_of_descends tree opened listed kind further last
      rw [← joined] at inside
      have rest := inductionHypothesis (isAbove.concat inside) now joined
      rwa [List.append_assoc] at rest

/-- The names before the last of a file that is found are those of directories. -/
theorem Finds.exists_descends (finds : walk.Finds files above directory names) :
    ∃ upper name, names = upper ++ [name] ∧ walk.Descends files above directory upper := by
  induction finds with
  | @file above directory location name opened listed kind kept => exact ⟨[], name, rfl, .here⟩
  | @inside above directory location target name names opened listed kind kept further
      inductionHypothesis =>
    obtain ⟨upper, last, rfl, descends⟩ := inductionHypothesis
    exact ⟨name :: upper, last, rfl, .into opened listed kind kept descends⟩

/-! ## Whole walks -/

/-- A walk that has come out started in a directory. -/
theorem hasDirectory_of_run {paths : List Path} (ran : walk.run files = .ok paths)
    (opened : files.locate walk.root = .ok location) : files.hasDirectory location := by
  by_contra noDirectory
  rw [run, FileSystem.concerning, opened] at ran
  change (if files.hasDirectory location then _ else _) = _ at ran
  rw [if_neg noDirectory] at ran
  cases ran

/-- A walk comes to its end, whatever links there are. It enters directories inside of one another
at most as deep as the number of directories times their height, and a bound on its depth from there
on takes nothing away. On the way to a file that is listed no link leads to a directory that the way
has come through before, so there are fewer links on it than directories. -/
theorem run_ends (tree : files.IsTree) :
    ((∃ paths, walk.run files = .ok paths) ↔ files.isDirectory walk.root) ∧
      ∀ location paths, files.locate walk.root = .ok location → walk.run files = .ok paths →
        (∀ names, walk.Descends files [location] walk.root names →
          names.length < files.directories.card * (files.height + 1)) ∧
        (∀ depth, files.directories.card * (files.height + 1) ≤ depth →
          walk.filesBelow files depth [location] walk.root = paths) ∧
        ∀ path ∈ paths, ∃ upper name, path = walk.root.below (upper ++ [name]) ∧
          files.NeverReturns walk.root upper ∧
          files.linksBelow walk.root upper < files.directories.card := by
  refine ⟨⟨?_, ?_⟩, fun location paths opened ran => ?_⟩
  · rintro ⟨paths, ran⟩
    obtain ⟨location, opened, -⟩ := exists_of_run ran
    exact FileSystem.isDirectory_iff.mpr ⟨location, opened, hasDirectory_of_run ran opened⟩
  · intro rooted
    obtain ⟨location, opened, isDirectory⟩ := FileSystem.isDirectory_iff.mp rooted
    exact ⟨_, run_eq opened isDirectory⟩
  · have isDirectory := hasDirectory_of_run ran opened
    obtain ⟨start, located, rfl⟩ := exists_of_run ran
    obtain rfl : location = start := Except.ok.inj (opened.symm.trans located)
    have bound {names : List Bytes} (descends : walk.Descends files [location] walk.root names) :=
      descends.length_lt tree opened isDirectory
    have short {names : List Bytes} (descends : walk.Descends files [location] walk.root names) :=
      descends.length_lt_pathLimit tree opened
    refine ⟨fun names => bound, fun depth enough => ?_, fun path listed => ?_⟩
    · -- No way down reaches either bound, so the walk with both of them added is that with each.
      have byDepth := filesBelow_add (fun names descends => (bound descends).trans_le enough)
        pathLimit
      have byLimit := filesBelow_add (fun names => short) depth
      rw [← byDepth, Nat.add_comm, byLimit]
    · obtain ⟨names, rfl, finds⟩ := exists_finds_of_mem listed
      obtain ⟨upper, name, rfl, descends⟩ := finds.exists_descends
      have loopFree : files.NeverReturns walk.root ([] ++ upper) :=
        descends.neverReturns tree (FileSystem.isAbove_root opened) FileSystem.neverReturns_nil
      exact ⟨upper, name, rfl, loopFree,
        descends.linksBelow_le.trans_lt (files.card_remaining_root isDirectory)⟩

/-! ## A tree that leads back into itself -/

/-- A directory `/r` with a link to itself, a link to the directory around it, and two directories
in it with links to each other. -/
def circlingFiles : FileSystem where
  -- The names of one byte are `r`, `a`, `b`, `f`, `s` and `u`.
  entries :=
    [([[0x72]], .directory directoryMode), ([[0x72], [0x61]], .directory directoryMode),
      ([[0x72], [0x61], [0x62]], .link (.ofString "../b")),
      ([[0x72], [0x61], [0x66]], .file [] fileMode),
      ([[0x72], [0x62]], .directory directoryMode),
      ([[0x72], [0x62], [0x61]], .link (.ofString "../a")),
      ([[0x72], [0x73]], .link (.ofString "s")), ([[0x72], [0x75]], .link (.ofString "/"))]
  workingDirectory := []

/-- A walk through all of it. -/
def circlingWalk : Walk where
  root := .ofString "/r"
  followLinks := true
  ignoring := []

/-- The files that it lists: a single one, by four ways. -/
def circlingPaths : List Path :=
  [.ofString "/r/a/f", .ofString "/r/b/a/f", .ofString "/r/u/r/a/f", .ofString "/r/u/r/b/a/f"]

/-- A walk through links that lead into each other comes out, and its files lie on ways that never
return. -/
theorem run_ends_circling :
    circlingFiles.IsTree ∧ circlingFiles.locate circlingWalk.root = .ok [[0x72]] ∧
      circlingWalk.run circlingFiles = .ok circlingPaths ∧
      circlingWalk.filesBelow circlingFiles 12 [[[0x72]]] circlingWalk.root = circlingPaths ∧
      ∀ path ∈ circlingPaths, ∃ upper name, path = circlingWalk.root.below (upper ++ [name]) ∧
        circlingFiles.NeverReturns circlingWalk.root upper ∧
        circlingFiles.linksBelow circlingWalk.root upper < circlingFiles.directories.card := by
  have tree : circlingFiles.IsTree := by
    unfold FileSystem.IsTree
    decide
  have opened : circlingFiles.locate circlingWalk.root = .ok [[0x72]] :=
    FileSystem.locate_of_through? (by decide) rfl
  have ran : circlingWalk.run circlingFiles = .ok circlingPaths := by cbv
  have size : circlingFiles.directories.card * (circlingFiles.height + 1) = 12 := by decide
  obtain ⟨-, -, unbounded, ways⟩ := run_ends tree |>.imp_right fun ends => ends _ _ opened ran
  exact ⟨tree, opened, ran, unbounded 12 size.le, ways⟩

end Walk

end ElmWorkbench
