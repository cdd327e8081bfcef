import ElmWorkbench.Proofs.Project.Sources
/-!
# What is pruned

A walk looks into no directory that its selection leaves out, so a file is found only if all
directories on the way to it are kept. A selection has one rule for directories and another for
files, and the two go together: the way to a file that is kept is kept, but for directories that are
never looked into (`Selection.keeps_ways_to_files`). Directories are kept for the sake of what is
declared alone, and nothing is kept that does not lie below the root.
-/

namespace ElmWorkbench

/-! ## Ways from a root -/

namespace Path

/-- The components of a path, and more of them, make up the other path. -/
def IsAncestor (outer path : Path) : Prop :=
  ∃ behind, behind ≠ [] ∧ path.components = outer.components ++ behind

/-- A path lies below a root, and these names lead to it from there. Below a root without components
it may begin with `.`. -/
def LeadsFrom (root path : Path) (names : List Bytes) : Prop :=
  path.components = root.components ++ names.map .named ∨
    root.components = [] ∧ path.components = .here :: names.map .named

variable {root outer path : Path} {names : List Bytes}

/-- A path begins with `.` or does not have it. -/
theorem here_not_mem_behind {component : Component} {front behind : List Component}
    (whole : path.components = component :: front ++ behind) : .here ∉ behind := by
  have noHere := here_not_mem_filterMap path.parts
  rw [components_eq] at whole
  cases opening : path.split.1 with
  | none =>
    rw [opening, Option.toList_none, List.nil_append] at whole
    exact fun member => noHere (whole ▸ List.mem_append_right _ member)
  | some first =>
    rw [opening, Option.toList_some, List.singleton_append, List.cons_append] at whole
    exact fun member => noHere ((List.cons.inj whole).2 ▸ List.mem_append_right _ member)

/-- A path has names below a root if they lead from there to it. -/
theorem namesBelow?_eq_some_iff :
    namesBelow? root path = some names ↔ root.LeadsFrom path names := by
  rw [namesBelow?, componentsBelow?, LeadsFrom]
  by_cases below : root.components <+: path.components
  · rw [if_pos (List.isPrefixOf_iff_prefix.mpr below)]
    obtain ⟨behind, whole⟩ := below
    rw [← whole, List.drop_left, Option.bind_some]
    cases begins : root.components with
    | nil =>
      rw [begins, List.nil_append] at whole
      rw [List.nil_append, List.nil_append, whole]
      exact names?_eq_some_iff.trans (by simp [LeadsDown])
    | cons first others =>
      rw [begins] at whole
      rw [namesOf?_eq_some_iff (here_not_mem_behind whole.symm)]
      simp
  · rw [if_neg (below ∘ List.isPrefixOf_iff_prefix.mp)]
    simp only [Option.bind_none, reduceCtorEq, false_iff, not_or, not_and]
    refine ⟨fun whole => below ⟨_, whole.symm⟩, fun empty => ?_⟩
    rw [empty] at below
    exact absurd List.nil_prefix below

/-- Where no names lead there is no way. -/
theorem namesBelow?_eq_none_of (outside : ¬ root.components <+: path.components ∨
    ∃ behind, path.components = root.components ++ behind ∧ .up ∈ behind) :
    namesBelow? root path = none := by
  rw [Option.eq_none_iff_forall_ne_some]
  intro names found
  rw [namesBelow?_eq_some_iff] at found
  rcases outside with notBelow | ⟨behind, whole, up⟩
  · rcases found with named | ⟨empty, -⟩
    · exact notBelow ⟨_, named.symm⟩
    · exact notBelow (empty ▸ List.nil_prefix)
  · rcases found with named | ⟨empty, begins⟩
    · rw [List.append_cancel_left (whole.symm.trans named)] at up
      simp at up
    · rw [empty, List.nil_append] at whole
      rw [whole.symm.trans begins] at up
      simp at up

/-- The names that lead to a path around another one are the first of those that lead to the other,
without the last. -/
theorem LeadsFrom.exists_prefix (leads : root.LeadsFrom path names) (below : root.IsAncestor outer)
    (around : outer.IsAncestor path) :
    ∃ front, root.LeadsFrom outer front ∧ front <+: names.dropLast := by
  obtain ⟨between, betweenFilled, outerWhole⟩ := below
  obtain ⟨behind, behindFilled, whole⟩ := around
  rw [outerWhole, List.append_assoc] at whole
  have shorter {front rest : List Bytes} (split : names = front ++ rest)
      (rests : rest.map Component.named = behind) : front <+: names.dropLast := by
    have filled : rest ≠ [] := by
      rintro rfl
      exact behindFilled rests.symm
    rw [split, List.dropLast_append_of_ne_nil filled]
    exact List.prefix_append _ _
  rcases leads with named | ⟨empty, begins⟩
  · have cut := List.append_cancel_left (named.symm.trans whole)
    obtain ⟨front, rest, split, rfl, rests⟩ := List.map_eq_append_iff.mp cut
    exact ⟨front, .inl outerWhole, shorter split rests⟩
  · rw [empty, List.nil_append] at whole outerWhole
    obtain ⟨first, others, rfl⟩ := List.exists_cons_of_ne_nil betweenFilled
    obtain ⟨rfl, cut⟩ := List.cons.inj (begins.symm.trans whole)
    obtain ⟨front, rest, split, rfl, rests⟩ := List.map_eq_append_iff.mp cut
    exact ⟨front, .inr ⟨empty, outerWhole⟩, shorter split rests⟩

end Path

/-- The names between a root and a directory lead towards the declared one: to a directory on the
way to it, to itself, or to one inside it. -/
def Path.Touches (declared : Path) (names : List Bytes) : Prop :=
  ∃ front, declared.LeadsDown front ∧ (names <+: front ∨ front <+: names)

/-- The names between a store and a directory lead towards the package: to a directory on the way
to it, to itself, or to its sources or one inside them. -/
def Dependency.Touches (dependency : Dependency) (names : List Bytes) : Prop :=
  ∃ package, package ≠ [] ∧ dependency.segment.LeadsDown package ∧
    (names <+: package ∨
      ∃ inner, names = package ++ KnownDirectory.packageSource.nameBytes :: inner)

namespace Selection

variable {root path outer : Path} {chosen : List (List Bytes)} {names front : List Bytes}
  {manifest : Manifest} {dependencies : List Dependency}

/-! ## What is kept at any path -/

/-- A directory is kept for sources if nothing prunes it and it lies towards a chosen one. -/
theorem keeps_for_sources_iff :
    (sources root chosen).leavesOut path .directory = false ↔
      path.isPruned = false ∧ ∃ names, root.LeadsFrom path names ∧ leadsTo chosen names := by
  simp only [leavesOut, ← Path.namesBelow?_eq_some_iff]
  cases Path.namesBelow? root path <;> simp

/-- A file is kept as a source if it has the name of one and lies inside a chosen directory. -/
theorem keeps_source_iff :
    (sources root chosen).leavesOut path .file = false ↔
      path.isSource ∧ ∃ names, root.LeadsFrom path names ∧ isInside chosen names.dropLast := by
  simp only [leavesOut, ← Path.namesBelow?_eq_some_iff]
  cases Path.namesBelow? root path <;> simp

/-- A directory is kept for packages if it lies towards a chosen one. -/
theorem keeps_for_packages_iff :
    (packages root chosen).leavesOut path .directory = false ↔
      ∃ names, root.LeadsFrom path names ∧ entersPackage chosen names := by
  simp only [leavesOut, ← Path.namesBelow?_eq_some_iff]
  cases Path.namesBelow? root path <;> simp

/-- A file is kept for packages if it is one that a chosen package has. -/
theorem keeps_of_package_iff :
    (packages root chosen).leavesOut path .file = false ↔
      ∃ names, root.LeadsFrom path names ∧ isPackageFile chosen names path := by
  simp only [leavesOut, ← Path.namesBelow?_eq_some_iff]
  cases Path.namesBelow? root path <;> simp

/-! ## The ways to what is kept -/

/-- A directory is not pruned if it is neither the build cache nor the installed tools. -/
theorem isPruned_eq_false_iff : path.isPruned = false ↔
    path.fileName? ≠ some KnownDirectory.buildCache.nameBytes ∧
      path.fileName? ≠ some KnownDirectory.installedTools.nameBytes := by
  rw [← Bool.not_eq_true, Path.isPruned]
  cases path.fileName? <;> simp [isPrunedName_iff]

/-- A directory between the root and a source that is kept is kept too, unless it is pruned. -/
theorem keeps_way_to_source (kept : (sources root chosen).leavesOut path .file = false)
    (below : root.IsAncestor outer) (around : outer.IsAncestor path)
    (unpruned : outer.isPruned = false) :
    (sources root chosen).leavesOut outer .directory = false := by
  obtain ⟨-, names, leads, inside⟩ := keeps_source_iff.mp kept
  obtain ⟨front, leadsOut, isFront⟩ := leads.exists_prefix below around
  exact keeps_for_sources_iff.mpr ⟨unpruned, front, leadsOut, leadsTo_of_isInside inside isFront⟩

/-- All directories around a file of a package are entered for its sake. -/
theorem entersPackage_of_isPackageFile (belongs : isPackageFile chosen names path)
    (isFront : front <+: names.dropLast) : entersPackage chosen front := by
  obtain ⟨package, isChosen, belongs⟩ := List.any_eq_true.mp belongs
  obtain ⟨begins, wanted⟩ := Bool.and_eq_true_iff.mp belongs
  obtain ⟨rest, rfl⟩ := List.isPrefixOf_iff_prefix.mp begins
  rw [List.drop_left] at wanted
  refine entersPackage_iff.mpr ⟨package, isChosen, ?_⟩
  split at wanted
  · cases wanted
  · -- The manifest lies in the directory of the package itself.
    rw [List.dropLast_concat] at isFront
    exact .inl isFront
  · next first others notSingle _ =>
    obtain ⟨isFirst, -⟩ := Bool.and_eq_true_iff.mp wanted
    obtain ⟨inner, last, rfl⟩ := (List.eq_nil_or_concat' others).resolve_left notSingle
    rw [of_decide_eq_true isFirst, ← List.cons_append, ← List.append_assoc,
      List.dropLast_concat] at isFront
    exact prefix_or_inside isFront

/-- A directory between the store and a file of a package that is kept is kept too. -/
theorem keeps_way_to_package_file (kept : (packages root chosen).leavesOut path .file = false)
    (below : root.IsAncestor outer) (around : outer.IsAncestor path) :
    (packages root chosen).leavesOut outer .directory = false := by
  obtain ⟨names, leads, belongs⟩ := keeps_of_package_iff.mp kept
  obtain ⟨front, leadsOut, isFront⟩ := leads.exists_prefix below around
  exact keeps_for_packages_iff.mpr ⟨front, leadsOut, entersPackage_of_isPackageFile belongs isFront⟩

/-! ## What is declared -/

/-- Names lead to a declared directory if they touch one that leads down. -/
theorem leadsTo_filterMap_iff {declared : List Path} :
    leadsTo (declared.filterMap Path.names?) names ↔
      ∃ directory ∈ declared, directory.Touches names := by
  simp only [leadsTo_iff, List.mem_filterMap, Path.names?_eq_some_iff, Path.Touches]
  constructor
  · rintro ⟨front, ⟨directory, member, down⟩, meets⟩
    exact ⟨directory, member, front, down, meets⟩
  · rintro ⟨directory, member, front, down, meets⟩
    exact ⟨front, ⟨directory, member, down⟩, meets⟩

/-- Names enter a package if they touch a dependency. -/
theorem entersPackage_ofDependencies_iff :
    entersPackage ((dependencies.filterMap fun dependency => dependency.segment.names?).filter
        (· ≠ [])) names ↔
      ∃ dependency ∈ dependencies, dependency.Touches names := by
  simp only [entersPackage_iff, mem_packages_ofDependencies, Dependency.Touches]
  constructor
  · rintro ⟨package, ⟨dependency, member, filled, down⟩, meets⟩
    exact ⟨dependency, member, package, filled, down, meets⟩
  · rintro ⟨dependency, member, package, filled, down, meets⟩
    exact ⟨package, ⟨dependency, member, filled, down⟩, meets⟩

/-- A path without names below the root is left out, whatever is there. -/
theorem leavesOut_outside (outside : ¬ root.components <+: path.components ∨
      ∃ behind, path.components = root.components ++ behind ∧ .up ∈ behind) (sort : EntrySort) :
    (ofManifest root manifest).leavesOut path sort ∧
      (ofDependencies root dependencies).leavesOut path sort := by
  have nowhere := Path.namesBelow?_eq_none_of outside
  cases sort <;> simp [ofManifest, ofDependencies, leavesOut, nowhere]

/-- The directories on the way to a kept file are kept: for the sources of a manifest as far as they
have no name that is never looked into, for packages without exception. What is declared is all that
directories are kept for, and nothing is kept that lies outside of the root or is reached through
`..`. -/
theorem keeps_ways_to_files (root : Path) (manifest : Manifest) (dependencies : List Dependency) :
    (∀ path outer : Path, (ofManifest root manifest).leavesOut path .file = false →
      root.IsAncestor outer → outer.IsAncestor path →
      outer.fileName? ≠ some KnownDirectory.buildCache.nameBytes →
      outer.fileName? ≠ some KnownDirectory.installedTools.nameBytes →
      (ofManifest root manifest).leavesOut outer .directory = false) ∧
    (∀ path outer : Path, (ofDependencies root dependencies).leavesOut path .file = false →
      root.IsAncestor outer → outer.IsAncestor path →
      (ofDependencies root dependencies).leavesOut outer .directory = false) ∧
    (∀ path : Path, (ofManifest root manifest).leavesOut path .directory = false ↔
      (path.fileName? ≠ some KnownDirectory.buildCache.nameBytes ∧
        path.fileName? ≠ some KnownDirectory.installedTools.nameBytes) ∧
      ∃ names, root.LeadsFrom path names ∧
        ∃ declared ∈ manifest.sourceDirectories, declared.Touches names) ∧
    (∀ path : Path, (ofDependencies root dependencies).leavesOut path .directory = false ↔
      ∃ names, root.LeadsFrom path names ∧
        ∃ dependency ∈ dependencies, dependency.Touches names) ∧
    ∀ path : Path, (¬ root.components <+: path.components ∨
        ∃ behind, path.components = root.components ++ behind ∧ .up ∈ behind) →
      ∀ sort, (ofManifest root manifest).leavesOut path sort ∧
        (ofDependencies root dependencies).leavesOut path sort := by
  refine ⟨fun path outer kept below around notCache notTools => ?_,
    fun path outer kept below around => keeps_way_to_package_file kept below around,
    fun path => ?_, fun path => ?_, fun path => leavesOut_outside⟩
  · exact keeps_way_to_source kept below around (isPruned_eq_false_iff.mpr ⟨notCache, notTools⟩)
  · rw [ofManifest, keeps_for_sources_iff, isPruned_eq_false_iff]
    simp only [leadsTo_filterMap_iff]
  · rw [ofDependencies, keeps_for_packages_iff]
    simp only [entersPackage_ofDependencies_iff]

/-- The declared directory of the sample is kept for a source in it, and the directories around a
source of a package for that; a path beside the root is left out. -/
theorem keeps_ways_to_files_declaring :
    (ofManifest declaringRoot declaring).leavesOut (.ofString "/p/s") .directory = false ∧
      (ofDependencies declaringRoot [⟨"a/b", "1"⟩]).leavesOut (.ofString "/p/a/b") .directory =
        false ∧
      (ofManifest declaringRoot declaring).leavesOut (.ofString "/p/../A.elm") .file := by
  obtain ⟨source, package, -, -, outside⟩ :=
    keeps_ways_to_files declaringRoot declaring [⟨"a/b", "1"⟩]
  refine ⟨?_, ?_, ?_⟩
  · exact source (.ofString "/p/s/A.elm") _ (by decide) ⟨[.named [0x73]], by decide, by decide⟩
      ⟨[.named (Utf8.encode "A.elm")], by decide, by decide⟩ (by decide) (by decide)
  · exact package (.ofString "/p/a/b/1/src/C.elm") _ (by decide)
      ⟨[.named [0x61], .named [0x62]], by decide, by decide⟩
      ⟨[.named [0x31], .named (Utf8.encode "src"), .named (Utf8.encode "C.elm")], by decide,
        by decide⟩
  · exact (outside _ (.inr ⟨[.up, .named (Utf8.encode "A.elm")], by decide, by decide⟩) .file).1

end Selection

end ElmWorkbench
