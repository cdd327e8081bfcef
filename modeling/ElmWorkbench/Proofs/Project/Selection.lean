import ElmWorkbench.Project.PackageStore
import ElmWorkbench.Project.Sources
import ElmWorkbench.Proofs.FileSystem.Walk
import ElmWorkbench.Proofs.Project.Dependency
/-!
# What selections keep

A selection decides about files and about directories apart, and a walk leaves out a directory
with all that it holds. For the index the two decisions go together: the names of a file alone
tell whether it is kept (`Selection.keeps_project_iff`, `Selection.keeps_packages_iff`).
-/

namespace ElmWorkbench

/-- The name of a source file. -/
def IsSourceName (name : Bytes) : Prop :=
  Path.extensionOf? name = some (Utf8.encode sourceExtension)

/-- Names that lead from the root of a project to a file of its own index: the manifest at the
root, or a source that no directory between them hides. -/
def IsProjectFile (names : List Bytes) : Prop :=
  ∃ directories name, names = directories ++ [name] ∧
    ((directories = [] ∧ name = Utf8.encode manifestName) ∨ IsSourceName name) ∧
    ∀ directory ∈ directories, directory ≠ KnownDirectory.buildCache.nameBytes ∧
      directory ≠ KnownDirectory.installedTools.nameBytes

/-- Names that lead to a file of the index through those of a package: its manifest, or a source
somewhere below its source directory. -/
def IsPackageFile (package names : List Bytes) : Prop :=
  names = package ++ [Utf8.encode manifestName] ∨
    ∃ directories name, IsSourceName name ∧
      names = package ++ KnownDirectory.packageSource.nameBytes :: (directories ++ [name])

namespace Manifest

/-- Names that lead from a store to a file of a package that a manifest depends on, where `goes`
says which names the segment of a dependency goes through. -/
def Wants (manifest : Manifest) (goes : Path → List Bytes → Prop) (names : List Bytes) : Prop :=
  ∃ group ∈ manifest.groups, ∃ dependency ∈ group.dependencies, ∃ package, package ≠ [] ∧
    goes dependency.segment package ∧ IsPackageFile package names

end Manifest

namespace Selection

variable {root : Path} {directories : List Bytes} {name : Bytes}

@[simp] theorem ignores_walk (selection : Selection) (root path : Path) (sort : EntrySort) :
    (selection.walk root).ignores path sort = selection.leavesOut path sort := by
  simp [Walk.ignores, walk]

/-! ## The project itself -/

/-- The names that are pruned are those of the build cache and of the installed tools. -/
theorem isPrunedName_iff : KnownDirectory.isPrunedName name ↔
    name = KnownDirectory.buildCache.nameBytes ∨ name = KnownDirectory.installedTools.nameBytes := by
  simp only [KnownDirectory.isPrunedName, KnownDirectory.pruned, List.any_cons, List.any_nil,
    Bool.or_false, Bool.or_eq_true, decide_eq_true_eq]
  exact or_congr eq_comm eq_comm

section Joined

variable {directory : Path} (entry : Path.IsEntryName name)

include entry

/-- An entry of a directory is a source if its name is that of one. -/
theorem isSource_join : (directory.join ⟨name⟩).isSource ↔ IsSourceName name := by
  simp [Path.isSource, Path.extension?, Path.fileName?_join directory entry, IsSourceName]

/-- An entry of a directory is a manifest if it has its name. -/
theorem isManifest_join :
    (directory.join ⟨name⟩).isManifest ↔ name = Utf8.encode manifestName := by
  simp [Path.isManifest, Path.fileName?_join directory entry]

/-- An entry of a directory is pruned if its name is. -/
theorem isPruned_join : (directory.join ⟨name⟩).isPruned ↔ KnownDirectory.isPrunedName name := by
  simp [Path.isPruned, Path.fileName?_join directory entry]

end Joined

/-- The parent of an entry of a directory below a root is the root only if that directory is. -/
theorem parent_same_iff (above : ∀ directory ∈ directories, Path.IsEntryName directory)
    (entry : Path.IsEntryName name) :
    ((root.below directories).join ⟨name⟩).parent?.any (Path.same root) ↔ directories = [] := by
  obtain ⟨parent, isParent, sameComponents⟩ :=
    Path.exists_parent_join (root.below directories) entry
  rw [isParent, Option.any_some, Path.same, sameComponents, Path.components_below root above]
  simp

/-- A project keeps the manifest at its root and all sources. -/
theorem keeps_project_file_iff (above : ∀ directory ∈ directories, Path.IsEntryName directory)
    (entry : Path.IsEntryName name) :
    (project root).leavesOut (root.below (directories ++ [name])) .file = false ↔
      (directories = [] ∧ name = Utf8.encode manifestName) ∨ IsSourceName name := by
  rw [Path.below_concat, leavesOut, Bool.not_eq_false', Bool.or_eq_true, Bool.and_eq_true,
    isSource_join entry, isManifest_join entry, parent_same_iff above entry]
  exact ⟨fun kept => kept.symm.imp_left And.symm, fun kept => kept.symm.imp_right And.symm⟩

/-- The directories before a file are those that a walk enters, so each of their names counts. -/
theorem keeps_project_directories_iff
    (above : ∀ directory ∈ directories, Path.IsEntryName directory) :
    (∀ front, front <+: directories → front ≠ [] →
        (project root).leavesOut (root.below front) .directory = false) ↔
      ∀ directory ∈ directories, directory ≠ KnownDirectory.buildCache.nameBytes ∧
        directory ≠ KnownDirectory.installedTools.nameBytes := by
  have last {front : List Bytes} {directory : Bytes} (entry : Path.IsEntryName directory) :
      (project root).leavesOut (root.below (front ++ [directory])) .directory = false ↔
        directory ≠ KnownDirectory.buildCache.nameBytes ∧
          directory ≠ KnownDirectory.installedTools.nameBytes := by
    rw [Path.below_concat, leavesOut, ← Bool.not_eq_true, isPruned_join entry, isPrunedName_iff,
      not_or]
  constructor
  · intro kept directory member
    obtain ⟨before, after, rfl⟩ := List.append_of_mem member
    exact (last (above directory member)).mp
      (kept (before ++ [directory]) (by simp) (by simp))
  · intro free front isFront nonempty
    obtain ⟨before, directory, rfl⟩ := (List.eq_nil_or_concat' front).resolve_left nonempty
    have member : directory ∈ directories := isFront.subset (by simp)
    simpa using (last (above directory member)).mpr (free directory member)

/-- The walk through a project keeps the files of its index. -/
theorem keeps_project_iff {names : List Bytes} (nonempty : names ≠ [])
    (entries : ∀ part ∈ names, Path.IsEntryName part) :
    ((project root).walk root).Keeps root names ↔ IsProjectFile names := by
  obtain ⟨directories, name, rfl⟩ := (List.eq_nil_or_concat' names).resolve_left nonempty
  have above : ∀ directory ∈ directories, Path.IsEntryName directory := fun directory member =>
    entries directory (by simp [member])
  have entry : Path.IsEntryName name := entries name (by simp)
  simp only [Walk.keeps_concat_iff, ignores_walk]
  rw [keeps_project_file_iff above entry, keeps_project_directories_iff above]
  constructor
  · rintro ⟨wanted, free⟩
    exact ⟨directories, name, rfl, wanted, free⟩
  · rintro ⟨others, other, same, wanted, free⟩
    obtain ⟨rfl, rfl⟩ := List.append_singleton_inj.mp same
    exact ⟨wanted, free⟩

/-! ## Packages in a store -/

/-- Names enter a package on the way to it and inside its sources. -/
theorem entersPackage_iff {chosen : List (List Bytes)} {names : List Bytes} :
    entersPackage chosen names ↔ ∃ package ∈ chosen, names <+: package ∨
      ∃ inner, names = package ++ KnownDirectory.packageSource.nameBytes :: inner := by
  simp only [entersPackage, List.any_eq_true, Bool.or_eq_true, Bool.and_eq_true,
    List.isPrefixOf_iff_prefix, decide_eq_true_eq]
  refine exists_congr fun package => and_congr_right fun _ => or_congr_right ?_
  constructor
  · rintro ⟨⟨rest, rfl⟩, first⟩
    rw [List.drop_left] at first
    obtain ⟨inner, rfl⟩ := List.head?_eq_some_iff.mp first
    exact ⟨inner, rfl⟩
  · rintro ⟨inner, rfl⟩
    simp

/-- A file belongs to a package as its manifest or one of its sources. -/
theorem isPackageFile_iff {chosen : List (List Bytes)} {directory : Path}
    (entry : Path.IsEntryName name) :
    isPackageFile chosen (directories ++ [name]) (directory.join ⟨name⟩) ↔
      ∃ package ∈ chosen, IsPackageFile package (directories ++ [name]) := by
  simp only [isPackageFile, List.any_eq_true, Bool.and_eq_true, List.isPrefixOf_iff_prefix]
  refine exists_congr fun package => and_congr_right fun _ => ?_
  constructor
  · rintro ⟨⟨rest, whole⟩, wanted⟩
    rw [← whole, List.drop_left] at wanted
    split at wanted
    · cases wanted
    · rw [← whole, decide_eq_true_eq.mp wanted]
      exact .inl rfl
    · next first tail notSingle =>
      obtain ⟨inner, last, rfl⟩ := (List.eq_nil_or_concat' tail).resolve_left notSingle
      obtain ⟨isFirst, isSource⟩ := Bool.and_eq_true_iff.mp wanted
      rw [← List.cons_append, ← List.append_assoc] at whole
      obtain ⟨rfl, rfl⟩ := List.append_singleton_inj.mp whole
      rw [decide_eq_true_eq.mp isFirst]
      exact .inr ⟨inner, last, (isSource_join entry).mp isSource, by simp⟩
  · rintro (whole | ⟨inner, last, isSource, whole⟩)
    · rw [whole]
      simp
    · rw [← List.cons_append, ← List.append_assoc] at whole
      obtain ⟨rfl, rfl⟩ := List.append_singleton_inj.mp whole
      rw [List.append_assoc, List.drop_left]
      refine ⟨List.prefix_append _ _, ?_⟩
      cases inner <;> simp [(isSource_join entry).mpr isSource]

/-- All directories around one among the sources of a package are on the way to the package or among
its sources. -/
theorem prefix_or_inside {package front inner : List Bytes}
    (isFront : front <+: package ++ KnownDirectory.packageSource.nameBytes :: inner) :
    front <+: package ∨
      ∃ further, front = package ++ KnownDirectory.packageSource.nameBytes :: further := by
  rcases List.prefix_or_prefix_of_prefix isFront (List.prefix_append package _) with
    short | ⟨rest, rfl⟩
  · exact .inl short
  · rcases List.prefix_cons_iff.mp ((List.prefix_append_right_inj package).mp isFront) with
      rfl | ⟨further, rfl, -⟩
    · exact .inl (by simp)
    · exact .inr ⟨further, rfl⟩

/-- A walk comes through every directory before a file of a package: it is on the way to the package
or inside its sources. -/
theorem prefix_of_isPackageFile {package front : List Bytes}
    (belongs : IsPackageFile package (directories ++ [name])) (isFront : front <+: directories) :
    front <+: package ∨
      ∃ inner, front = package ++ KnownDirectory.packageSource.nameBytes :: inner := by
  rcases belongs with whole | ⟨inner, last, -, whole⟩
  · obtain ⟨rfl, -⟩ := List.append_singleton_inj.mp whole
    exact .inl isFront
  · rw [← List.cons_append, ← List.append_assoc] at whole
    obtain ⟨rfl, -⟩ := List.append_singleton_inj.mp whole
    exact prefix_or_inside isFront

/-- The walk through a store keeps the files of the chosen packages. -/
theorem keeps_packages_iff {chosen : List (List Bytes)} {names : List Bytes} (nonempty : names ≠ [])
    (entries : ∀ part ∈ names, Path.IsEntryName part) :
    ((packages root chosen).walk root).Keeps root names ↔
      ∃ package ∈ chosen, IsPackageFile package names := by
  have file : (packages root chosen).leavesOut (root.below names) .file = false ↔
      ∃ package ∈ chosen, IsPackageFile package names := by
    obtain ⟨directories, name, rfl⟩ := (List.eq_nil_or_concat' names).resolve_left nonempty
    rw [leavesOut, Path.namesBelow?_below root entries]
    dsimp only
    rw [Bool.not_eq_false', Path.below_concat, isPackageFile_iff (entries name (by simp))]
  obtain ⟨directories, name, rfl⟩ := (List.eq_nil_or_concat' names).resolve_left nonempty
  simp only [Walk.keeps_concat_iff, ignores_walk]
  rw [file, and_iff_left_iff_imp]
  rintro ⟨package, isChosen, belongs⟩ front isFront -
  have above : ∀ part ∈ front, Path.IsEntryName part := fun part member =>
    entries part (List.mem_append_left _ (isFront.subset member))
  rw [leavesOut, Path.namesBelow?_below root above]
  dsimp only
  rw [Bool.not_eq_false', entersPackage_iff]
  exact ⟨package, isChosen, prefix_of_isPackageFile belongs isFront⟩

/-- The packages that are chosen are those whose segments lead down. -/
theorem mem_packages_ofDependencies {dependencies : List Dependency} {package : List Bytes} :
    package ∈ ((dependencies.filterMap fun dependency => dependency.segment.names?).filter
        (· ≠ [])) ↔
      ∃ dependency ∈ dependencies, package ≠ [] ∧ dependency.segment.LeadsDown package := by
  simp [List.mem_filterMap, Path.names?_eq_some_iff, and_left_comm, and_comm]

/-- The walk through a store keeps the files of the packages that a manifest depends on, as far as
their segments lead down. -/
theorem keeps_ofDependencies_iff {manifest : Manifest} {names : List Bytes} (nonempty : names ≠ [])
    (entries : ∀ part ∈ names, Path.IsEntryName part) :
    ((ofDependencies root manifest.dependencies).walk root).Keeps root names ↔
      manifest.Wants Path.LeadsDown names := by
  rw [ofDependencies, keeps_packages_iff nonempty entries]
  constructor
  · rintro ⟨package, isChosen, belongs⟩
    obtain ⟨dependency, member, filled, down⟩ := mem_packages_ofDependencies.mp isChosen
    obtain ⟨group, isGroup, member⟩ := Manifest.mem_dependencies.mp member
    exact ⟨group, isGroup, dependency, member, package, filled, down, belongs⟩
  · rintro ⟨group, isGroup, dependency, member, package, filled, down, belongs⟩
    have listed := Manifest.mem_dependencies.mpr ⟨group, isGroup, member⟩
    exact ⟨package, mem_packages_ofDependencies.mpr ⟨dependency, listed, filled, down⟩, belongs⟩

end Selection

end ElmWorkbench
