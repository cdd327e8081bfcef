import ElmWorkbench.Project.Manifest
import ElmWorkbench.Proofs.Text.ByteOrder
import Mathlib.Data.List.Sort
import Mathlib.Data.Prod.Lex
/-!
# Dependencies of a manifest

The groups of a manifest overlap, and each of them is sorted by names alone. Their dependencies are
put into one list that stands for a set (`Manifest.dependencies_merge_groups`): each dependency of a
group once, in the order of names and then of versions. It is enough to leave out a dependency that
the same one follows, because the order is total, so repeated dependencies come to stand together
(`Dependency.pairwise_dropRepeats`).
-/

namespace ElmWorkbench

namespace Dependency

variable {dependency other : Dependency} {dependencies : List Dependency}

/-! ## The order of dependencies -/

/-- Dependencies are ordered by name and then by version. -/
theorem before_iff : dependency.before other ↔
    toLex (dependency.name, dependency.version) < toLex (other.name, other.version) := by
  rw [Prod.Lex.toLex_lt_toLex]
  simp [before]

/-- The order of dependencies is transitive. -/
theorem before_trans {further : Dependency} (first : dependency.before other)
    (second : other.before further) : dependency.before further :=
  before_iff.mpr ((before_iff.mp first).trans (before_iff.mp second))

/-- No dependency comes before itself. -/
theorem before_irrefl (dependency : Dependency) : ¬ dependency.before dependency := fun before =>
  (before_iff.mp before).false

/-- Two dependencies do not come before each other. -/
theorem not_before_of_before (before : dependency.before other) : ¬ other.before dependency :=
  fun reversed => before_irrefl dependency (before_trans before reversed)

/-- Of two different dependencies one comes before the other. -/
theorem before_of_not (different : dependency ≠ other) (notBefore : ¬ dependency.before other) :
    other.before dependency := by
  rw [before_iff] at notBefore ⊢
  refine (not_lt.mp notBefore).lt_of_ne fun same => different ?_
  obtain ⟨sameName, sameVersion⟩ := Prod.mk.inj (toLex.injective same)
  cases dependency
  cases other
  simp_all

/-- What dependencies are ordered by: the bytes of their names, then those of their versions. -/
def key (dependency : Dependency) : Bytes ×ₗ Bytes :=
  toLex (Utf8.encode dependency.name, Utf8.encode dependency.version)

/-- Dependencies are ordered as their keys are. -/
theorem before_iff_key : dependency.before other ↔ dependency.key < other.key := by
  rw [key, key, Prod.Lex.toLex_lt_toLex, Utf8.encode_lt_encode_iff, Utf8.encode_lt_encode_iff,
    Utf8.encode_injective.eq_iff]
  simp [before]

/-! ## Sorting -/

/-- A dependency that is put in is there with those that were there. -/
theorem mem_insert : other ∈ insert dependency dependencies ↔
    other = dependency ∨ other ∈ dependencies := by
  induction dependencies with
  | nil => simp [insert]
  | cons first rest inductionHypothesis =>
    rw [insert]
    split
    · rw [List.mem_cons, inductionHypothesis, List.mem_cons]
      exact or_left_comm
    · exact List.mem_cons

/-- To drop repeats drops no dependency. -/
theorem mem_dropRepeats : dependency ∈ dropRepeats dependencies ↔ dependency ∈ dependencies := by
  fun_induction dropRepeats dependencies with
  | case1 => rfl
  | case2 last => rfl
  | case3 first rest inductionHypothesis =>
    rw [inductionHypothesis]
    simp
  | case4 first second rest different inductionHypothesis =>
    rw [List.mem_cons, inductionHypothesis, ← List.mem_cons]

/-- To sort dependencies drops none and adds none. -/
theorem mem_sorted : dependency ∈ sorted dependencies ↔ dependency ∈ dependencies := by
  rw [sorted, mem_dropRepeats]
  induction dependencies with
  | nil => rfl
  | cons first rest inductionHypothesis =>
    rw [List.foldr_cons, mem_insert, List.mem_cons]
    exact or_congr_right inductionHypothesis

/-- A dependency is put into sorted ones where they stay sorted. -/
theorem pairwise_insert
    (ordered : dependencies.Pairwise fun left right => ¬ right.before left) :
    (insert dependency dependencies).Pairwise fun left right => ¬ right.before left := by
  induction dependencies with
  | nil => exact List.pairwise_singleton _ _
  | cons first rest inductionHypothesis =>
    obtain ⟨least, restOrdered⟩ := List.pairwise_cons.mp ordered
    rw [insert]
    split
    · next before =>
      refine List.pairwise_cons.mpr ⟨fun later member => ?_, inductionHypothesis restOrdered⟩
      rcases mem_insert.mp member with rfl | member
      · exact not_before_of_before before
      · exact least later member
    · next notBefore =>
      refine List.pairwise_cons.mpr ⟨List.forall_mem_cons.mpr ⟨notBefore, ?_⟩, ordered⟩
      -- Nothing behind the first one comes before it, let alone before what is put in front of it.
      intro later member reversed
      by_cases same : dependency = first
      · exact least later member (same ▸ reversed)
      · exact least later member (before_trans reversed (before_of_not (Ne.symm same) notBefore))

/-- Of ordered dependencies only neighbours repeat. -/
theorem pairwise_dropRepeats
    (ordered : dependencies.Pairwise fun left right => ¬ right.before left) :
    (dropRepeats dependencies).Pairwise fun left right => left.before right := by
  fun_induction dropRepeats dependencies with
  | case1 => exact .nil
  | case2 last => exact List.pairwise_singleton _ _
  | case3 first rest inductionHypothesis => exact inductionHypothesis ordered.of_cons
  | case4 first second rest different inductionHypothesis =>
    obtain ⟨least, restOrdered⟩ := List.pairwise_cons.mp ordered
    have before : first.before second :=
      before_of_not (Ne.symm different) (least second List.mem_cons_self)
    refine List.pairwise_cons.mpr ⟨fun later member => ?_, inductionHypothesis restOrdered⟩
    rcases List.mem_cons.mp (mem_dropRepeats.mp member) with rfl | member
    · exact before
    · by_cases same : later = second
      · exact same ▸ before
      · have notBefore := (List.pairwise_cons.mp restOrdered).1 later member
        exact before_trans before (before_of_not same notBefore)

/-- Sorted dependencies ascend by name, then by version. -/
theorem pairwise_sorted (dependencies : List Dependency) :
    (sorted dependencies).Pairwise fun left right => left.before right := by
  refine pairwise_dropRepeats ?_
  induction dependencies with
  | nil => exact .nil
  | cons first rest inductionHypothesis => exact pairwise_insert inductionHypothesis

/-! ## Sorted sets -/

/-- A list that stands for a set: its members in ascending order, so each of them once. -/
structure IsSortedSet (listed : List Dependency) (isMember : Dependency → Prop) : Prop where
  ascending : listed.Pairwise fun left right => left.key < right.key
  mem_iff : ∀ dependency, dependency ∈ listed ↔ isMember dependency

/-- Dependencies that have been sorted stand for the set of them. -/
theorem isSortedSet_sorted (dependencies : List Dependency) :
    IsSortedSet (sorted dependencies) (· ∈ dependencies) where
  ascending := (pairwise_sorted dependencies).imp before_iff_key.mp
  mem_iff _ := mem_sorted

/-- There is one list for a set. -/
theorem IsSortedSet.unique {listed others : List Dependency} {isMember : Dependency → Prop}
    (isSet : IsSortedSet listed isMember) (othersAreSet : IsSortedSet others isMember) :
    listed = others := by
  have irreflexive : Std.Irrefl fun left right : Dependency => left.key < right.key :=
    ⟨fun dependency less => before_irrefl dependency (before_iff_key.mpr less)⟩
  have antisymmetric : Std.Antisymm fun left right : Dependency => left.key < right.key :=
    ⟨fun _ _ less greater =>
      absurd (before_iff_key.mpr greater) (not_before_of_before (before_iff_key.mpr less))⟩
  refine isSet.ascending.eq_of_mem_iff othersAreSet.ascending fun dependency => ?_
  rw [isSet.mem_iff, othersAreSet.mem_iff]

end Dependency

namespace DependencyGroup

/-- Whether one of some groups lists a package at a version. -/
def Pins (groups : List DependencyGroup) (dependency : Dependency) : Prop :=
  ∃ group ∈ groups, (dependency.name, dependency.version) ∈ group.entries

/-- The dependencies of a group are its entries. -/
theorem mem_dependencies {group : DependencyGroup} {dependency : Dependency} :
    dependency ∈ group.dependencies ↔ (dependency.name, dependency.version) ∈ group.entries := by
  rw [dependencies, List.mem_map]
  constructor
  · rintro ⟨⟨name, version⟩, member, rfl⟩
    exact member
  · exact fun member => ⟨_, member, rfl⟩

end DependencyGroup

namespace Manifest

/-- All groups of dependencies. -/
def groups (manifest : Manifest) : List DependencyGroup :=
  [manifest.direct, manifest.indirect, manifest.testDirect, manifest.testIndirect]

/-- The collected dependencies are those of all groups. -/
theorem mem_collect {groups : List DependencyGroup} {dependency : Dependency} :
    dependency ∈ collect groups ↔ ∃ group ∈ groups, dependency ∈ group.dependencies := by
  rw [collect, Dependency.mem_sorted, List.mem_flatMap]

/-- The dependencies of a manifest are those of its groups. -/
theorem mem_dependencies {manifest : Manifest} {dependency : Dependency} :
    dependency ∈ manifest.dependencies ↔
      ∃ group ∈ manifest.groups, dependency ∈ group.dependencies :=
  mem_collect

/-- The collected dependencies stand for the set of what the groups pin. -/
theorem isSortedSet_collect (groups : List DependencyGroup) :
    Dependency.IsSortedSet (collect groups) (DependencyGroup.Pins groups) where
  ascending := (Dependency.isSortedSet_sorted _).ascending
  mem_iff dependency := by
    simp only [mem_collect, DependencyGroup.mem_dependencies, DependencyGroup.Pins]

/-- Dependencies of the project and of its tests are those of their groups, and all dependencies are
the union of both. Each list ascends and has every version that a package is pinned to. It does not
matter which groups list a dependency. -/
theorem dependencies_merge_groups (manifest : Manifest) :
    Dependency.IsSortedSet manifest.dependencies (DependencyGroup.Pins
        [manifest.direct, manifest.indirect, manifest.testDirect, manifest.testIndirect]) ∧
      Dependency.IsSortedSet manifest.runtimeDependencies
        (DependencyGroup.Pins [manifest.direct, manifest.indirect]) ∧
      Dependency.IsSortedSet manifest.testDependencies
        (DependencyGroup.Pins [manifest.testDirect, manifest.testIndirect]) ∧
      (∀ listed, listed = manifest.dependencies ↔ Dependency.IsSortedSet listed fun dependency =>
        dependency ∈ manifest.runtimeDependencies ∨ dependency ∈ manifest.testDependencies) ∧
      ∀ other : Manifest, other.dependencies = manifest.dependencies ↔ ∀ dependency,
        DependencyGroup.Pins other.groups dependency ↔
          DependencyGroup.Pins manifest.groups dependency := by
  have all := isSortedSet_collect manifest.groups
  have union : Dependency.IsSortedSet manifest.dependencies fun dependency =>
      dependency ∈ manifest.runtimeDependencies ∨ dependency ∈ manifest.testDependencies :=
    { ascending := all.ascending
      mem_iff := fun dependency => by
        simp [dependencies, runtimeDependencies, testDependencies, mem_collect, or_assoc] }
  refine ⟨all, isSortedSet_collect _, isSortedSet_collect _, fun listed => ?_, fun other => ?_⟩
  · exact ⟨fun same => same ▸ union, fun isUnion => isUnion.unique union⟩
  · have others := isSortedSet_collect other.groups
    constructor
    · intro same dependency
      rw [← others.mem_iff, ← all.mem_iff]
      exact iff_of_eq (congrArg (dependency ∈ ·) same)
    · intro samePins
      have renamed : Dependency.IsSortedSet other.dependencies
          (DependencyGroup.Pins manifest.groups) :=
        ⟨others.ascending, fun dependency => (others.mem_iff dependency).trans (samePins dependency)⟩
      exact renamed.unique all

end Manifest

end ElmWorkbench
