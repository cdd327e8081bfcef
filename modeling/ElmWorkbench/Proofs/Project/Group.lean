import ElmWorkbench.Project.Dependency
import Mathlib.Data.List.Induction
import Mathlib.Data.List.Sort
import Mathlib.Data.String.Basic
/-!
# Groups of dependencies

A group has its names in ascending order, and for each name the version that was added last
(`DependencyGroup.collects_ofEntries`). That determines the group
(`DependencyGroup.Collects.unique`).
-/

namespace ElmWorkbench.DependencyGroup

variable {entries additions : List (String × String)} {entry addition : String × String}
  {name version : String} {group other : DependencyGroup}

/-- Entries with ascending names, so each name stands once. -/
def IsOrdered (entries : List (String × String)) : Prop :=
  entries.Pairwise fun left right => left.1 < right.1

/-- An addition whose name is not added again after it. -/
def IsLast (additions : List (String × String)) (addition : String × String) : Prop :=
  ∃ before after, additions = before ++ addition :: after ∧ ∀ later ∈ after, later.1 ≠ addition.1

/-- A group holds the last addition of each name, in the order of the names. -/
structure Collects (group : DependencyGroup) (additions : List (String × String)) : Prop where
  ordered : IsOrdered group.entries
  holds : ∀ entry, entry ∈ group.entries ↔ IsLast additions entry

/-! ## One addition -/

/-- Of two entries with one name the added one stays. -/
theorem mem_insertEntry_iff (ordered : IsOrdered entries) :
    entry ∈ insertEntry name version entries ↔
      entry = (name, version) ∨ entry ∈ entries ∧ entry.1 ≠ name := by
  induction entries with
  | nil => simp [insertEntry]
  | cons first rest inductionHypothesis =>
    obtain ⟨firstLeast, restOrdered⟩ := List.pairwise_cons.mp ordered
    rw [insertEntry]
    split
    · next same =>
      have others : entry ∈ rest → entry.1 ≠ name := fun member =>
        same ▸ (firstLeast entry member).ne'
      have replaced : entry = first → entry.1 = name := fun isFirst => isFirst ▸ same.symm
      grind
    · next different =>
      split
      · next least =>
        have others : entry ∈ first :: rest → entry.1 ≠ name := by
          intro member
          rcases List.mem_cons.mp member with rfl | later
          · exact least.ne'
          · exact (least.trans (firstLeast entry later)).ne'
        grind
      · have kept : entry = first → entry.1 ≠ name := fun isFirst => isFirst ▸ Ne.symm different
        rw [List.mem_cons, inductionHypothesis restOrdered]
        grind

/-- An entry is put into a group where the names stay ascending. -/
theorem isOrdered_insertEntry (ordered : IsOrdered entries) (name version : String) :
    IsOrdered (insertEntry name version entries) := by
  induction entries with
  | nil => exact List.pairwise_singleton _ _
  | cons first rest inductionHypothesis =>
    obtain ⟨firstLeast, restOrdered⟩ := List.pairwise_cons.mp ordered
    rw [insertEntry]
    split
    · next same => exact List.pairwise_cons.mpr ⟨same ▸ firstLeast, restOrdered⟩
    · next different =>
      split
      · next least =>
        refine List.pairwise_cons.mpr ⟨List.forall_mem_cons.mpr ⟨least, ?_⟩, ordered⟩
        exact fun later member => least.trans (firstLeast later member)
      · next notLeast =>
        have greater : first.1 < name := lt_of_le_of_ne (not_lt.mp notLeast) (Ne.symm different)
        refine List.pairwise_cons.mpr ⟨fun later member => ?_, inductionHypothesis restOrdered⟩
        rcases (mem_insertEntry_iff restOrdered).mp member with rfl | ⟨held, -⟩
        · exact greater
        · exact firstLeast later held

/-- After one more addition it is the last of its name, and the others are as they were. -/
theorem isLast_append_iff : IsLast (additions ++ [addition]) entry ↔
    entry = addition ∨ IsLast additions entry ∧ entry.1 ≠ addition.1 := by
  constructor
  · rintro ⟨before, after, whole, fresh⟩
    rcases List.eq_nil_or_concat after with rfl | ⟨after, last, rfl⟩
    · exact .inl (List.append_inj_right' whole rfl |> List.singleton_inj.mp).symm
    · rw [List.concat_eq_append, ← List.cons_append, ← List.append_assoc] at whole
      obtain ⟨rfl, same⟩ := List.append_inj' whole rfl
      obtain rfl := List.singleton_inj.mp same
      rw [List.concat_eq_append, List.forall_mem_append, List.forall_mem_singleton] at fresh
      exact .inr ⟨⟨before, after, rfl, fresh.1⟩, fresh.2.symm⟩
  · rintro (rfl | ⟨⟨before, after, rfl, fresh⟩, different⟩)
    · exact ⟨additions, [], rfl, by simp⟩
    · refine ⟨before, after ++ [addition], by simp, ?_⟩
      rw [List.forall_mem_append, List.forall_mem_singleton]
      exact ⟨fresh, different.symm⟩

/-- A group that holds the last additions still does so after one more. -/
theorem Collects.insert (collects : group.Collects additions) (name version : String) :
    (group.insert name version).Collects (additions ++ [(name, version)]) where
  ordered := isOrdered_insertEntry collects.ordered name version
  holds entry := by
    rw [DependencyGroup.insert, mem_insertEntry_iff collects.ordered, collects.holds,
      isLast_append_iff]

/-! ## All additions -/

/-- Entries that are put together in order make a group of the last additions. -/
theorem collects_ofEntries (additions : List (String × String)) :
    (ofEntries additions).Collects additions := by
  induction additions using List.reverseRecOn with
  | nil => exact ⟨.nil, fun entry => by simp [ofEntries, empty, IsLast]⟩
  | append_singleton front last inductionHypothesis =>
    rw [ofEntries, List.foldl_append, List.foldl_cons, List.foldl_nil]
    exact inductionHypothesis.insert last.1 last.2

/-- Only one group holds the last of some additions. -/
theorem Collects.unique (collects : group.Collects additions)
    (collectsToo : other.Collects additions) : group = other := by
  let before (left right : String × String) : Prop := left.1 < right.1
  have irreflexive : Std.Irrefl before := ⟨fun entry => lt_irrefl entry.1⟩
  have antisymmetric : Std.Antisymm before := ⟨fun _ _ less greater => absurd greater less.asymm⟩
  have sameEntries : group.entries = other.entries :=
    List.Pairwise.eq_of_mem_iff collects.ordered collectsToo.ordered fun entry =>
      (collects.holds entry).trans (collectsToo.holds entry).symm
  cases group
  cases other
  exact congrArg _ sameEntries

/-- If no name is repeated, every addition is the last of its name. -/
theorem isLast_iff_mem (distinct : (additions.map Prod.fst).Nodup) :
    IsLast additions entry ↔ entry ∈ additions := by
  constructor
  · rintro ⟨before, after, rfl, -⟩
    simp
  · intro member
    obtain ⟨before, after, rfl⟩ := List.append_of_mem member
    refine ⟨before, after, rfl, fun later inside same => ?_⟩
    rw [List.map_append, List.map_cons] at distinct
    refine (List.nodup_cons.mp (List.nodup_append.mp distinct).2.1).1 ?_
    exact same ▸ List.mem_map_of_mem inside

/-- The order of additions does not matter if no name is repeated. -/
theorem ofEntries_eq_of_perm {others : List (String × String)}
    (distinct : (additions.map Prod.fst).Nodup) (order : additions.Perm others) :
    ofEntries additions = ofEntries others := by
  have distinctOthers := (order.map Prod.fst).nodup_iff.mp distinct
  have collects := collects_ofEntries others
  refine (collects_ofEntries additions).unique ⟨collects.ordered, fun entry => ?_⟩
  rw [collects.holds, isLast_iff_mem distinctOthers, isLast_iff_mem distinct, order.mem_iff]

/-- Ordered entries are the group that they make. -/
theorem ofEntries_of_isOrdered (ordered : IsOrdered entries) : ofEntries entries = ⟨entries⟩ := by
  have distinct : (entries.map Prod.fst).Nodup :=
    List.pairwise_map.mpr (ordered.imp fun less => less.ne)
  exact (collects_ofEntries entries).unique ⟨ordered, fun entry => (isLast_iff_mem distinct).symm⟩

end ElmWorkbench.DependencyGroup
