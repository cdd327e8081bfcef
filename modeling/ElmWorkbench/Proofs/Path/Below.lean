import ElmWorkbench.Project.Selection
import ElmWorkbench.Proofs.Path
import Mathlib.Data.List.Lex
/-!
# Paths below a directory

Joining the name of an entry to a path adds one component (`Path.components_join`), so the path
that goes through some names below a directory has the components of the directory and then
these names (`Path.components_below`). From such a path the names, its last name and its parent
are read off again. A relative path that leads only down goes through names as well, and joined
to a directory it is the path through them (`Path.LeadsDown.same_below`).
-/

namespace ElmWorkbench.Path

/-- The names that entries of a directory have. -/
structure IsEntryName (name : Bytes) : Prop extends IsName name where
  cut : separator ∉ name

instance (name : Bytes) : Decidable (IsEntryName name) :=
  decidable_of_iff (isVoid name = false ∧ name ≠ dotDot ∧ separator ∉ name)
    ⟨fun ⟨notVoid, notUp, cut⟩ => ⟨⟨notVoid, notUp⟩, cut⟩,
      fun entry => ⟨entry.notVoid, entry.notUp, entry.cut⟩⟩

/-- The path that goes through names below a directory. -/
def below (directory : Path) (names : List Bytes) : Path :=
  names.foldl (fun path name => path.join ⟨name⟩) directory

@[simp] theorem below_nil (directory : Path) : directory.below [] = directory := rfl

@[simp] theorem below_cons (directory : Path) (name : Bytes) (names : List Bytes) :
    directory.below (name :: names) = (directory.join ⟨name⟩).below names := rfl

/-- The path through some names and one more is the entry of that name at the end of them. -/
theorem below_concat (directory : Path) (names : List Bytes) (name : Bytes) :
    directory.below (names ++ [name]) = (directory.below names).join ⟨name⟩ := by
  rw [below, List.foldl_append]
  rfl

/-! ## Components -/

/-- Parts without meaning give no component, wherever they stand. -/
theorem components_eq (path : Path) :
    path.components = path.split.1.toList ++ path.parts.filterMap componentOf? := by
  have opening (component : Option Component) :
      (openingParts component).filterMap componentOf? = [] := by
    unfold openingParts
    split <;> rfl
  rw [components, parts_eq, List.filterMap_append, opening]
  rfl

/-- Parts that stand for nothing have no components. -/
theorem filterMap_void {void : List Bytes} (meaningless : ∀ part ∈ void, isVoid part) :
    void.filterMap componentOf? = [] := by
  rw [List.filterMap_eq_nil_iff]
  intro part member
  rw [componentOf?, if_pos (meaningless part member)]

section Names

variable {directory : Path} {name : Bytes} {names : List Bytes}

/-- The name of an entry is not empty. -/
theorem IsEntryName.ne_nil (entry : IsEntryName name) : name ≠ [] := by
  rintro rfl
  cases entry.notVoid

/-- No entry has the name `.`. -/
theorem IsEntryName.ne_dot (entry : IsEntryName name) : name ≠ dot := by
  rintro rfl
  cases entry.notVoid

/-- The name of an entry is a component of its own. -/
theorem IsEntryName.componentOf?_eq (entry : IsEntryName name) :
    componentOf? name = some (.named name) := by
  rw [componentOf?, entry.notVoid, if_neg (by simp), if_neg entry.notUp]

/-- A name that is joined to a path does not change how it begins. -/
theorem split_fst_join (directory : Path) (entry : IsEntryName name) :
    (directory.join ⟨name⟩).split.1 = directory.split.1 := by
  obtain ⟨front, void, parts, empty, joined⟩ := exists_parts_join directory entry.cut
  have same : (directory.join ⟨name⟩).parts.head? = some dot ↔ directory.parts.head? = some dot := by
    rw [joined, parts]
    cases front with
    | cons first rest => simp
    | nil =>
      cases void with
      | nil => simp [entry.ne_dot]
      | cons first rest =>
        have nothing := empty first List.mem_cons_self
        simp [nothing, show name ≠ [0x2E] from entry.ne_dot, dot]
  rw [split_fst, split_fst, isAbsolute_join_name _ entry.cut]
  simp only [same]

/-- The name of an entry adds one component. -/
theorem components_join (directory : Path) (entry : IsEntryName name) :
    (directory.join ⟨name⟩).components = directory.components ++ [.named name] := by
  obtain ⟨front, void, parts, empty, joined⟩ := exists_parts_join directory entry.cut
  rw [components_eq, components_eq, split_fst_join directory entry, joined, parts,
    List.filterMap_append, List.filterMap_append, filterMap_void (isVoid_of_eq_nil empty),
    List.append_nil, ← List.append_assoc]
  simp [entry.componentOf?_eq]

/-- The components below a directory are those of the directory and the names. -/
theorem components_below (directory : Path) (entries : ∀ name ∈ names, IsEntryName name) :
    (directory.below names).components = directory.components ++ names.map .named := by
  induction names generalizing directory with
  | nil => simp
  | cons name others inductionHypothesis =>
    rw [List.forall_mem_cons] at entries
    rw [below_cons, inductionHypothesis _ entries.2, components_join directory entries.1]
    simp

/-- Components that are names are those names. -/
theorem namesOf?_map_named (names : List Bytes) : namesOf? (names.map .named) = some names := by
  induction names with
  | nil => rfl
  | cons name others inductionHypothesis => rw [List.map_cons, namesOf?, inductionHypothesis]; rfl

/-- The names below a directory are found again. -/
theorem namesBelow?_below (directory : Path) (entries : ∀ name ∈ names, IsEntryName name) :
    namesBelow? directory (directory.below names) = some names := by
  rw [namesBelow?, componentsBelow?, components_below directory entries,
    if_pos (by rw [List.isPrefixOf_iff_prefix]; exact List.prefix_append _ _), List.drop_left]
  exact namesOf?_map_named names

/-- The path of an entry ends with its name, behind the parts of its directory. -/
theorem exists_endsIn_join (directory : Path) (entry : IsEntryName name) :
    ∃ opening upper, (directory.join ⟨name⟩).EndsIn opening upper name ∧
      ∃ void, directory.parts = openingParts opening ++ upper ++ void ∧ ∀ part ∈ void, part = [] := by
  obtain ⟨front, void, parts, empty, joined⟩ := exists_parts_join directory entry.cut
  obtain ⟨opening, upper, ends, rfl⟩ := EndsIn.exists_of_parts joined entry.notVoid
  exact ⟨opening, upper, ends, void, parts, empty⟩

/-- The file name of an entry in a directory is its name. -/
theorem fileName?_join (directory : Path) (entry : IsEntryName name) :
    (directory.join ⟨name⟩).fileName? = some name := by
  obtain ⟨opening, upper, ends, -⟩ := exists_endsIn_join directory entry
  rw [ends.fileName?_eq, if_neg entry.notUp]

/-- The parent of a path begins as the path does. -/
theorem EndsIn.split_fst_parent {path : Path} {opening : Option Component} {upper : List Bytes}
    {last : Bytes} (ends : path.EndsIn opening upper last) :
    (assemble opening (trimParts upper)).split.1 = opening := by
  obtain ⟨void, parts, empty⟩ := ends.parts_parent
  obtain ⟨between, whole, -⟩ := exists_void upper
  have own : opening = if path.isAbsolute then some .root
      else if (openingParts opening ++ upper ++ [last]).head? = some dot then some .here
      else none := by
    rw [← ends.parts_eq, ← path.split_fst, ends.split]
  rw [Path.split_fst, ends.isAbsolute_parent, parts]
  by_cases absolute : path.isAbsolute
  · rw [if_pos absolute] at own ⊢
    exact own.symm
  · rw [if_neg absolute] at own ⊢
    by_cases dotted : (openingParts opening ++ upper ++ [last]).head? = some dot
    · rw [if_pos dotted] at own
      subst own
      simp [openingParts]
    · rw [if_neg dotted] at own
      subst own
      rw [if_neg]
      intro headed
      cases kept : trimParts upper with
      | nil =>
        rw [kept] at headed
        have first := List.mem_of_head? (headed : void.head? = some dot)
        exact absurd (empty dot first) (by decide)
      | cons first rest =>
        rw [whole, kept] at dotted
        rw [kept] at headed
        exact dotted headed

/-- The parent of a path below a directory is the directory, perhaps written differently. -/
theorem exists_parent_join (directory : Path) (entry : IsEntryName name) :
    ∃ parent, (directory.join ⟨name⟩).parent? = some parent ∧
      parent.components = directory.components := by
  obtain ⟨opening, upper, ends, void, parts, empty⟩ := exists_endsIn_join directory entry
  refine ⟨_, ends.parent?_eq, ?_⟩
  obtain ⟨further, parentParts, furtherEmpty⟩ := ends.parts_parent
  obtain ⟨between, whole, meaningless⟩ := exists_void upper
  have opened : opening = directory.split.1 := by
    rw [← split_fst_join directory entry, ends.split]
  have sameMeaning : upper.filterMap componentOf? = (trimParts upper).filterMap componentOf? := by
    have parted := congrArg (List.filterMap componentOf?) whole
    rwa [List.filterMap_append, filterMap_void meaningless, List.append_nil] at parted
  rw [components_eq, components_eq, ends.split_fst_parent, ← opened, parentParts, parts]
  simp only [List.filterMap_append, filterMap_void (isVoid_of_eq_nil empty),
    filterMap_void (isVoid_of_eq_nil furtherEmpty), sameMeaning]

/-- The path of an entry begins with that of its directory. -/
theorem bytes_prefix_join (directory : Path) (cut : separator ∉ name) :
    directory.bytes <+: (directory.join ⟨name⟩).bytes := by
  rw [join, if_neg (by simp [isAbsolute_of_cut cut])]
  split <;> exact List.prefix_append _ _

/-- The path of an entry is longer than that of its directory. -/
theorem length_lt_join (directory : Path) (entry : IsEntryName name) :
    directory.bytes.length < (directory.join ⟨name⟩).bytes.length := by
  have filled := List.length_pos_of_ne_nil entry.ne_nil
  rw [join, if_neg (by simp [isAbsolute_of_cut entry.cut])]
  split
  · simp only [List.length_append]
    omega
  · simp only [List.length_append, List.length_cons]
    omega

/-- A path below a directory is absolute just if that of the directory is. -/
theorem isAbsolute_below (directory : Path) (entries : ∀ part ∈ names, IsEntryName part) :
    (directory.below names).isAbsolute = directory.isAbsolute := by
  induction names generalizing directory with
  | nil => rfl
  | cons name others inductionHypothesis =>
    rw [List.forall_mem_cons] at entries
    rw [below_cons, inductionHypothesis _ entries.2, isAbsolute_join_name _ entries.1.cut]

end Names

/-! ## Paths that lead down -/

/-- A path that leads only down, through these names; it may begin with `.`. -/
def LeadsDown (path : Path) (names : List Bytes) : Prop :=
  path.components = names.map .named ∨ path.components = .here :: names.map .named

section Down

variable {path : Path} {names : List Bytes}

/-- Components without `.` are names if each of them is one. -/
theorem namesOf?_eq_some_iff {components : List Component} (noHere : .here ∉ components) :
    namesOf? components = some names ↔ components = names.map .named := by
  constructor
  · intro found
    induction components generalizing names with
    | nil =>
      cases found
      rfl
    | cons first rest inductionHypothesis =>
      rw [List.mem_cons, not_or] at noHere
      cases first with
      | named name =>
        obtain ⟨others, foundOthers, rfl⟩ := Option.map_eq_some_iff.mp found
        rw [inductionHypothesis noHere.2 foundOthers, List.map_cons]
      | here => exact absurd rfl noHere.1
      | up => cases found
      | root => cases found
  · rintro rfl
    exact namesOf?_map_named names

/-- Inside of a path `.` is no component. -/
theorem here_not_mem_filterMap (parts : List Bytes) : .here ∉ parts.filterMap componentOf? := by
  intro member
  obtain ⟨part, -, meaning⟩ := List.mem_filterMap.mp member
  unfold componentOf? at meaning
  split at meaning
  · cases meaning
  · split at meaning <;> cases meaning

/-- A path leads down if it is relative and each part with a meaning is a name. -/
theorem leadsDown_iff : path.LeadsDown names ↔
    path.isAbsolute = false ∧ path.parts.filterMap componentOf? = names.map .named := by
  rw [LeadsDown, components_eq, split_fst]
  have noHere := here_not_mem_filterMap path.parts
  generalize path.parts.filterMap componentOf? = components at noHere ⊢
  have begins {opening : Component} (noName : ∀ name, opening ≠ .named name) :
      opening :: components ≠ names.map .named := by
    cases names <;> simp [noName]
  split
  · next absolute => simp [absolute, begins]
  · next relative =>
    split
    · simp [relative, begins]
    · have notHere : components ≠ .here :: names.map .named := by
        rintro rfl
        exact noHere List.mem_cons_self
      simp [relative, notHere]

/-- A path has names if it leads down. -/
theorem names?_eq_some_iff : path.names? = some names ↔ path.LeadsDown names := by
  rw [leadsDown_iff, names?, components_eq, split_fst]
  have meaning : namesOf? (path.parts.filterMap componentOf?) = some names ↔
      path.parts.filterMap componentOf? = names.map .named :=
    namesOf?_eq_some_iff (here_not_mem_filterMap path.parts)
  split
  · next absolute => simp [absolute, namesOf?]
  · next relative => split <;> simp [relative, namesOf?, meaning]

/-- A path that leads down does so by names of entries. -/
theorem LeadsDown.isEntryName (down : path.LeadsDown names) : ∀ name ∈ names, IsEntryName name := by
  intro name member
  have named : .named name ∈ path.parts.filterMap componentOf? := by
    rw [(leadsDown_iff.mp down).2]
    exact List.mem_map_of_mem member
  obtain ⟨part, isPart, meaning⟩ := List.mem_filterMap.mp named
  unfold componentOf? at meaning
  split at meaning
  · cases meaning
  · next notVoid =>
    split at meaning
    · cases meaning
    · next notUp =>
      cases meaning
      exact ⟨⟨by simpa using notVoid, notUp⟩, separator_not_mem isPart⟩

/-- A path that leads down and is joined to a directory is the same as the path through its
names below the directory. -/
theorem LeadsDown.same_below {directory : Path} (down : path.LeadsDown names)
    (filled : directory.bytes ≠ []) : (directory.join path).same (directory.below names) := by
  obtain ⟨relative, meaning⟩ := leadsDown_iff.mp down
  obtain ⟨front, void, parts, empty, nonempty, joined⟩ := directory.exists_front
  obtain ⟨first, rest, rfl⟩ := List.exists_cons_of_ne_nil (nonempty filled)
  rw [same, decide_eq_true_iff, components_below directory down.isEntryName, components_eq,
    components_eq, split_fst, split_fst, isAbsolute_join relative, joined path relative, parts,
    List.filterMap_append, List.filterMap_append, filterMap_void (isVoid_of_eq_nil empty), meaning]
  simp

end Down

/-! ## The order of paths -/

/-- Names come behind every other component. -/
def Component.rank : Component → Nat
  | .root => 0
  | .here => 1
  | .up => 2
  | .named _ => 3

/-- Names are ordered by their bytes. -/
def Component.Before : Component → Component → Prop
  | .named left, .named right => left < right
  | left, right => left.rank < right.rank

/-- Paths are ordered component by component. -/
def Before (left right : Path) : Prop :=
  List.Lex Component.Before left.components right.components

/-- No component comes before itself. -/
theorem Component.not_before_self (component : Component) : ¬ component.Before component := by
  cases component with
  | named name => exact List.lt_irrefl name
  | root => exact Nat.lt_irrefl 0
  | here => exact Nat.lt_irrefl 1
  | up => exact Nat.lt_irrefl 2

/-- A path that comes before another one has other components. -/
theorem Before.not_same {left right : Path} (before : left.Before right) : ¬ left.same right := by
  rw [same, decide_eq_true_iff]
  exact List.Lex.to_ne (List.Lex.imp (fun first second less (same : first = second) =>
    first.not_before_self (same ▸ less)) _ _ before)

/-- A path that comes before another one is a different one. -/
theorem Before.ne {left right : Path} (before : left.Before right) : left ≠ right := by
  rintro rfl
  exact before.not_same (decide_eq_true rfl)

/-- Below one directory, the first names in which paths differ order them. -/
theorem before_below {left right : Bytes} {lefts rights : List Bytes} (directory : Path)
    (entries : ∀ name ∈ left :: lefts, IsEntryName name)
    (otherEntries : ∀ name ∈ right :: rights, IsEntryName name) (less : left < right) :
    (directory.below (left :: lefts)).Before (directory.below (right :: rights)) := by
  rw [Before, components_below directory entries, components_below directory otherEntries]
  have before : Component.Before (.named left) (.named right) := less
  exact List.Lex.append_left _ (.rel before) _

end ElmWorkbench.Path
