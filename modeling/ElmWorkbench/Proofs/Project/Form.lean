import ElmWorkbench.Proofs.Json.Part
import ElmWorkbench.Proofs.Json.Structure
import ElmWorkbench.Proofs.Project.Consumed
/-!
# Which texts are manifests

A text is parsed if it is spelled by the tree of a manifest, and it is malformed otherwise
(`Manifest.parse_accepts_manifests_only`). Such a tree is an object with the required keys, each of
them once, and with values of the right kinds; but a list of the same values, without any key, is
taken as well, and so it is for the groups of dependencies
(`Manifest.parse_listedText_without_keys`).
-/

namespace ElmWorkbench.Manifest

open Json

/-! ## Forms of trees -/

/-- A list of texts. -/
def IsTextList (tree : Tree) : Prop :=
  ∃ elements, tree = .list elements ∧ ∀ element ∈ elements, element.IsText

/-- An object of texts under texts. -/
def IsGroup (tree : Tree) : Prop :=
  ∃ entries, tree = .object entries ∧ ∀ entry ∈ entries, entry.1.IsText ∧ entry.2.IsText

/-- The word `null` or a text. -/
def IsVersion (tree : Tree) : Prop :=
  tree = .null ∨ tree.IsText

/-- Groups of direct and of indirect dependencies: an object with both of them under their names, or
a list of both. -/
inductive IsGroups : Tree → Prop where
  | object {entries : List (Quotation × Tree)} (keys : ∀ entry ∈ entries, entry.1.IsText)
      (direct : HoldsOnce IsGroup "direct" entries)
      (indirect : HoldsOnce IsGroup "indirect" entries) : IsGroups (.object entries)
  | list {direct indirect : Tree} (isDirect : IsGroup direct) (isIndirect : IsGroup indirect) :
      IsGroups (.list [direct, indirect])

/-- A manifest: an object with the parts that it must have under their names, or a list of all
parts. -/
inductive IsManifest : Tree → Prop where
  | object {entries : List (Quotation × Tree)} (keys : ∀ entry ∈ entries, entry.1.IsText)
      (directories : HoldsOnce IsTextList "source-directories" entries)
      (version : under "elm-version" entries = [] ∨ HoldsOnce IsVersion "elm-version" entries)
      (dependencies : HoldsOnce IsGroups "dependencies" entries)
      (tests : HoldsOnce IsGroups "test-dependencies" entries) : IsManifest (.object entries)
  | list {directories version dependencies tests : Tree} (areDirectories : IsTextList directories)
      (isVersion : IsVersion version) (areDependencies : IsGroups dependencies)
      (areTests : IsGroups tests) : IsManifest (.list [directories, version, dependencies, tests])

/-! ## Trees that are decoded -/

/-- A tree stands for a group just if it has the form of one. -/
theorem isSome_group?_iff {tree : Tree} : (group? tree).isSome ↔ IsGroup tree := by
  rw [group?, Option.isSome_map, isSome_entriesOf?_iff]
  rfl

/-- Groups are made of direct and of indirect dependencies, and need both. -/
theorem areNeeded_groupSlots : AreNeeded groupsShape groupSlots :=
  .pair Prod.mk (fun _ => rfl) (by decide) (List.pairwise_pair.mp apart_groupSlots)
    ⟨fun _ _ => rfl, rfl, rfl⟩ ⟨fun _ _ => rfl, rfl, rfl⟩

/-- A tree stands for the groups just if it has their form. -/
theorem isSome_groups?_iff {tree : Tree} : (groups? tree).isSome ↔ IsGroups tree := by
  cases tree with
  | object entries =>
    have direct := @Slot.isHeld_iff_of_needed _ directSlot entries IsGroup rfl
      fun _ => isSome_group?_iff
    have indirect := @Slot.isHeld_iff_of_needed _ indirectSlot entries IsGroup rfl
      fun _ => isSome_group?_iff
    rw [groups?, areNeeded_groupSlots.isSome_record?_object areNeeded_groupSlots.builds
      areNeeded_groupSlots.empty, groupSlots, List.forall_mem_cons, List.forall_mem_singleton,
      direct, indirect]
    constructor
    · rintro ⟨keys, direct, indirect⟩
      exact .object keys direct indirect
    · rintro ⟨keys, direct, indirect⟩
      exact ⟨keys, direct, indirect⟩
  | list elements =>
    rw [groups?, areNeeded_groupSlots.isSome_record?_list areNeeded_groupSlots.builds
      fun slot isLast => areNeeded_groupSlots.needed slot (List.mem_of_getLast? isLast), groupSlots]
    constructor
    · rintro (_ | ⟨direct, _ | ⟨indirect, _ | _⟩⟩)
      exact .list (isSome_group?_iff.mp direct) (isSome_group?_iff.mp indirect)
    · rintro (_ | ⟨direct, indirect⟩)
      exact .cons (isSome_group?_iff.mpr direct) (.cons (isSome_group?_iff.mpr indirect) .nil)
  | _ =>
    refine iff_of_false Bool.false_ne_true ?_
    rintro ⟨⟩

/-- The slots of a manifest are apart from each other. -/
theorem separate_slots : AreSeparate slots where
  apart := apart_slots
  once := by
    simp [slots, sourceDirectoriesSlot, elmVersionSlot, dependenciesSlot, testDependenciesSlot,
      shape]
  keeps := by
    simp only [slots, List.forall_mem_cons]
    exact ⟨fun _ _ => rfl, fun _ _ => rfl, fun _ _ => rfl, fun _ _ => rfl, List.forall_mem_nil _⟩

/-- The shape of a manifest is built from its slots. -/
theorem builds_manifest : Builds shape slots := by
  rintro ⟨directories, version, dependencies, tests⟩
  cases directories <;> cases dependencies <;> cases tests <;>
    simp [shape, slots, sourceDirectoriesSlot, elmVersionSlot, dependenciesSlot,
      testDependenciesSlot, Json.required]

/-- Source directories are a list of texts. -/
theorem accepts_sourceDirectories_iff (tree : Tree) :
    sourceDirectoriesSlot.Accepts tree ↔ IsTextList tree := by
  rw [Slot.Accepts, sourceDirectoriesSlot, isSome_listOf?_iff]
  simp only [Option.isSome_map]
  rfl

/-- A version is a text or `null`. -/
theorem accepts_elmVersion_iff (tree : Tree) : elmVersionSlot.Accepts tree ↔ IsVersion tree :=
  isSome_optional?_iff

/-- The dependencies of a program are groups. -/
theorem accepts_dependencies_iff (tree : Tree) : dependenciesSlot.Accepts tree ↔ IsGroups tree :=
  isSome_groups?_iff

/-- The dependencies of its tests are groups. -/
theorem accepts_testDependencies_iff (tree : Tree) :
    testDependenciesSlot.Accepts tree ↔ IsGroups tree :=
  isSome_groups?_iff

/-- A tree stands for a manifest just if it has the form of one. -/
theorem isSome_ofTree?_iff {tree : Tree} : (ofTree? tree).isSome ↔ IsManifest tree := by
  cases tree with
  | object entries =>
    have directories := @Slot.isHeld_iff_of_needed _ _ entries _ rfl accepts_sourceDirectories_iff
    have version := @Slot.isHeld_iff_of_optional _ _ entries _ rfl accepts_elmVersion_iff
    have dependencies := @Slot.isHeld_iff_of_needed _ _ entries _ rfl accepts_dependencies_iff
    have tests := @Slot.isHeld_iff_of_needed _ _ entries _ rfl accepts_testDependencies_iff
    have empty : ∀ slot ∈ slots, slot.kept shape.empty = none := by
      simp only [slots, List.forall_mem_cons]
      exact ⟨rfl, rfl, rfl, rfl, List.forall_mem_nil _⟩
    rw [ofTree?, separate_slots.isSome_record?_object builds_manifest empty]
    simp only [slots, List.forall_mem_cons, directories, version, dependencies, tests]
    constructor
    · rintro ⟨keys, directories, version, dependencies, tests, -⟩
      exact .object keys directories version dependencies tests
    · rintro ⟨keys, directories, version, dependencies, tests⟩
      exact ⟨keys, directories, version, dependencies, tests, List.forall_mem_nil _⟩
  | list elements =>
    have needed : ∀ slot ∈ slots.getLast?, slot.field.isOptional = false := by
      rintro _ ⟨⟩
      rfl
    rw [ofTree?, separate_slots.isSome_record?_list builds_manifest needed, slots]
    constructor
    · rintro (_ | ⟨directories, _ | ⟨version, _ | ⟨dependencies, _ | ⟨tests, _ | _⟩⟩⟩⟩)
      exact .list ((accepts_sourceDirectories_iff _).mp directories)
        ((accepts_elmVersion_iff _).mp version) ((accepts_dependencies_iff _).mp dependencies)
        ((accepts_testDependencies_iff _).mp tests)
    · rintro (_ | ⟨directories, version, dependencies, tests⟩)
      exact .cons ((accepts_sourceDirectories_iff _).mpr directories)
        (.cons ((accepts_elmVersion_iff _).mpr version)
          (.cons ((accepts_dependencies_iff _).mpr dependencies)
            (.cons ((accepts_testDependencies_iff _).mpr tests) .nil)))
  | _ =>
    refine iff_of_false Bool.false_ne_true ?_
    rintro ⟨⟩

/-! ## Texts that are parsed -/

/-- What is read as a group is a whole value. -/
theorem isValue_readGroup : readGroup.Crosses IsValue :=
  ((Reader.isValue_textFor "a string").entriesOf).map DependencyGroup.ofEntries

/-- What is read as groups is a whole value. -/
theorem isValue_groups : (Reader.record .direct groupsShape).Crosses IsValue := by
  refine Reader.isValue_record ?_
  simp only [groupsShape, List.forall_mem_cons]
  exact ⟨fun _ => isValue_readGroup.bind fun _ => Reader.crosses_pure _,
    fun _ => isValue_readGroup.bind fun _ => Reader.crosses_pure _, List.forall_mem_nil _⟩

/-- What is read as a manifest is a whole value. -/
theorem isValue_manifest : (Reader.record .direct shape).Crosses IsValue := by
  refine Reader.isValue_record ?_
  simp only [shape, List.forall_mem_cons]
  exact ⟨fun _ => Reader.isValue_path.listOf.bind fun _ => Reader.crosses_pure _,
    fun _ => (Reader.isValue_textFor "a string").optional.bind fun _ => Reader.crosses_pure _,
    fun _ => isValue_groups.bind fun _ => Reader.crosses_pure _,
    fun _ => isValue_groups.bind fun _ => Reader.crosses_pure _, List.forall_mem_nil _⟩

/-- A text that is parsed is spelled by the tree of a manifest. -/
theorem exists_form_of_parse {path : Path} {content : String} {manifest : Manifest}
    (parsed : parse path content = .ok manifest) :
    ∃ tree : Tree, tree.Spells (Utf8.encode content) ∧ IsManifest tree := by
  have read : Reader.runWhole (Reader.record .direct shape) (Utf8.encode content) =
      .ok manifest := by
    rw [parse] at parsed
    split at parsed
    · next read => rw [read, Except.ok.inj parsed]
    · cases parsed
  obtain ⟨tree, spells⟩ := Reader.exists_spells_of_runWhole isValue_manifest read
  have decoded := (parse_eq_ok_iff spells).mp parsed
  exact ⟨tree, spells, isSome_ofTree?_iff.mp (Option.isSome_of_mem decoded)⟩

/-- A text is parsed if the tree of a manifest spells it, and all other texts are malformed. -/
theorem parse_accepts_manifests_only (path : Path) (content : String) :
    (∃ tree : Tree, tree.Spells (Utf8.encode content) ∧ IsManifest tree) ∧
        (∃ manifest, parse path content = .ok manifest) ∨
      (¬ ∃ tree : Tree, tree.Spells (Utf8.encode content) ∧ IsManifest tree) ∧
        ∃ message, parse path content = .error (.manifestMalformed path message) := by
  cases parsed : parse path content with
  | ok manifest => exact .inl ⟨exists_form_of_parse parsed, manifest, rfl⟩
  | error error =>
    refine .inr ⟨?_, ?_⟩
    · rintro ⟨tree, spells, isManifest⟩
      obtain ⟨manifest, decoded⟩ := Option.isSome_iff_exists.mp (isSome_ofTree?_iff.mpr isManifest)
      cases parsed.symm.trans ((parse_eq_ok_iff spells).mpr decoded)
    · rw [parse] at parsed
      split at parsed
      · cases parsed
      · next failure _ => exact ⟨failure.message, by rw [Except.error.inj parsed]⟩

/-! ## A manifest without keys -/

/-- The tree of a manifest as a list, in which one of the groups is a list too. -/
def listedTree : Tree :=
  .list [.list [.text (quoted "src")], .null, .list [.object [], .object []],
    groupsTree (.object [])]

def listedText : String :=
  "[[\"src\"],null,[\x7b\x7d,\x7b\x7d],"
    ++ "\x7b\"direct\":\x7b\x7d,\"indirect\":\x7b\x7d\x7d]"

/-- What it says. -/
def listedManifest : Manifest where
  sourceDirectories := [.ofString "src"]
  direct := DependencyGroup.ofEntries []
  indirect := DependencyGroup.ofEntries []
  testDirect := DependencyGroup.ofEntries []
  testIndirect := DependencyGroup.ofEntries []
  elmVersion := none

/-- The manifest as a list is spelled by its text. -/
theorem spells_listedText : listedTree.Spells (Utf8.encode listedText) := by
  refine ⟨_, [], spaced_flatMap isBlank_nil listedTree.tokens, isBlank_nil, ?_⟩
  delta listedText
  simp only [Utf8.encode_append]
  decide +kernel

/-- An object begins with its brace, behind blanks. -/
theorem exists_head_of_spells_object {entries : List (Quotation × Tree)} {bytes : Bytes}
    (spells : (Tree.object entries).Spells bytes) :
    ∃ byte ∈ bytes.head?, isSpace byte ∨ byte = 0x7B := by
  obtain ⟨text, last, spaced, -, rfl⟩ := spells
  obtain ⟨gap, inner, closing, blank, -, -, rfl⟩ := exists_of_spaced_brackets spaced
  cases gap with
  | nil => exact ⟨0x7B, rfl, .inr rfl⟩
  | cons byte others => exact ⟨byte, rfl, .inl (blank byte List.mem_cons_self)⟩

/-- A list without any key is parsed. -/
theorem parse_listedText_without_keys :
    parse (.ofString "elm.json") listedText = .ok listedManifest ∧
      ∀ entries, ¬ (Tree.object entries).Spells (Utf8.encode listedText) := by
  constructor
  · rw [parse_eq_ok_iff spells_listedText]
    decide +kernel
  · intro entries spells
    obtain ⟨byte, isHead, opens⟩ := exists_head_of_spells_object spells
    have bracket : (Utf8.encode listedText).head? = some 0x5B := by
      delta listedText
      simp only [Utf8.encode_append]
      decide +kernel
    obtain rfl := Option.some.inj (bracket.symm.trans isHead)
    exact absurd opens (by decide)

end ElmWorkbench.Manifest
