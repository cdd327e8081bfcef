import ElmWorkbench.Project.Manifest
import ElmWorkbench.Proofs.Json.Message
import ElmWorkbench.Proofs.Project.Group
import ElmWorkbench.Sample.Manifest
/-!
# Manifests of sample projects are read back

The text of a sample manifest has its keys in order, which sorts each group of dependencies as
reading it does (`SampleManifest.sorted_toValue`). What is read from the text is what the sample was
built from (`SampleManifest.parse_text`).
-/

namespace ElmWorkbench

open Json (Passes Reader Takes Value reads_fieldAfter)

/-! ## Sorted keys -/

section Sorting

variable {key first : String} {value held : Value} {rest : List (String × Value)}

theorem insertEntry_nil (key : String) (value : Value) :
    Json.insertEntry key value [] = [(key, value)] := rfl

/-- An entry with a lesser key is put in front. -/
theorem insertEntry_least (least : key < first) :
    Json.insertEntry key value ((first, held) :: rest) = (key, value) :: (first, held) :: rest := by
  rw [Json.insertEntry, if_neg least.ne, if_pos least]

/-- An entry with a greater key is put in behind the first one. -/
theorem insertEntry_greater (greater : first < key) :
    Json.insertEntry key value ((first, held) :: rest) =
      (first, held) :: Json.insertEntry key value rest := by
  rw [Json.insertEntry, if_neg greater.ne', if_neg greater.asymm]

end Sorting

/-- A name and a version as an entry of an object. -/
def textEntry (entry : String × String) : String × Value :=
  (entry.1, .text entry.2)

/-- A version is put into an object where it is put into a group. -/
theorem insertEntry_textEntry (name version : String) (entries : List (String × String)) :
    Json.insertEntry name (.text version) (entries.map textEntry) =
      (DependencyGroup.insertEntry name version entries).map textEntry := by
  induction entries with
  | nil => rfl
  | cons first rest inductionHypothesis =>
    rw [List.map_cons, textEntry, Json.insertEntry, DependencyGroup.insertEntry,
      inductionHypothesis]
    split
    · rfl
    · split <;> rfl

/-- To sort the members of a group leaves their versions as they are. -/
theorem sortedMembers_textEntry (entries : List (String × String)) :
    Json.sortedMembers (entries.map textEntry) = entries.map textEntry := by
  induction entries with
  | nil => rfl
  | cons first rest inductionHypothesis =>
    rw [List.map_cons, textEntry, Json.sortedMembers, inductionHypothesis]
    rfl

/-- Sorting the entries of an object adds them to a group one after the other. -/
theorem sortEntries_textEntry (additions : List (String × String)) :
    Json.sortEntries (additions.map textEntry) =
      (DependencyGroup.ofEntries additions).entries.map textEntry := by
  rw [Json.sortEntries, List.foldl_map, DependencyGroup.ofEntries]
  induction additions using List.reverseRecOn with
  | nil => rfl
  | append_singleton front last inductionHypothesis =>
    rw [List.foldl_append, List.foldl_append, inductionHypothesis]
    exact insertEntry_textEntry last.1 last.2 _

/-- A group as an object. -/
def DependencyGroup.toValue (group : DependencyGroup) : Value :=
  .object (group.entries.map textEntry)

/-- A group is read back from its object. -/
theorem DependencyGroup.takes_toValue {group : DependencyGroup}
    (ordered : IsOrdered group.entries) : Takes Manifest.readGroup group.toValue group := by
  have members : List.Forall₂ (fun entry known => entry.1 = known.1 ∧
      Takes Reader.text entry.2 known.2) (group.entries.map textEntry) group.entries := by
    rw [List.forall₂_map_left_iff, List.forall₂_same]
    exact fun entry _ => ⟨rfl, .text "a string" entry.2⟩
  have taken := (Takes.entriesOf members).map DependencyGroup.ofEntries
  rwa [ofEntries_of_isOrdered ordered] at taken

namespace SampleManifest

variable (manifest : SampleManifest)

/-- The names and versions that are added to a group, in their order. -/
def additions (role : DependencyRole) : List (String × String) :=
  manifest.dependencies.filterMap fun (held, addition) =>
    if held = role then some addition else none

/-- The group that additions make. -/
def collected (role : DependencyRole) : DependencyGroup :=
  .ofEntries (manifest.additions role)

/-- A group is the object of its additions. -/
theorem group_eq (role : DependencyRole) :
    manifest.group role = .object ((manifest.additions role).map textEntry) := by
  rw [group, additions, List.map_filterMap]
  congr 2
  funext ⟨held, name, version⟩
  by_cases same : held = role <;> simp [same, textEntry]

/-- A group whose keys are sorted is the one that its additions make. -/
theorem sorted_group (role : DependencyRole) :
    (manifest.group role).sorted = (manifest.collected role).toValue := by
  rw [group_eq, Value.sorted, sortedMembers_textEntry, sortEntries_textEntry]
  rfl

/-- The object of two groups. -/
def groupsValue (directRole indirectRole : DependencyRole) : Value :=
  .object [("direct", (manifest.collected directRole).toValue),
    ("indirect", (manifest.collected indirectRole).toValue)]

/-- Two groups whose keys are sorted are those that their additions make. -/
theorem sorted_groups (directRole indirectRole : DependencyRole) :
    (manifest.groups directRole indirectRole).sorted =
      manifest.groupsValue directRole indirectRole := by
  rw [groups, Value.sorted, Json.sortedMembers, Json.sortedMembers, Json.sortedMembers,
    sorted_group, sorted_group]
  simp (disch := decide) only [Json.sortEntries, List.foldl_cons, List.foldl_nil,
    insertEntry_nil, insertEntry_greater, groupsValue]

/-- The object of a manifest with its keys in order. -/
def sortedEntries : List (String × Value) :=
  [("dependencies", manifest.groupsValue .direct .indirect)]
    ++ (manifest.elmVersion.toList.map fun version => ("elm-version", .text version))
    ++ [("source-directories", .list (manifest.sourceDirectories.map .text)),
      ("test-dependencies", manifest.groupsValue .testDirect .testIndirect),
      ("type", .text "application")]

/-- To sort the elements of a list of texts leaves them as they are. -/
theorem sortedElements_text (texts : List String) :
    Json.sortedElements (texts.map .text) = texts.map .text := by
  induction texts with
  | nil => rfl
  | cons first rest inductionHypothesis =>
    rw [List.map_cons, Json.sortedElements, inductionHypothesis]
    rfl

/-- The object of a manifest is printed with its keys in order. -/
theorem sorted_toValue : manifest.toValue.sorted = .object manifest.sortedEntries := by
  have directories := sortedElements_text manifest.sourceDirectories
  have own := manifest.sorted_groups .direct .indirect
  have tests := manifest.sorted_groups .testDirect .testIndirect
  cases version : manifest.elmVersion with
  | none =>
    simp only [toValue, version, sortedEntries, Option.toList_none, List.map_nil, List.append_nil,
      Value.sorted, Json.sortedMembers, directories, own, tests]
    simp (disch := decide) only [Json.sortEntries, List.foldl_cons, List.foldl_nil,
      insertEntry_nil, insertEntry_least, insertEntry_greater]
    rfl
  | some version =>
    simp only [toValue, version, sortedEntries, Option.toList_some, List.map_cons, List.map_nil,
      List.cons_append, List.nil_append, Value.sorted, Json.sortedMembers, directories, own, tests]
    simp (disch := decide) only [Json.sortEntries, List.foldl_cons, List.foldl_nil,
      insertEntry_nil, insertEntry_least, insertEntry_greater]

/-! ## Reading -/

/-- A group is read back as its additions make it. -/
theorem takes_group (role : DependencyRole) :
    Takes Manifest.readGroup (manifest.collected role).toValue (manifest.collected role) :=
  DependencyGroup.takes_toValue (DependencyGroup.collects_ofEntries _).ordered

/-- Two groups are read back as their additions make them. -/
theorem takes_groups (directRole indirectRole : DependencyRole) :
    Takes (Reader.record .direct Manifest.groupsShape)
      (manifest.groupsValue directRole indirectRole)
      (manifest.collected directRole, manifest.collected indirectRole) := by
  let filled : Manifest.GroupsDraft :=
    ⟨some (manifest.collected directRole), some (manifest.collected indirectRole)⟩
  have indirect : Passes (Reader.fieldAfter Manifest.groupsShape.fields)
      { filled with indirect := none }
      [("indirect", (manifest.collected indirectRole).toValue)] filled :=
    .entry (reads_fieldAfter rfl rfl
      ((manifest.takes_group indirectRole).tell fun rest => Reader.reads_pure _ rest)) .done
  have direct : Passes (Reader.fieldAfter Manifest.groupsShape.fields)
      Manifest.groupsShape.empty
      [("direct", (manifest.collected directRole).toValue),
        ("indirect", (manifest.collected indirectRole).toValue)] filled :=
    .entry (reads_fieldAfter rfl rfl
      ((manifest.takes_group directRole).tell fun rest => Reader.reads_pure _ rest)) indirect
  exact direct.takes_record rfl rfl

/-- What is read from the text of the manifest. -/
def readBack : Manifest where
  sourceDirectories := manifest.sourceDirectories.map Path.ofString
  direct := manifest.collected .direct
  indirect := manifest.collected .indirect
  testDirect := manifest.collected .testDirect
  testIndirect := manifest.collected .testIndirect
  elmVersion := manifest.elmVersion

/-- The source directories are read back as paths. -/
theorem takes_directories : Takes (Reader.listOf Reader.path)
    (.list (manifest.sourceDirectories.map .text))
    (manifest.sourceDirectories.map Path.ofString) := by
  refine .listOf ?_
  rw [List.forall₂_map_left_iff, List.forall₂_map_right_iff, List.forall₂_same]
  exact fun directory _ => (Takes.text "path string" directory).map Path.ofString

/-- The object of a manifest is read back. -/
theorem takes_sortedEntries :
    Takes (Reader.record .direct Manifest.shape) (.object manifest.sortedEntries)
      manifest.readBack := by
  let filled : Manifest.Draft :=
    ⟨some manifest.readBack.sourceDirectories, manifest.elmVersion.map some,
      some (manifest.collected .direct, manifest.collected .indirect),
      some (manifest.collected .testDirect, manifest.collected .testIndirect)⟩
  have built : Manifest.shape.build filled = .ok manifest.readBack := by
    simp only [filled, readBack]
    cases manifest.elmVersion <;> rfl
  have kind : Passes (Reader.fieldAfter Manifest.shape.fields) filled
      [("type", .text "application")] filled :=
    .entry (Json.reads_fieldAfter_unnamed rfl trivial) .done
  have tests : Passes (Reader.fieldAfter Manifest.shape.fields)
      { filled with testDependencies := none }
      [("test-dependencies", manifest.groupsValue .testDirect .testIndirect),
        ("type", .text "application")] filled :=
    .entry (reads_fieldAfter rfl rfl ((manifest.takes_groups .testDirect .testIndirect).tell
      fun rest => Reader.reads_pure _ rest)) kind
  have directories : Passes (Reader.fieldAfter Manifest.shape.fields)
      { filled with sourceDirectories := none, testDependencies := none }
      [("source-directories", .list (manifest.sourceDirectories.map .text)),
        ("test-dependencies", manifest.groupsValue .testDirect .testIndirect),
        ("type", .text "application")] filled :=
    .entry (reads_fieldAfter rfl rfl (manifest.takes_directories.tell
      fun rest => Reader.reads_pure _ rest)) tests
  have version : Passes (Reader.fieldAfter Manifest.shape.fields)
      { Manifest.shape.empty with
        dependencies := some (manifest.collected .direct, manifest.collected .indirect) }
      ((manifest.elmVersion.toList.map fun version => ("elm-version", .text version))
        ++ [("source-directories", .list (manifest.sourceDirectories.map .text)),
          ("test-dependencies", manifest.groupsValue .testDirect .testIndirect),
          ("type", .text "application")]) filled := by
    cases set : manifest.elmVersion with
    | none =>
      simp only [filled, set] at directories ⊢
      exact directories
    | some version =>
      simp only [filled, set] at directories ⊢
      exact .entry (reads_fieldAfter rfl rfl (((Takes.text "a string" version).quoted rfl).tell
        fun rest => Reader.reads_pure _ rest)) directories
  have dependencies : Passes (Reader.fieldAfter Manifest.shape.fields) Manifest.shape.empty
      manifest.sortedEntries filled :=
    .entry (reads_fieldAfter rfl rfl ((manifest.takes_groups .direct .indirect).tell
      fun rest => Reader.reads_pure _ rest)) version
  exact dependencies.takes_record built rfl

/-- Groups hold no path. -/
theorem not_holds_groupsValue (directRole indirectRole : DependencyRole) (path : Path) :
    ¬ (manifest.groupsValue directRole indirectRole).Holds path := by
  simp [groupsValue, DependencyGroup.toValue, textEntry]

/-- A manifest is made of texts, so all of it can be written. -/
theorem not_holds_sortedEntries (path : Path) :
    ¬ (Value.object manifest.sortedEntries).Holds path := by
  have dependencies := manifest.not_holds_groupsValue .direct .indirect path
  have tests := manifest.not_holds_groupsValue .testDirect .testIndirect path
  cases version : manifest.elmVersion <;>
    simp [sortedEntries, version, dependencies, tests]

/-- The text of a manifest spells its object with the keys in order. -/
theorem spells_text : (Value.object manifest.sortedEntries).Spells (Utf8.encode manifest.text) := by
  have complete : ((Value.object manifest.sortedEntries).write (.lines 0)).complete :=
    (Value.write_complete_iff (.lines 0) _).mpr fun path holds =>
      absurd holds (manifest.not_holds_sortedEntries path)
  refine ⟨_, [], Value.spaced_write (.lines 0) complete, Json.isBlank_nil, ?_⟩
  rw [text, sorted_toValue, Utf8.encode, String.toList_ofList, List.append_nil]
  rfl

/-- The text of the manifest of a sample project is read back: the source directories in their
order, in each group the last version that was added of each name, and the version of the compiler
if there is one. -/
theorem parse_text (path : Path) :
    ∃ read, Manifest.parse path manifest.text = .ok read ∧
      read.sourceDirectories = manifest.sourceDirectories.map Path.ofString ∧
      read.direct.Collects (manifest.additions .direct) ∧
      read.indirect.Collects (manifest.additions .indirect) ∧
      read.testDirect.Collects (manifest.additions .testDirect) ∧
      read.testIndirect.Collects (manifest.additions .testIndirect) ∧
      read.elmVersion = manifest.elmVersion := by
  refine ⟨manifest.readBack, ?_, rfl, DependencyGroup.collects_ofEntries _,
    DependencyGroup.collects_ofEntries _, DependencyGroup.collects_ofEntries _,
    DependencyGroup.collects_ofEntries _, rfl⟩
  rw [Manifest.parse, manifest.takes_sortedEntries.runWhole manifest.spells_text]

end SampleManifest

end ElmWorkbench
