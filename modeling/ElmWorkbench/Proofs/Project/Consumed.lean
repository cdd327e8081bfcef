import ElmWorkbench.Proofs.Json.Rearrangement
import ElmWorkbench.Proofs.Project.Group
import ElmWorkbench.Project.Manifest
import Mathlib.Tactic.FinCases
/-!
# What a manifest is read for

A manifest depends on the tree of its text alone (`Manifest.parse_eq_ok_iff`), and of the tree on
what stands under the keys that it is read for. Its text may have any blanks, its objects may have
their entries in any order, and further entries with any values may stand among those of the manifest
and of its groups of dependencies (`Manifest.parse_of_varies`). Their keys have to be texts, as those
of all entries.
-/

namespace ElmWorkbench.Manifest

open Json

/-! ## Manifests as trees -/

/-- A group of dependencies. -/
def group? (tree : Tree) : Option DependencyGroup :=
  (tree.entriesOf? Tree.text?).map DependencyGroup.ofEntries

/-- A group is read as what its tree stands for. -/
theorem decodes_readGroup : Decodes readGroup group? :=
  (decodes_textFor "a string").entriesOf.map DependencyGroup.ofEntries

/-- The slot of direct dependencies. -/
def directSlot : Slot GroupsDraft where
  field := groupsShape.fields[0]
  Value := DependencyGroup
  decode := group?
  kept := GroupsDraft.direct
  fill draft direct := { draft with direct := some direct }
  isFilled _ := rfl
  decodes _ := decodes_readGroup.tell_pure _

/-- The slot of indirect dependencies. -/
def indirectSlot : Slot GroupsDraft where
  field := groupsShape.fields[1]
  Value := DependencyGroup
  decode := group?
  kept := GroupsDraft.indirect
  fill draft indirect := { draft with indirect := some indirect }
  isFilled _ := rfl
  decodes _ := decodes_readGroup.tell_pure _

/-- The slots of direct and indirect dependencies. -/
def groupSlots : List (Slot GroupsDraft) :=
  [directSlot, indirectSlot]

/-- Direct and indirect dependencies. -/
def groups? : Tree → Option (DependencyGroup × DependencyGroup) :=
  record? groupsShape groupSlots

/-- Groups are read as what their tree stands for. -/
theorem decodes_groups : Decodes (Reader.record .direct groupsShape) groups? :=
  decodes_record rfl

/-- The slot of the source directories. -/
def sourceDirectoriesSlot : Slot Draft where
  field := shape.fields[0]
  Value := List Path
  decode := Tree.listOf? fun tree => tree.text?.map Path.ofString
  kept := Draft.sourceDirectories
  fill draft directories := { draft with sourceDirectories := some directories }
  isFilled _ := rfl
  decodes _ := decodes_path.listOf.tell_pure _

/-- The slot of the version, which may be `null`. -/
def elmVersionSlot : Slot Draft where
  field := shape.fields[1]
  Value := Option String
  decode := Tree.optional? Tree.text?
  kept := Draft.elmVersion
  fill draft version := { draft with elmVersion := some version }
  isFilled _ := rfl
  decodes _ := (decodes_textFor "a string").optional.tell_pure _

/-- The slot of the dependencies of the program. -/
def dependenciesSlot : Slot Draft where
  field := shape.fields[2]
  Value := DependencyGroup × DependencyGroup
  decode := groups?
  kept := Draft.dependencies
  fill draft groups := { draft with dependencies := some groups }
  isFilled _ := rfl
  decodes _ := decodes_groups.tell_pure _

/-- The slot of those of its tests. -/
def testDependenciesSlot : Slot Draft where
  field := shape.fields[3]
  Value := DependencyGroup × DependencyGroup
  decode := groups?
  kept := Draft.testDependencies
  fill draft groups := { draft with testDependencies := some groups }
  isFilled _ := rfl
  decodes _ := decodes_groups.tell_pure _

/-- The slots of a manifest. -/
def slots : List (Slot Draft) :=
  [sourceDirectoriesSlot, elmVersionSlot, dependenciesSlot, testDependenciesSlot]

/-- The manifest that a tree stands for. -/
def ofTree? : Tree → Option Manifest :=
  record? shape slots

/-- A manifest is read as what its tree stands for. -/
theorem decodes_manifest : Decodes (Reader.record .direct shape) ofTree? :=
  decodes_record rfl

/-- What a text is parsed as depends on its tree alone. -/
theorem parse_eq_ok_iff {path : Path} {content : String} {tree : Tree}
    (spells : tree.Spells (Utf8.encode content)) {manifest : Manifest} :
    parse path content = .ok manifest ↔ ofTree? tree = some manifest := by
  rw [← decodes_manifest.toOption_runWhole spells, parse]
  cases Reader.runWhole (Reader.record .direct shape) (Utf8.encode content) <;>
    simp [Except.toOption]

/-! ## The order of entries -/

/-- The order of entries plays no part in a group. -/
theorem orderFree_group? : OrderFree group? :=
  orderFree_text?.entriesOf fun _ _ distinct order =>
    DependencyGroup.ofEntries_eq_of_perm distinct order

/-- The keys of both groups are different. -/
theorem apart_groupSlots : groupSlots.Pairwise Slot.IsApart := by
  refine List.pairwise_pair.mpr ⟨?_, ?_, ?_⟩ <;> intros <;> rfl

/-- The order of entries plays no part in the groups. -/
theorem orderFree_groups? : OrderFree groups? :=
  OrderFree.record apart_groupSlots
    (List.forall_mem_cons.mpr ⟨orderFree_group?,
      List.forall_mem_singleton.mpr orderFree_group?⟩)

/-- The keys of a manifest are different. -/
theorem apart_slots : slots.Pairwise Slot.IsApart := by
  simp only [slots, List.pairwise_cons, List.forall_mem_cons, List.not_mem_nil, IsEmpty.forall_iff,
    implies_true, and_true, List.Pairwise.nil]
  refine ⟨⟨?_, ?_, ?_⟩, ⟨?_, ?_⟩, ?_⟩ <;>
    exact ⟨fun _ _ => rfl, fun _ _ => rfl, fun _ _ _ => rfl⟩

/-- The order of entries plays no part in anything that a manifest holds. -/
theorem orderFree_slots : ∀ slot ∈ slots, OrderFree slot.decode :=
  List.forall_mem_cons.mpr ⟨OrderFree.listOf (OrderFree.map orderFree_text? Path.ofString),
    List.forall_mem_cons.mpr ⟨OrderFree.optional orderFree_text?,
      List.forall_mem_cons.mpr ⟨orderFree_groups?,
        List.forall_mem_singleton.mpr orderFree_groups?⟩⟩⟩

/-! ## What may vary -/

/-- The keys that a manifest is read for. -/
def consumedKeys : List String :=
  shape.fields.map Field.name

/-- The keys that its dependencies, and those of its tests, are read for. -/
def consumedGroupKeys : List String :=
  groupsShape.fields.map Field.name

/-- How what stands under a key may vary: entries are rearranged, and further ones may join those of
dependencies. -/
inductive ValueVaries (key : Quotation) (value variant : Tree) : Prop where
  | rearranged (rearranged : value.Rearranged variant)
  | dependencies (named : key.text? = some "dependencies" ∨ key.text? = some "test-dependencies")
      (extended : value.Extended consumedGroupKeys (fun _ => Tree.Rearranged) variant)

/-- How a manifest may vary: its entries are rearranged and further ones join them, or a version
that is `null` is dropped or added. -/
inductive Varies : Tree → Tree → Prop where
  | extended {tree variant : Tree} (extended : tree.Extended consumedKeys ValueVaries variant) :
      Varies tree variant
  | versionDropped {front back : List (Quotation × Tree)} {key : Quotation}
      (named : key.text? = some "elm-version") :
      Varies (.object (front ++ (key, .null) :: back)) (.object (front ++ back))
  | versionAdded {front back : List (Quotation × Tree)} {key : Quotation}
      (named : key.text? = some "elm-version")
      (absent : ∀ entry ∈ front ++ back, entry.1.text? ≠ some "elm-version") :
      Varies (.object (front ++ back)) (.object (front ++ (key, .null) :: back))

/-- A version that is `null` may as well be missing. -/
theorem ofTree?_versionDropped {front back : List (Quotation × Tree)} {key : Quotation}
    (named : key.text? = some "elm-version")
    (distinct : (Tree.object (front ++ (key, .null) :: back)).IsDistinct) :
    ofTree? (.object (front ++ (key, .null) :: back)) = ofTree? (.object (front ++ back)) := by
  have found : slots.find? (fun slot => slot.field.name = "elm-version") = some elmVersionSlot := by
    rfl
  have decoded : elmVersionSlot.decode .null = some none := rfl
  refine record?_without apart_slots found named decoded rfl (fun draft absent => ?_) distinct
  have noVersion : draft.elmVersion = none := absent
  simp only [shape, elmVersionSlot, noVersion, Option.getD_some, Option.getD_none]

/-- Further entries and another order play no part in the groups. -/
theorem groups?_extended {tree variant : Tree} (distinct : tree.IsDistinct)
    (extended : tree.Extended consumedGroupKeys (fun _ => Tree.Rearranged) variant) :
    groups? tree = groups? variant :=
  record?_eq_of_extended apart_groupSlots distinct extended
    fun {_ _ _} valueDistinct rearranged slot member _ => by
      have free : OrderFree slot.decode := by
        fin_cases member <;> exact orderFree_group?
      exact free valueDistinct rearranged

/-- What stands under a key is decoded alike however it varies. -/
theorem ValueVaries.decode_eq {key : Quotation} {value variant : Tree}
    (varies : ValueVaries key value variant) (distinct : value.IsDistinct) {slot : Slot Draft}
    (member : slot ∈ slots) (named : key.text? = some slot.field.name) :
    slot.decode value = slot.decode variant := by
  cases varies with
  | rearranged rearranged => exact orderFree_slots slot member distinct rearranged
  | dependencies isGroups extended =>
    have readAs : slot.field.name = "dependencies" ∨ slot.field.name = "test-dependencies" := by
      simpa [named] using isGroups
    fin_cases member
    · exact absurd readAs (by decide : ¬(shape.fields[0].name = _ ∨ shape.fields[0].name = _))
    · exact absurd readAs (by decide : ¬(shape.fields[1].name = _ ∨ shape.fields[1].name = _))
    · exact groups?_extended distinct extended
    · exact groups?_extended distinct extended

/-- A manifest is decoded alike from trees that differ in what it is not read for. -/
theorem Varies.ofTree?_eq {tree variant : Tree} (varies : Varies tree variant)
    (distinct : tree.IsDistinct) : ofTree? tree = ofTree? variant := by
  cases varies with
  | extended extended =>
    exact record?_eq_of_extended apart_slots distinct extended
      fun {_ _ _} valueDistinct varies slot member named =>
        varies.decode_eq valueDistinct member named
  | versionDropped named => exact ofTree?_versionDropped named distinct
  | versionAdded named absent =>
    exact (ofTree?_versionDropped named (distinct.insert (.single trivial) named absent)).symm

/-- Only what a manifest is read for matters: a text of a tree that varies says the same. -/
theorem parse_of_varies {path : Path} {content varied : String} {tree variant : Tree}
    {manifest : Manifest} (spells : tree.Spells (Utf8.encode content)) (distinct : tree.IsDistinct)
    (accepted : parse path content = .ok manifest) (varies : Varies tree variant)
    (spellsVaried : variant.Spells (Utf8.encode varied)) : parse path varied = .ok manifest := by
  rw [parse_eq_ok_iff spellsVaried, ← varies.ofTree?_eq distinct]
  exact (parse_eq_ok_iff spells).mp accepted

/-! ## A manifest in several forms -/

/-- The quotation of a text whose bytes stand for themselves. -/
def quoted (text : String) : Quotation where
  pieces := (Utf8.encode text).filterMap fun byte =>
    if itself : IsPlain byte then some (.plain byte itself) else none

/-- A quotation of bytes that stand for themselves has their text. -/
theorem text?_quoted {text : String} (plain : ∀ byte ∈ Utf8.encode text, IsPlain byte) :
    (quoted text).text? = some text := by
  have unescaped (bytes : Bytes) (plain : ∀ byte ∈ bytes, IsPlain byte) :
      unescape? none (bytes.filterMap fun byte =>
        if itself : IsPlain byte then some (.plain byte itself) else none) = some bytes := by
    induction bytes with
    | nil => rfl
    | cons byte others inductionHypothesis =>
      obtain ⟨here, later⟩ := List.forall_mem_cons.mp plain
      rw [List.filterMap_cons, dif_pos here, unescape?, inductionHypothesis later]
      rfl
  rw [Quotation.text?, quoted, unescaped _ plain, Option.bind_some, Utf8.decode?_encode]

/-- The texts of the keys below. -/
def keyTexts : List String :=
  ["source-directories", "dependencies", "test-dependencies", "direct", "indirect",
    "type", "note"]

/-- The keys below have their texts. -/
theorem text?_key {text : String} (member : text ∈ keyTexts) : (quoted text).text? = some text := by
  have plain : ∀ text ∈ keyTexts, (Utf8.encode text).all fun byte => IsPlain byte := by
    decide +kernel
  exact text?_quoted fun byte => of_decide_eq_true ∘ List.all_eq_true.mp (plain text member) byte

/-- Different keys are spelled apart. -/
theorem isApart_keys {text other : String} (member : text ∈ keyTexts)
    (memberOther : other ∈ keyTexts) (different : text ≠ other) :
    (quoted text).IsApart (quoted other) := by
  intro name isText isOther
  rw [text?_key member, Option.some.injEq] at isText
  rw [text?_key memberOther, Option.some.injEq] at isOther
  exact different (isText.trans isOther.symm)

/-- The first half of a surrogate pair, which alone stands for no text. -/
def unpaired : Quotation where
  pieces := [.code 0x64 0x38 0x30 0x30 0xD800 (by decide)]

/-- A number beyond any that is read. -/
def huge : Numeral where
  isNegative := true
  whole := ⟨[0x31], by decide, by simp [isDigit]⟩
  fraction := none
  exponent := some
    ⟨0x65, [], ⟨[0x39, 0x39, 0x39], by decide, by simp [isDigit]⟩, .inl rfl, .inl rfl⟩
  proper := fun _ => rfl

/-- Groups of dependencies, of which the indirect one is empty. -/
def groupsTree (direct : Tree) : Tree :=
  .object [(quoted "direct", direct), (quoted "indirect", .object [])]

/-- A package that a program depends on. -/
def coreTree : Tree :=
  groupsTree (.object [(quoted "elm/core", .text (quoted "1.0.5"))])

/-- The entries of a manifest that says nothing but what it must. -/
def bareEntries : List (Quotation × Tree) :=
  [(quoted "source-directories", .list [.text (quoted "src")]), (quoted "dependencies", coreTree),
    (quoted "test-dependencies", groupsTree (.object []))]

/-- Their text, which stands in braces. -/
def bareInside : String :=
  "\"source-directories\":[\"src\"],"
    ++ "\"dependencies\":\x7b\"direct\":\x7b\"elm/core\":\"1.0.5\"\x7d,\"indirect\":\x7b\x7d\x7d,"
    ++ "\"test-dependencies\":\x7b\"direct\":\x7b\x7d,\"indirect\":\x7b\x7d\x7d"

def bareText : String :=
  "\x7b" ++ bareInside ++ "\x7d"

/-- What it says. -/
def bareManifest : Manifest where
  sourceDirectories := [.ofString "src"]
  direct := DependencyGroup.ofEntries [("elm/core", "1.0.5")]
  indirect := DependencyGroup.ofEntries []
  testDirect := DependencyGroup.ofEntries []
  testIndirect := DependencyGroup.ofEntries []
  elmVersion := none

/-- The bare entries are spelled by the bare text. -/
theorem spells_bareText : (Tree.object bareEntries).Spells (Utf8.encode bareText) := by
  refine ⟨_, [], spaced_flatMap isBlank_nil (Tree.object bareEntries).tokens, isBlank_nil, ?_⟩
  delta bareText bareInside
  simp only [Utf8.encode_append]
  decide +kernel

/-- No key stands twice among the bare entries. -/
theorem isDistinct_bare : (Tree.object bareEntries).IsDistinct := by
  have empty : (Tree.object []).IsDistinct := .object .nil (List.forall_mem_nil _)
  have groups {direct : Tree} (distinct : direct.IsDistinct) : (groupsTree direct).IsDistinct :=
    .object (List.pairwise_pair.mpr
        (isApart_keys (by simp [keyTexts]) (by simp [keyTexts]) (by simp)))
      (List.forall_mem_cons.mpr ⟨distinct, List.forall_mem_singleton.mpr empty⟩)
  refine .object ?_ (List.forall_mem_cons.mpr ⟨?_, List.forall_mem_cons.mpr ⟨groups ?_,
    List.forall_mem_singleton.mpr (groups empty)⟩⟩)
  · simp only [bareEntries, List.map_cons, List.map_nil, List.pairwise_cons, List.forall_mem_cons,
      List.not_mem_nil, IsEmpty.forall_iff, implies_true, and_true, List.Pairwise.nil]
    refine ⟨⟨?_, ?_⟩, ?_⟩ <;>
      exact isApart_keys (by simp [keyTexts]) (by simp [keyTexts]) (by simp)
  · exact .list (List.forall_mem_singleton.mpr (.single trivial))
  · exact .object (List.pairwise_singleton _ _) (List.forall_mem_singleton.mpr (.single trivial))

/-- The bare text says what the bare manifest holds. -/
theorem parse_bareText (path : Path) : parse path bareText = .ok bareManifest := by
  rw [parse_eq_ok_iff spells_bareText]
  decide +kernel

/-- Empty groups in the other order and behind a further entry. -/
def notedGroups : Tree :=
  .object [(quoted "note", .boolean true), (quoted "indirect", .object []),
    (quoted "direct", .object [])]

/-- The entries with that one among those of the dependencies of tests. -/
def notedEntries : List (Quotation × Tree) :=
  [(quoted "source-directories", .list [.text (quoted "src")]), (quoted "dependencies", coreTree),
    (quoted "test-dependencies", notedGroups)]

/-- A number out of all range and halves of surrogate pairs. -/
def oddTree : Tree :=
  .list [.number huge, .text unpaired, .object [(unpaired, .null)]]

/-- These entries in the other order, behind one that is odd. -/
def looseEntries : List (Quotation × Tree) :=
  [(quoted "type", oddTree), (quoted "test-dependencies", notedGroups),
    (quoted "dependencies", coreTree), (quoted "source-directories", .list [.text (quoted "src")])]

def looseText : String :=
  " \x7b \"type\" : [ -1e999 , \"\\ud800\" , \x7b \"\\ud800\" : null \x7d ] ,"
    ++ " \"test-dependencies\" : \x7b \"note\" : true , \"indirect\" : \x7b \x7d ,"
    ++ " \"direct\" : \x7b \x7d \x7d ,"
    ++ " \"dependencies\" : \x7b \"direct\" : \x7b \"elm/core\" : \"1.0.5\" \x7d ,"
    ++ " \"indirect\" : \x7b \x7d \x7d , \"source-directories\" : [ \"src\" ] \x7d"

/-- The loose entries are spelled by the loose text. -/
theorem spells_looseText : (Tree.object looseEntries).Spells (Utf8.encode looseText) := by
  refine ⟨_, [], @spaced_flatMap [0x20] (by decide) (Tree.object looseEntries).tokens,
    isBlank_nil, ?_⟩
  delta looseText
  simp only [Utf8.encode_append]
  decide +kernel

/-- The loose entries are a variant of the bare ones. -/
theorem varies_loose : Varies (.object bareEntries) (.object looseEntries) := by
  have noted : (groupsTree (.object [])).Extended consumedGroupKeys (fun _ => Tree.Rearranged)
      notedGroups := by
    refine @Tree.Extended.object _ _ _ _ [(quoted "note", .boolean true)] _ rfl
      (fun pair => ?_) (List.forall_mem_singleton.mpr
        ⟨"note", text?_key (by simp [keyTexts]), by decide⟩) (List.reverse_perm _).symm
    obtain ⟨rfl, -⟩ := eq_of_mem_zip_self pair
    exact .refl _
  have tests : ValueVaries (quoted "test-dependencies") (groupsTree (.object [])) notedGroups :=
    .dependencies (.inr (text?_key (by simp [keyTexts]))) noted
  have each : ∀ pair ∈ bareEntries.zip notedEntries, ValueVaries pair.1.1 pair.1.2 pair.2.2 :=
    List.forall_mem_cons.mpr ⟨.rearranged (.refl _),
      List.forall_mem_cons.mpr ⟨.rearranged (.refl _), List.forall_mem_singleton.mpr tests⟩⟩
  exact .extended (@Tree.Extended.object _ _ _ notedEntries [(quoted "type", oddTree)] _ rfl
    (fun pair => each _ pair) (List.forall_mem_singleton.mpr
      ⟨"type", text?_key (by simp [keyTexts]), by decide⟩) (List.reverse_perm _).symm)

/-- The loose text says what the bare one does. -/
theorem parse_looseText : parse (.ofString "/p/elm.json") looseText = .ok bareManifest :=
  parse_of_varies spells_bareText isDistinct_bare (parse_bareText _) varies_loose spells_looseText

/-- The bare text behind half of a surrogate pair. -/
def unpairedText : String :=
  "\x7b\"\\ud800\":null," ++ bareInside ++ "\x7d"

/-- The bare entries behind half of a surrogate pair are spelled by their text. -/
theorem spells_unpairedText :
    (Tree.object ((unpaired, .null) :: bareEntries)).Spells (Utf8.encode unpairedText) := by
  refine ⟨_, [], spaced_flatMap isBlank_nil (Tree.object _).tokens, isBlank_nil, ?_⟩
  delta unpairedText bareInside
  simp only [Utf8.encode_append]
  decide +kernel

/-- A further key that stands for no text is not stepped over. -/
theorem parse_unpairedText_ne :
    (Tree.object bareEntries).Spells (Utf8.encode bareText) ∧
      (Tree.object bareEntries).IsDistinct ∧
      parse (.ofString "/p/elm.json") bareText = .ok bareManifest ∧ unpaired.text? = none ∧
      (Tree.object ((unpaired, .null) :: bareEntries)).Spells (Utf8.encode unpairedText) ∧
      ∀ manifest, parse (.ofString "/p/elm.json") unpairedText ≠ .ok manifest := by
  have noText : unpaired.text? = none := rfl
  have refused : ofTree? (.object ((unpaired, .null) :: bareEntries)) = none := by
    rw [ofTree?, record?, List.foldlM_cons, enter?, noText]
    rfl
  refine ⟨spells_bareText, isDistinct_bare, parse_bareText _, noText, spells_unpairedText,
    fun manifest accepted => ?_⟩
  rw [(parse_eq_ok_iff spells_unpairedText).mp accepted] at refused
  cases refused

end ElmWorkbench.Manifest
