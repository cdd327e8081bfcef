import ElmWorkbench.Proofs.Json.Slot
import Mathlib.Data.List.Nodup
import Mathlib.Data.List.Pairwise
import Mathlib.Data.List.Perm.Basic
/-!
# Trees that are decoded alike

The order in which the entries of an object stand does not matter to a decoder of records, because
its slots are kept apart from one another (`OrderFree.record`). Neither do entries that are no slots
(`record?_eq_of_extended`).
-/

namespace ElmWorkbench.Json

/-! ## Steps that may give up -/

section Lists

variable {Item State Value : Type} {items others arranged : List Item}

/-- Two steps that may change places. -/
def Commute (step : State → Item → Option State) (item other : Item) : Prop :=
  ∀ state, (step state item).bind (step · other) = (step state other).bind (step · item)

/-- The order of items does not matter to a fold whose steps commute. -/
theorem foldlM_perm {step : State → Item → Option State} (order : items.Perm arranged)
    (commute : items.Pairwise (Commute step)) (state : State) :
    items.foldlM step state = arranged.foldlM step state := by
  induction order generalizing state with
  | nil => rfl
  | cons item order inductionHypothesis =>
    simp only [List.foldlM_cons, inductionHypothesis (List.pairwise_cons.mp commute).2]
  | swap item other rest =>
    have places := (List.pairwise_cons.mp commute).1 item List.mem_cons_self state
    simp only [List.foldlM_cons, Option.bind_eq_bind, ← Option.bind_assoc, places]
  | trans first second inductionHypothesis inductionHypothesisNext =>
    have symmetric {item other : Item} (commute : Commute step item other) :
        Commute step other item := fun state => (commute state).symm
    exact (inductionHypothesis commute state).trans
      (inductionHypothesisNext ((first.pairwise_iff symmetric).mp commute) state)

/-- A fold depends on each item only by what the step does with it. -/
theorem foldlM_congr {step : State → Item → Option State} (same : items.length = others.length)
    (each : ∀ {item other}, (item, other) ∈ items.zip others → ∀ state,
      step state item = step state other) (state : State) :
    items.foldlM step state = others.foldlM step state := by
  have pairs := List.forall₂_iff_zip.mpr ⟨same, each⟩
  clear same each
  induction pairs generalizing state with
  | nil => rfl
  | cons here later inductionHypothesis =>
    simp only [List.foldlM_cons, here state, inductionHypothesis]

/-- Items that no step uses leave the state as it is. -/
theorem foldlM_idle {step : State → Item → Option State}
    (idle : ∀ item ∈ items, ∀ state, step state item = some state) (state : State) :
    items.foldlM step state = some state := by
  induction items with
  | nil => rfl
  | cons item others inductionHypothesis =>
    obtain ⟨here, later⟩ := List.forall_mem_cons.mp idle
    rw [List.foldlM_cons, here state]
    exact inductionHypothesis later

/-- What items are decoded as depends on each item alone. -/
theorem mapM_congr {decode : Item → Option Value} (same : items.length = others.length)
    (each : ∀ {item other}, (item, other) ∈ items.zip others → decode item = decode other) :
    items.mapM decode = others.mapM decode := by
  have pairs := List.forall₂_iff_zip.mpr ⟨same, each⟩
  clear same each
  induction pairs with
  | nil => rfl
  | cons here later inductionHypothesis => simp only [List.mapM_cons, here, inductionHypothesis]

/-- Items are decoded as values, each one as its own. -/
theorem mapM_eq_some_iff {decode : Item → Option Value} {values : List Value} :
    items.mapM decode = some values ↔
      List.Forall₂ (fun item value => decode item = some value) items values := by
  induction items generalizing values with
  | nil => simp [eq_comm]
  | cons item others inductionHypothesis =>
    simp only [List.mapM_cons, Option.bind_eq_bind, Option.bind_eq_some_iff, Option.pure_def,
      Option.some.injEq, inductionHypothesis, List.forall₂_cons_left_iff]
    constructor
    · rintro ⟨value, here, values, later, rfl⟩
      exact ⟨value, values, here, later, rfl⟩
    · rintro ⟨value, values, here, later, rfl⟩
      exact ⟨value, here, values, later, rfl⟩

/-- What is decoded from items in another order is the same in another order. -/
theorem exists_perm_of_mapM {decode : Item → Option Value} (order : items.Perm arranged)
    {values : List Value} (decoded : items.mapM decode = some values) :
    ∃ others, arranged.mapM decode = some others ∧ values.Perm others := by
  obtain ⟨others, decodedOthers, order⟩ :=
    List.perm_comp_forall₂ order.symm (mapM_eq_some_iff.mp decoded)
  exact ⟨others, mapM_eq_some_iff.mpr decodedOthers, order.symm⟩

end Lists

/-! ## Decoders to which the order does not matter -/

/-- The order of the entries of objects does not matter to a decoder. -/
def OrderFree {Meaning : Type} (decode : Tree → Option Meaning) : Prop :=
  ∀ {tree variant : Tree}, tree.IsDistinct → tree.Rearranged variant → decode tree = decode variant

section Decoders

variable {Meaning Result : Type} {decode : Tree → Option Meaning} {tree variant : Tree}
  {elements varied : List Tree} {entries others : List (Quotation × Tree)}

/-- In the elements of a list no key stands twice if none does in the list. -/
theorem Tree.IsDistinct.ofElements (distinct : (Tree.list elements).IsDistinct) :
    ∀ element ∈ elements, element.IsDistinct := by
  cases distinct with
  | single single => cases single
  | list each => exact each

/-- The keys of an object are different ones, and none stands twice in its values. -/
theorem Tree.IsDistinct.ofEntries (distinct : (Tree.object entries).IsDistinct) :
    (entries.map Prod.fst).Pairwise Quotation.IsApart ∧ ∀ entry ∈ entries, entry.2.IsDistinct := by
  cases distinct with
  | single single => cases single
  | object once each => exact ⟨once, each⟩

/-- Two keys are apart from each other. -/
theorem Quotation.IsApart.symm {key other : Quotation} (apart : key.IsApart other) :
    other.IsApart key :=
  fun name isText isKeyText => apart name isKeyText isText

/-- An entry under another key may stand among entries. -/
theorem Tree.IsDistinct.insert {front back : List (Quotation × Tree)} {key : Quotation}
    {value : Tree} {name : String} (distinct : (Tree.object (front ++ back)).IsDistinct)
    (valueDistinct : value.IsDistinct) (isText : key.text? = some name)
    (absent : ∀ entry ∈ front ++ back, entry.1.text? ≠ some name) :
    (Tree.object (front ++ (key, value) :: back)).IsDistinct := by
  obtain ⟨once, each⟩ := distinct.ofEntries
  have apart : ∀ entry ∈ front ++ back, key.IsApart entry.1 := by
    intro entry member text isKeyText
    rw [← isKeyText, isText]
    exact absent entry member
  refine .object (List.pairwise_map.mpr ?_) ?_
  · exact (List.pairwise_middle fun apart => apart.symm).mpr
      (List.pairwise_cons.mpr ⟨apart, List.pairwise_map.mp once⟩)
  · intro entry member
    rcases List.mem_append.mp member with before | behind
    · exact each entry (List.mem_append_left back before)
    · rcases List.mem_cons.mp behind with rfl | behind
      · exact valueDistinct
      · exact each entry (List.mem_append_right front behind)

/-- Entries in the same place have the same key. -/
theorem key_eq_of_mem_zip (keys : entries.map Prod.fst = others.map Prod.fst)
    {entry other : Quotation × Tree} (pair : (entry, other) ∈ entries.zip others) :
    entry.1 = other.1 := by
  induction entries generalizing others with
  | nil => cases pair
  | cons first rest inductionHypothesis =>
    cases others with
    | nil => cases pair
    | cons second more =>
      obtain ⟨here, later⟩ := List.cons_eq_cons.mp keys
      rcases List.mem_cons.mp pair with isFirst | inside
      · obtain ⟨rfl, rfl⟩ := Prod.ext_iff.mp isFirst
        exact here
      · exact inductionHypothesis later inside

/-- Objects with the same keys have as many entries. -/
theorem length_eq_of_keys (keys : entries.map Prod.fst = others.map Prod.fst) :
    entries.length = others.length := by
  have lengths := congrArg List.length keys
  rwa [List.length_map, List.length_map] at lengths

/-- In a list beside itself each item stands beside itself. -/
theorem eq_of_mem_zip_self {Item : Type} {items : List Item} {first second : Item}
    (pair : (first, second) ∈ items.zip items) : first = second ∧ first ∈ items := by
  rw [List.zip, List.zipWith_self, List.mem_map] at pair
  obtain ⟨item, member, same⟩ := pair
  obtain ⟨rfl, rfl⟩ := Prod.ext_iff.mp same
  exact ⟨rfl, member⟩

/-- A tree is an arrangement of itself. -/
theorem Tree.Rearranged.refl (tree : Tree) : tree.Rearranged tree := by
  induction tree using Tree.induction with
  | single tree single => exact .single single
  | list elements inductionHypothesis =>
    refine .list rfl fun pair => ?_
    obtain ⟨rfl, member⟩ := eq_of_mem_zip_self pair
    exact inductionHypothesis _ member
  | object entries inductionHypothesis =>
    refine .object rfl (fun pair => ?_) (.refl entries)
    obtain ⟨rfl, member⟩ := eq_of_mem_zip_self pair
    exact inductionHypothesis _ member

/-- The order of entries plays no part in a text. -/
theorem orderFree_text? : OrderFree Tree.text? := by
  intro tree variant _ rearranged
  cases rearranged <;> rfl

/-- The order plays no part in what is made of a value that is free of it. -/
theorem OrderFree.map (free : OrderFree decode) (change : Meaning → Result) :
    OrderFree fun tree => (decode tree).map change :=
  fun distinct rearranged => congrArg (Option.map change) (free distinct rearranged)

/-- The order plays no part in an optional value that is free of it. -/
theorem OrderFree.optional (free : OrderFree decode) : OrderFree (Tree.optional? decode) := by
  intro tree variant distinct rearranged
  cases rearranged with
  | single single => rfl
  | list same each => exact congrArg (Option.map some) (free distinct (.list same each))
  | object keys each order =>
    exact congrArg (Option.map some) (free distinct (.object keys each order))

/-- The order of entries plays no part in a list of values that are free of it. -/
theorem OrderFree.listOf (free : OrderFree decode) : OrderFree (Tree.listOf? decode) := by
  intro tree variant distinct rearranged
  cases rearranged with
  | single single => rfl
  | list same each =>
    exact mapM_congr same fun pair =>
      free (distinct.ofElements _ (List.of_mem_zip pair).1) (each pair)
  | object keys each order => rfl

/-- Names that are decoded from keys that are apart are apart. -/
theorem nodup_of_mapM_pairOf? {names : List (String × Meaning)}
    (once : (entries.map Prod.fst).Pairwise Quotation.IsApart)
    (decoded : entries.mapM (pairOf? decode) = some names) : (names.map Prod.fst).Nodup := by
  have texts : (entries.map Prod.fst).map Quotation.text? = (names.map Prod.fst).map some := by
    have pairs := mapM_eq_some_iff.mp decoded
    clear decoded once
    induction pairs with
    | nil => rfl
    | @cons entry named entries names here later inductionHypothesis =>
      obtain ⟨name, isText, decodedValue⟩ := Option.bind_eq_some_iff.mp here
      obtain ⟨value, -, made⟩ := Option.bind_eq_some_iff.mp decodedValue
      obtain rfl := Option.some.inj made
      simp only [List.map_cons, isText, inductionHypothesis]
  refine List.Nodup.of_map some ?_
  rw [← texts]
  refine List.pairwise_map.mpr (once.imp_of_mem fun {key other} isKey _ apart same => ?_)
  have isText : key.text? ∈ (names.map Prod.fst).map some := texts ▸ List.mem_map_of_mem isKey
  obtain ⟨name, -, means⟩ := List.mem_map.mp isText
  exact apart name means.symm (same ▸ means.symm)

/-- What is made of the entries of an object is the same, if their order does not matter to it. -/
theorem OrderFree.entriesOf (free : OrderFree decode) {change : List (String × Meaning) → Result}
    (same : ∀ names others, (names.map Prod.fst).Nodup → names.Perm others →
      change names = change others) :
    OrderFree fun tree => (Tree.entriesOf? decode tree).map change := by
  intro tree variant distinct rearranged
  cases rearranged with
  | single single => rfl
  | list same each => rfl
  | @object entries varied arranged keys each order =>
    obtain ⟨once, distinctEach⟩ := distinct.ofEntries
    have alike : entries.mapM (pairOf? decode) = varied.mapM (pairOf? decode) := by
      refine mapM_congr (length_eq_of_keys keys) fun {entry other} pair => ?_
      rw [pairOf?, pairOf?, key_eq_of_mem_zip keys pair,
        free (distinctEach _ (List.of_mem_zip pair).1) (each pair)]
    rw [keys] at once
    simp only [Tree.entriesOf?, alike]
    cases decoded : varied.mapM (pairOf? decode) with
    | some names =>
      obtain ⟨others, decodedOthers, places⟩ := exists_perm_of_mapM order decoded
      rw [decodedOthers, Option.map_some, Option.map_some,
        same names others (nodup_of_mapM_pairOf? once decoded) places]
    | none =>
      cases decodedOthers : arranged.mapM (pairOf? decode) with
      | none => rfl
      | some others =>
        obtain ⟨names, decodedNames, -⟩ := exists_perm_of_mapM order.symm decodedOthers
        cases decoded.symm.trans decodedNames

end Decoders

/-! ## Records -/

section Records

variable {Draft Value : Type} {shape : Shape Draft Value} {slots : List (Slot Draft)}
  {draft : Draft}

/-- Two slots that are kept in different places. -/
structure Slot.IsApart (slot other : Slot Draft) : Prop where
  kept : ∀ draft value, other.kept (slot.fill draft value) = other.kept draft
  keptOther : ∀ draft value, slot.kept (other.fill draft value) = slot.kept draft
  fill : ∀ draft value another,
    other.fill (slot.fill draft value) another = slot.fill (other.fill draft another) value

instance : Std.Symm (@Slot.IsApart Draft) where
  symm _ _ apart :=
    ⟨apart.keptOther, apart.kept, fun draft value another => (apart.fill draft another value).symm⟩

/-- Slots of different names are filled in either order. -/
theorem fillNamed?_comm (apart : slots.Pairwise Slot.IsApart) {name other : String}
    (different : name ≠ other) (draft : Draft) (value another : Tree) :
    (fillNamed? slots draft name value).bind (fillNamed? slots · other another) =
      (fillNamed? slots draft other another).bind (fillNamed? slots · name value) := by
  simp only [fillNamed?]
  cases found : slots.find? fun slot => slot.field.name = name with
  | none => simp
  | some slot =>
    cases foundOther : slots.find? fun slot => slot.field.name = other with
    | none => simp
    | some second =>
      have isNamed : slot.field.name = name := by simpa using List.find?_some found
      have isNamedOther : second.field.name = other := by simpa using List.find?_some foundOther
      have distinct : slot ≠ second := by
        rintro rfl
        exact different (isNamed.symm.trans isNamedOther)
      have independent := apart.forall (List.mem_of_find?_eq_some found)
        (List.mem_of_find?_eq_some foundOther) distinct
      dsimp only
      cases slot.decode value <;> cases second.decode another <;>
        by_cases kept : (slot.kept draft).isSome <;>
        by_cases keptOther : (second.kept draft).isSome <;>
        simp [kept, keptOther, independent.kept, independent.keptOther, independent.fill]

/-- Entries with keys that are apart may change places. -/
theorem commute_enter? (apart : slots.Pairwise Slot.IsApart) {entry other : Quotation × Tree}
    (different : entry.1.IsApart other.1) : Commute (enter? (fillNamed? slots)) entry other := by
  intro draft
  simp only [enter?]
  cases isText : entry.1.text? with
  | none => simp
  | some name =>
    cases isOtherText : other.1.text? with
    | none => simp
    | some otherName =>
      have distinct : name ≠ otherName := by
        rintro rfl
        exact different name isText isOtherText
      exact fillNamed?_comm apart distinct draft entry.2 other.2

/-- An entry that is no slot changes nothing. -/
theorem enter?_strange {entry : Quotation × Tree} {name : String}
    (isText : entry.1.text? = some name)
    (unknown : name ∉ slots.map fun slot => slot.field.name) (draft : Draft) :
    enter? (fillNamed? slots) draft entry = some draft := by
  have noPart : slots.find? (fun slot => slot.field.name = name) = none := by
    refine List.find?_eq_none.mpr fun slot member named => unknown ?_
    exact List.mem_map.mpr ⟨slot, member, by simpa using named⟩
  rw [enter?, isText, Option.bind_some, fillNamed?, noPart]

/-- An item that no step uses commutes with every other one. -/
theorem commute_of_idle {State Item : Type} {step : State → Item → Option State}
    {item other : Item}
    (idle : ∀ state, step state other = some state) : Commute step item other := by
  intro state
  simp [idle]

/-- Slots that are decoded alike are filled alike. -/
theorem enter?_congr {entry other : Quotation × Tree} (same : entry.1 = other.1)
    (alike : ∀ slot ∈ slots, entry.1.text? = some slot.field.name →
      slot.decode entry.2 = slot.decode other.2) (draft : Draft) :
    enter? (fillNamed? slots) draft entry = enter? (fillNamed? slots) draft other := by
  rw [enter?, enter?, ← same]
  cases isText : entry.1.text? with
  | none => rfl
  | some name =>
    simp only [Option.bind_some, fillNamed?]
    cases found : slots.find? fun slot => slot.field.name = name with
    | none => rfl
    | some slot =>
      have isNamed : slot.field.name = name := by simpa using List.find?_some found
      simp only [alike slot (List.mem_of_find?_eq_some found) (isText.trans (isNamed ▸ rfl))]

/-- A record is decoded alike from an object whose slots are decoded alike, in whatever order they
stand and whatever else stands among them. -/
theorem record?_eq_of_extended (apart : slots.Pairwise Slot.IsApart)
    {varies : Quotation → Tree → Tree → Prop} {tree variant : Tree} (distinct : tree.IsDistinct)
    (extended : tree.Extended (slots.map fun slot => slot.field.name) varies variant)
    (alike : ∀ {key value other}, value.IsDistinct → varies key value other →
      ∀ slot ∈ slots, key.text? = some slot.field.name → slot.decode value = slot.decode other) :
    record? shape slots tree = record? shape slots variant := by
  cases extended with
  | @object entries varied further arranged keys each strange order =>
    obtain ⟨once, distinctEach⟩ := distinct.ofEntries
    rw [keys] at once
    have alikeEach (draft : Draft) : entries.foldlM (enter? (fillNamed? slots)) draft =
        varied.foldlM (enter? (fillNamed? slots)) draft := by
      refine foldlM_congr (length_eq_of_keys keys) (fun {entry other} pair => ?_) draft
      exact enter?_congr (key_eq_of_mem_zip keys pair)
        (alike (distinctEach _ (List.of_mem_zip pair).1) (each pair))
    have idle : ∀ entry ∈ further, ∀ draft, enter? (fillNamed? slots) draft entry = some draft := by
      intro entry member
      obtain ⟨name, isText, unknown⟩ := strange entry member
      exact enter?_strange isText unknown
    have more (draft : Draft) : (varied ++ further).foldlM (enter? (fillNamed? slots)) draft =
        varied.foldlM (enter? (fillNamed? slots)) draft := by
      rw [List.foldlM_append]
      cases varied.foldlM (enter? (fillNamed? slots)) draft with
      | none => rfl
      | some filled => exact foldlM_idle idle filled
    have places : (varied ++ further).Pairwise (Commute (enter? (fillNamed? slots))) := by
      refine List.pairwise_append.mpr ⟨?_, ?_, fun entry _ other isFurther =>
        commute_of_idle (idle other isFurther)⟩
      · exact (List.pairwise_map.mp once).imp (commute_enter? apart)
      · exact List.pairwise_of_forall_mem_list fun entry _ other isFurther =>
          commute_of_idle (idle other isFurther)
    simp only [record?, alikeEach, ← more, foldlM_perm order places]

/-- What a list fills the slots with depends on what its elements are decoded as. -/
theorem fillInOrder?_congr (elements varied : List Tree) (same : elements.length = varied.length)
    (alike : ∀ {element other}, (element, other) ∈ elements.zip varied →
      ∀ slot ∈ slots, slot.decode element = slot.decode other) (draft : Draft) :
    fillInOrder? slots elements draft = fillInOrder? slots varied draft := by
  induction elements generalizing slots varied draft with
  | nil =>
    obtain rfl := List.eq_nil_of_length_eq_zero same.symm
    rfl
  | cons element others inductionHypothesis =>
    obtain ⟨other, more, rfl⟩ := List.exists_cons_of_length_eq_add_one same.symm
    cases slots with
    | nil => rfl
    | cons slot slots =>
      have further := inductionHypothesis more (Nat.succ.inj same) fun pair named member =>
        alike (List.mem_cons_of_mem _ pair) named (List.mem_cons_of_mem _ member)
      simp only [fillInOrder?, alike List.mem_cons_self slot List.mem_cons_self]
      exact congrArg _ (funext further)

/-- The order of entries does not matter to a record if it does not matter to its slots. -/
theorem OrderFree.record (apart : slots.Pairwise Slot.IsApart)
    (free : ∀ slot ∈ slots, OrderFree slot.decode) : OrderFree (record? shape slots) := by
  intro tree variant distinct rearranged
  cases rearranged with
  | single single => rfl
  | list same each =>
    have alike (draft : Draft) := @fillInOrder?_congr _ slots _ _ same
      (fun pair slot member =>
        free slot member (distinct.ofElements _ (List.of_mem_zip pair).1) (each pair)) draft
    simp only [record?, alike]
  | @object entries varied arranged keys each order =>
    have extended : Tree.Extended (slots.map fun slot => slot.field.name)
        (fun _ => Tree.Rearranged) (.object entries) (.object arranged) :=
      .object keys each (List.forall_mem_nil _) (by rwa [List.append_nil])
    exact record?_eq_of_extended apart distinct extended
      fun valueDistinct rearranged slot member _ =>
      free slot member valueDistinct rearranged

/-- What is kept of a slot does not depend on entries under other names. -/
theorem kept_of_foldlM (apart : slots.Pairwise Slot.IsApart) {slot : Slot Draft}
    (member : slot ∈ slots) {entries : List (Quotation × Tree)}
    (others : ∀ entry ∈ entries, entry.1.text? ≠ some slot.field.name) {filled : Draft}
    (read : entries.foldlM (enter? (fillNamed? slots)) draft = some filled) :
    slot.kept filled = slot.kept draft := by
  induction entries generalizing draft with
  | nil => rw [Option.some.inj read]
  | cons entry entries inductionHypothesis =>
    obtain ⟨otherName, others⟩ := List.forall_mem_cons.mp others
    rw [List.foldlM_cons] at read
    obtain ⟨next, entered, read⟩ := Option.bind_eq_some_iff.mp read
    rw [inductionHypothesis others read]
    obtain ⟨name, isText, entered⟩ := Option.bind_eq_some_iff.mp entered
    rw [fillNamed?] at entered
    split at entered
    · rw [Option.some.inj entered]
    · next other found =>
      have isNamed : other.field.name = name := by simpa using List.find?_some found
      have distinct : slot ≠ other := by
        rintro rfl
        exact otherName (isText.trans (isNamed ▸ rfl))
      have independent := apart.forall member (List.mem_of_find?_eq_some found) distinct
      split at entered
      · cases entered
      · obtain ⟨value, -, rfl⟩ := Option.map_eq_some_iff.mp entered
        exact independent.keptOther draft value

/-- An entry that stands for what a record has without it can be left out. -/
theorem record?_without (apart : slots.Pairwise Slot.IsApart) {slot : Slot Draft} {name : String}
    (found : slots.find? (fun slot => slot.field.name = name) = some slot) {key : Quotation}
    (isText : key.text? = some name) {value : Tree} {meant : slot.Value}
    (decoded : slot.decode value = some meant) (fresh : slot.kept shape.empty = none)
    (same : ∀ draft, slot.kept draft = none →
      shape.build (slot.fill draft meant) = shape.build draft)
    {front back : List (Quotation × Tree)}
    (distinct : (Tree.object (front ++ (key, value) :: back)).IsDistinct) :
    record? shape slots (.object (front ++ (key, value) :: back)) =
      record? shape slots (.object (front ++ back)) := by
  have once := List.pairwise_map.mp distinct.ofEntries.1
  have isNamed : slot.field.name = name := by simpa using List.find?_some found
  have toEnd : (front ++ (key, value) :: back).Perm (front ++ back ++ [(key, value)]) := by
    rw [List.append_assoc]
    exact (List.perm_append_singleton (key, value) back).symm.append_left front
  have others : ∀ entry ∈ front ++ back, entry.1.text? ≠ some slot.field.name := by
    rw [isNamed]
    obtain ⟨-, behind, across⟩ := List.pairwise_append.mp once
    refine List.forall_mem_append.mpr ⟨fun entry member means => ?_, fun entry member means => ?_⟩
    · exact across entry member (key, value) List.mem_cons_self name means isText
    · exact (List.pairwise_cons.mp behind).1 entry member name isText means
  have moved := foldlM_perm toEnd (once.imp (commute_enter? apart)) shape.empty
  rw [record?, record?, moved, List.foldlM_append]
  cases read : (front ++ back).foldlM (enter? (fillNamed? slots)) shape.empty with
  | none => rfl
  | some draft =>
    have free := (kept_of_foldlM apart (List.mem_of_find?_eq_some found) others read).trans fresh
    have entered : enter? (fillNamed? slots) draft (key, value) = some (slot.fill draft meant) := by
      simp [enter?, isText, fillNamed?, found, free, decoded]
    simp only [Option.bind_eq_bind, Option.bind_some, List.foldlM_cons, List.foldlM_nil, entered,
      Option.pure_def, same draft free]

end Records

end ElmWorkbench.Json
