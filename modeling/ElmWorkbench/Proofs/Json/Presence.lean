import ElmWorkbench.Proofs.Json.Rearrangement
/-!
# Which trees are records

An object is a record if its keys are texts and each field that the record must have stands there
once, with a value of its kind (`AreSeparate.isSome_record?_object`). Entries under other texts may
stand there too, and some fields may be missing. A list is a record if it has an element for each
field (`AreSeparate.isSome_record?_list`). So this tells of decoders which trees they accept, and not
what they make of them.
-/

namespace ElmWorkbench.Json

/-- A key that stands for a text. -/
def Quotation.IsText (quotation : Quotation) : Prop :=
  quotation.text?.isSome

/-- A tree that is a text. -/
def Tree.IsText (tree : Tree) : Prop :=
  tree.text?.isSome

section Decoders

variable {Meaning Result : Type} {decode : Tree → Option Meaning} {tree : Tree}

/-- All items are decoded if each one is. -/
theorem isSome_mapM_iff {Item Value : Type} {decode : Item → Option Value} {items : List Item} :
    (items.mapM decode).isSome ↔ ∀ item ∈ items, (decode item).isSome := by
  induction items with
  | nil => simp
  | cons item others inductionHypothesis =>
    rw [List.mapM_cons, List.forall_mem_cons, ← inductionHypothesis]
    cases decode item <;> cases others.mapM decode <;> simp

/-- A list is decoded if each element is. -/
theorem isSome_listOf?_iff : (tree.listOf? decode).isSome ↔
    ∃ elements, tree = .list elements ∧ ∀ element ∈ elements, (decode element).isSome := by
  cases tree with
  | list elements => simp [Tree.listOf?, isSome_mapM_iff]
  | _ => simp [Tree.listOf?]

/-- What is optional is decoded from `null` or from a tree that is. -/
theorem isSome_optional?_iff :
    (tree.optional? decode).isSome ↔ tree = .null ∨ (decode tree).isSome := by
  cases tree <;> simp [Tree.optional?]

/-- An object is decoded if its keys are texts and each value is decoded. -/
theorem isSome_entriesOf?_iff : (tree.entriesOf? decode).isSome ↔
    ∃ entries, tree = .object entries ∧
      ∀ entry ∈ entries, entry.1.IsText ∧ (decode entry.2).isSome := by
  have isSome_pairOf? (entry : Quotation × Tree) :
      (pairOf? decode entry).isSome ↔ entry.1.IsText ∧ (decode entry.2).isSome := by
    rw [pairOf?, Quotation.IsText]
    cases entry.1.text? <;> cases decode entry.2 <;> simp
  cases tree with
  | object entries => simp [Tree.entriesOf?, isSome_mapM_iff, isSome_pairOf?]
  | _ => simp [Tree.entriesOf?]

end Decoders

/-! ## Entries under a name -/

/-- The entries of an object whose keys stand for a name. -/
def under (name : String) (entries : List (Quotation × Tree)) : List (Quotation × Tree) :=
  entries.filter fun entry => entry.1.text? = some name

/-- One entry stands under a name, and its value is of a kind. -/
def HoldsOnce (kind : Tree → Prop) (name : String) (entries : List (Quotation × Tree)) : Prop :=
  ∃ entry, under name entries = [entry] ∧ kind entry.2

section Entries

variable {kind other : Tree → Prop} {name : String} {entry : Quotation × Tree}
  {entries : List (Quotation × Tree)}

/-- An entry under a name comes first of those under it. -/
theorem under_cons_same (named : entry.1.text? = some name) :
    under name (entry :: entries) = entry :: under name entries :=
  List.filter_cons_of_pos (by simpa using named)

/-- An entry under another name does not count. -/
theorem under_cons_other (different : entry.1.text? ≠ some name) :
    under name (entry :: entries) = under name entries :=
  List.filter_cons_of_neg (by simpa using different)

/-- A first entry is the only one under its name if no other one is. -/
theorem holdsOnce_cons_same (named : entry.1.text? = some name) :
    HoldsOnce kind name (entry :: entries) ↔ kind entry.2 ∧ under name entries = [] := by
  rw [HoldsOnce, under_cons_same named]
  constructor
  · rintro ⟨held, same, isKind⟩
    obtain ⟨rfl, none⟩ := List.cons_eq_cons.mp same
    exact ⟨isKind, none⟩
  · rintro ⟨isKind, none⟩
    exact ⟨entry, by rw [none], isKind⟩

/-- Entries hold once what is of one kind if they hold once what is of the same kind. -/
theorem holdsOnce_congr (same : ∀ tree, kind tree ↔ other tree) :
    HoldsOnce kind name entries ↔ HoldsOnce other name entries := by
  simp only [HoldsOnce, same]

end Entries

/-! ## Records from objects -/

/-- Slots that do not disturb one another. -/
structure AreSeparate {Draft : Type} (slots : List (Slot Draft)) : Prop where
  apart : slots.Pairwise Slot.IsApart
  once : (slots.map fun slot => slot.field.name).Nodup
  keeps : ∀ slot ∈ slots, ∀ draft value, slot.kept (slot.fill draft value) = some value

section Records

variable {Draft Value : Type} {shape : Shape Draft Value} {slots : List (Slot Draft)}
  {slot : Slot Draft} {draft filled : Draft} {entry : Quotation × Tree}
  {entries : List (Quotation × Tree)}

/-- A value that can be read for a slot. -/
def Slot.Accepts (slot : Slot Draft) (tree : Tree) : Prop :=
  (slot.decode tree).isSome

/-- What has been read leaves room for the entries under the name of a slot. -/
def Slot.Admits (slot : Slot Draft) (draft : Draft) (entries : List (Quotation × Tree)) : Prop :=
  under slot.field.name entries = [] ∨
    slot.kept draft = none ∧ HoldsOnce slot.Accepts slot.field.name entries

/-- An entry under another name does not matter to a slot. -/
theorem Slot.admits_cons_other (different : entry.1.text? ≠ some slot.field.name) :
    slot.Admits draft (entry :: entries) ↔ slot.Admits draft entries := by
  simp only [Admits, HoldsOnce, under_cons_other different]

/-- An entry under the name of a slot fills it, if nothing else does. -/
theorem Slot.admits_cons_same (named : entry.1.text? = some slot.field.name) :
    slot.Admits draft (entry :: entries) ↔
      slot.kept draft = none ∧ slot.Accepts entry.2 ∧ under slot.field.name entries = [] := by
  rw [Admits, holdsOnce_cons_same named, under_cons_same named]
  simp

/-- Different slots have different names. -/
theorem AreSeparate.name_ne (separate : AreSeparate slots) {other : Slot Draft}
    (member : slot ∈ slots) (memberOther : other ∈ slots) (different : slot ≠ other) :
    slot.field.name ≠ other.field.name := fun same =>
  different (List.inj_on_of_nodup_map separate.once member memberOther same)

/-- What becomes of a slot with an entry: it is filled by an entry under its name, which it has to
accept then, and it stays as it is otherwise. -/
inductive Slot.Becomes (slot : Slot Draft) (entry : Quotation × Tree) (draft next : Draft) :
    Prop where
  | filled (named : entry.1.text? = some slot.field.name) (fresh : slot.kept draft = none)
      (accepts : slot.Accepts entry.2) (isFilled : (slot.kept next).isSome)
  | untouched (other : entry.1.text? ≠ some slot.field.name)
      (same : slot.kept next = slot.kept draft)

/-- An entry becomes part of the slot of its name alone. -/
theorem AreSeparate.becomes_of_enter? (separate : AreSeparate slots) {next : Draft}
    (entered : enter? (fillNamed? slots) draft entry = some next) (member : slot ∈ slots) :
    slot.Becomes entry draft next := by
  obtain ⟨name, named, entered⟩ := Option.bind_eq_some_iff.mp entered
  have isOther (different : name ≠ slot.field.name) : entry.1.text? ≠ some slot.field.name := by
    rw [named]
    exact fun same => different (Option.some.inj same)
  rw [fillNamed?] at entered
  split at entered
  · next unknown =>
    obtain rfl := Option.some.inj entered
    have strange : slot.field.name ≠ name := by
      simpa using List.find?_eq_none.mp unknown slot member
    exact .untouched (isOther strange.symm) rfl
  · next other found =>
    have memberOther := List.mem_of_find?_eq_some found
    obtain rfl : other.field.name = name := by simpa using List.find?_some found
    split at entered
    · cases entered
    · next fresh =>
      obtain ⟨value, accepted, rfl⟩ := Option.map_eq_some_iff.mp entered
      by_cases same : slot = other
      · subst same
        refine .filled named (by simpa using fresh) (Option.isSome_of_mem accepted) ?_
        rw [separate.keeps slot member]
        rfl
      · have different := separate.name_ne memberOther member (Ne.symm same)
        exact .untouched (isOther different)
          ((separate.apart.forall member memberOther same).keptOther draft value)

/-- What an entry leaves room for had room together with the entry. -/
theorem Slot.Becomes.admits_iff {next : Draft} (becomes : slot.Becomes entry draft next) :
    slot.Admits draft (entry :: entries) ↔ slot.Admits next entries := by
  cases becomes with
  | filled named fresh accepts isFilled =>
    have taken : slot.kept next ≠ none := Option.isSome_iff_ne_none.mp isFilled
    rw [admits_cons_same named, Admits]
    simp [fresh, accepts, taken]
  | untouched other same => rw [admits_cons_other other, Admits, Admits, same]

/-- An entry that is admitted is read. -/
theorem exists_enter? (isText : entry.1.IsText)
    (admits : ∀ slot ∈ slots, slot.Admits draft (entry :: entries)) :
    ∃ next, enter? (fillNamed? slots) draft entry = some next := by
  obtain ⟨name, named⟩ := Option.isSome_iff_exists.mp isText
  rw [enter?, named, Option.bind_some, fillNamed?]
  cases found : slots.find? fun slot => slot.field.name = name with
  | none => exact ⟨draft, rfl⟩
  | some slot =>
    obtain rfl : slot.field.name = name := by simpa using List.find?_some found
    have admitted := admits slot (List.mem_of_find?_eq_some found)
    obtain ⟨fresh, accepted, -⟩ := (Slot.admits_cons_same named).mp admitted
    obtain ⟨value, accepted⟩ := Option.isSome_iff_exists.mp accepted
    exact ⟨slot.fill draft value, by simp [fresh, accepted]⟩

/-- Entries are read if their keys are texts and what has been read leaves room for them. -/
theorem AreSeparate.exists_foldlM_iff (separate : AreSeparate slots) :
    (∃ filled, entries.foldlM (enter? (fillNamed? slots)) draft = some filled) ↔
      (∀ entry ∈ entries, entry.1.IsText) ∧ ∀ slot ∈ slots, slot.Admits draft entries := by
  induction entries generalizing draft with
  | nil => exact ⟨fun _ => ⟨List.forall_mem_nil _, fun _ _ => .inl rfl⟩, fun _ => ⟨draft, rfl⟩⟩
  | cons entry entries inductionHypothesis =>
    simp only [List.foldlM_cons, Option.bind_eq_bind, Option.bind_eq_some_iff, List.forall_mem_cons]
    constructor
    · rintro ⟨filled, next, entered, read⟩
      obtain ⟨keys, admits⟩ := inductionHypothesis.mp ⟨filled, read⟩
      have isText : entry.1.IsText := by
        obtain ⟨name, named, -⟩ := Option.bind_eq_some_iff.mp entered
        rw [Quotation.IsText, named]
        rfl
      exact ⟨⟨isText, keys⟩, fun slot member =>
        (separate.becomes_of_enter? entered member).admits_iff.mpr (admits slot member)⟩
    · rintro ⟨⟨isText, keys⟩, admits⟩
      obtain ⟨next, entered⟩ := exists_enter? isText admits
      obtain ⟨filled, read⟩ := inductionHypothesis.mpr ⟨keys, fun slot member =>
        (separate.becomes_of_enter? entered member).admits_iff.mp (admits slot member)⟩
      exact ⟨filled, next, entered, read⟩

/-- A slot is filled in the end if it was or if an entry stands under its name. -/
theorem AreSeparate.isSome_kept_iff (separate : AreSeparate slots) (member : slot ∈ slots)
    (read : entries.foldlM (enter? (fillNamed? slots)) draft = some filled) :
    (slot.kept filled).isSome ↔ (slot.kept draft).isSome ∨ under slot.field.name entries ≠ [] := by
  induction entries generalizing draft with
  | nil =>
    obtain rfl := Option.some.inj read
    simp [under]
  | cons entry entries inductionHypothesis =>
    obtain ⟨next, entered, read⟩ := Option.bind_eq_some_iff.mp read
    rw [inductionHypothesis read]
    cases separate.becomes_of_enter? entered member with
    | filled named fresh accepts isFilled => simp [isFilled, under_cons_same named]
    | untouched other same => rw [same, under_cons_other other]

/-- A record is built if no slot is empty, but for those that may be left out. -/
def Builds (shape : Shape Draft Value) (slots : List (Slot Draft)) : Prop :=
  ∀ draft, (∃ record, shape.build draft = .ok record) ↔
    ∀ slot ∈ slots, slot.field.isOptional = false → (slot.kept draft).isSome

/-- What an object has to hold for a slot. -/
def Slot.IsHeld (slot : Slot Draft) (entries : List (Quotation × Tree)) : Prop :=
  slot.field.isOptional = true ∧ under slot.field.name entries = [] ∨
    HoldsOnce slot.Accepts slot.field.name entries

/-- A slot that is needed is held if one entry fills it. -/
theorem Slot.isHeld_iff_of_needed {kind : Tree → Prop} (needed : slot.field.isOptional = false)
    (accepts : ∀ tree, slot.Accepts tree ↔ kind tree) :
    slot.IsHeld entries ↔ HoldsOnce kind slot.field.name entries := by
  rw [IsHeld, needed, holdsOnce_congr accepts]
  simp

/-- A slot that is optional is held if one entry fills it, or none has its name. -/
theorem Slot.isHeld_iff_of_optional {kind : Tree → Prop} (optional : slot.field.isOptional = true)
    (accepts : ∀ tree, slot.Accepts tree ↔ kind tree) :
    slot.IsHeld entries ↔
      under slot.field.name entries = [] ∨ HoldsOnce kind slot.field.name entries := by
  rw [IsHeld, optional, holdsOnce_congr accepts]
  simp

/-- An object is a record if its keys are texts and it holds what it has to for each slot. -/
theorem AreSeparate.isSome_record?_object (separate : AreSeparate slots)
    (builds : Builds shape slots) (empty : ∀ slot ∈ slots, slot.kept shape.empty = none) :
    (record? shape slots (.object entries)).isSome ↔
      (∀ entry ∈ entries, entry.1.IsText) ∧ ∀ slot ∈ slots, slot.IsHeld entries := by
  constructor
  · intro accepted
    obtain ⟨record, accepted⟩ := Option.isSome_iff_exists.mp accepted
    obtain ⟨filled, read, built⟩ := Option.bind_eq_some_iff.mp accepted
    obtain ⟨keys, admits⟩ := separate.exists_foldlM_iff.mp ⟨filled, read⟩
    have kept := (builds filled).mp ⟨record, Reader.toOption_eq_some_iff.mp built⟩
    refine ⟨keys, fun slot member => ?_⟩
    rcases admits slot member with none | ⟨-, holds⟩
    · cases optional : slot.field.isOptional with
      | true => exact .inl ⟨optional, none⟩
      | false =>
        have isKept := (separate.isSome_kept_iff member read).mp (kept slot member optional)
        rw [empty slot member] at isKept
        simp [none] at isKept
    · exact .inr holds
  · rintro ⟨keys, held⟩
    have admits : ∀ slot ∈ slots, slot.Admits shape.empty entries := by
      intro slot member
      rcases held slot member with ⟨-, none⟩ | holds
      · exact .inl none
      · exact .inr ⟨empty slot member, holds⟩
    obtain ⟨filled, read⟩ := separate.exists_foldlM_iff.mpr ⟨keys, admits⟩
    obtain ⟨record, built⟩ := (builds filled).mpr fun slot member needed => by
      rcases held slot member with ⟨optional, -⟩ | ⟨entry, found, -⟩
      · cases needed.symm.trans optional
      · refine (separate.isSome_kept_iff member read).mpr (.inr ?_)
        rw [found]
        exact List.cons_ne_nil _ _
    rw [record?, read, Option.bind_some, built]
    rfl

/-! ## Records from lists -/

/-- A list is read up to its end if each of its elements is accepted for the slot in its place; the
last of the slots must not be left out, and so none of them is. -/
theorem exists_fillInOrder?_iff {elements : List Tree}
    (needed : ∀ slot ∈ slots.getLast?, slot.field.isOptional = false) :
    (∃ filled, fillInOrder? slots elements draft = some filled) ↔
      List.Forall₂ Slot.Accepts slots elements := by
  induction slots generalizing elements draft with
  | nil => cases elements <;> simp [fillInOrder?]
  | cons slot others inductionHypothesis =>
    have neededLater : ∀ slot ∈ others.getLast?, slot.field.isOptional = false := by
      intro last isLast
      refine needed last ?_
      rw [List.getLast?_cons, Option.mem_def.mp isLast]
      rfl
    cases elements with
    | nil =>
      rw [fillInOrder?]
      split
      · next optional =>
        rw [inductionHypothesis neededLater]
        cases others with
        | nil => cases (needed slot rfl).symm.trans optional
        | cons other more => simp
      · simp
    | cons element elements =>
      rw [fillInOrder?, List.forall₂_cons, Slot.Accepts]
      cases slot.decode element with
      | none => simp
      | some value =>
        simp only [Option.map_some, Option.bind_some, Option.isSome_some, true_and]
        exact inductionHypothesis neededLater

/-- The elements of a list leave alone the slots apart from those they fill. -/
theorem kept_of_fillInOrder? {elements : List Tree} (apart : ∀ other ∈ slots, slot.IsApart other)
    (read : fillInOrder? slots elements draft = some filled) :
    slot.kept filled = slot.kept draft := by
  induction slots generalizing elements draft with
  | nil =>
    cases elements with
    | nil => rw [Option.some.inj read]
    | cons element elements => cases read
  | cons other others inductionHypothesis =>
    obtain ⟨here, later⟩ := List.forall_mem_cons.mp apart
    cases elements with
    | nil =>
      rw [fillInOrder?] at read
      split at read
      · exact inductionHypothesis later read
      · cases read
    | cons element elements =>
      obtain ⟨next, decoded, read⟩ := Option.bind_eq_some_iff.mp read
      obtain ⟨value, -, rfl⟩ := Option.map_eq_some_iff.mp decoded
      rw [inductionHypothesis later read, here.keptOther]

/-- All slots are filled from a list that is read up to its end. -/
theorem isSome_kept_of_fillInOrder? {elements : List Tree} (apart : slots.Pairwise Slot.IsApart)
    (keeps : ∀ slot ∈ slots, ∀ draft value, slot.kept (slot.fill draft value) = some value)
    (accepted : List.Forall₂ Slot.Accepts slots elements)
    (read : fillInOrder? slots elements draft = some filled) :
    ∀ slot ∈ slots, (slot.kept filled).isSome := by
  induction accepted generalizing draft with
  | nil => exact List.forall_mem_nil _
  | @cons slot element slots elements accepts others inductionHypothesis =>
    obtain ⟨here, later⟩ := List.pairwise_cons.mp apart
    obtain ⟨keepsHere, keepsLater⟩ := List.forall_mem_cons.mp keeps
    obtain ⟨next, decoded, read⟩ := Option.bind_eq_some_iff.mp read
    obtain ⟨value, -, rfl⟩ := Option.map_eq_some_iff.mp decoded
    refine List.forall_mem_cons.mpr ⟨?_, inductionHypothesis later keepsLater read⟩
    rw [kept_of_fillInOrder? here read, keepsHere]
    rfl

/-- A list is a record if it has an element for each slot, and each of them is accepted. -/
theorem AreSeparate.isSome_record?_list (separate : AreSeparate slots)
    (builds : Builds shape slots)
    (needed : ∀ slot ∈ slots.getLast?, slot.field.isOptional = false) {elements : List Tree} :
    (record? shape slots (.list elements)).isSome ↔ List.Forall₂ Slot.Accepts slots elements := by
  have filling := @exists_fillInOrder?_iff _ _ shape.empty elements needed
  constructor
  · intro accepted
    obtain ⟨record, accepted⟩ := Option.isSome_iff_exists.mp accepted
    obtain ⟨filled, read, -⟩ := Option.bind_eq_some_iff.mp accepted
    exact filling.mp ⟨filled, read⟩
  · intro accepted
    obtain ⟨filled, read⟩ := filling.mpr accepted
    have kept := isSome_kept_of_fillInOrder? separate.apart separate.keeps accepted read
    obtain ⟨record, built⟩ := (builds filled).mpr fun slot member _ => kept slot member
    rw [record?, read, Option.bind_some, built]
    rfl

end Records

end ElmWorkbench.Json
