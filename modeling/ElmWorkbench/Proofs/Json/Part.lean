import ElmWorkbench.Proofs.Json.Presence
/-!
# What a record is made of

A record is written as an object, with a part under the name of each field, or as a list, with the
part of each field in its place (`Tree.HasPart`). If no field may be left out, the tree of a record
has a part for each of them, and all its parts for a field mean what the record was built from
(`AreNeeded.exists_holds`).
-/

namespace ElmWorkbench.Json

/-- A tree has a part: an object under a name, or a list in a place. -/
inductive Tree.HasPart (name : String) (place : Nat) : Tree → Tree → Prop where
  | entry {entries : List (Quotation × Tree)} {entry : Quotation × Tree} (member : entry ∈ entries)
      (named : entry.1.text? = some name) : HasPart name place (.object entries) entry.2
  | element {elements : List Tree} {part : Tree} (found : elements[place]? = some part) :
      HasPart name place (.list elements) part

section Records

variable {Draft Value : Type} {shape : Shape Draft Value} {slots : List (Slot Draft)}
  {slot : Slot Draft} {draft next filled : Draft} {entry : Quotation × Tree}
  {entries : List (Quotation × Tree)} {tree : Tree} {place : Nat}

/-! ## Parts of objects -/

/-- An entry under the name of a slot fills it with what the entry means. -/
theorem AreSeparate.kept_of_enter? (separate : AreSeparate slots)
    (entered : enter? (fillNamed? slots) draft entry = some next) (member : slot ∈ slots)
    (named : entry.1.text? = some slot.field.name) : slot.kept next = slot.decode entry.2 := by
  rw [enter?, named, Option.bind_some, fillNamed?] at entered
  split at entered
  · next unknown =>
    have strange : slot.field.name ≠ slot.field.name := by
      simpa using List.find?_eq_none.mp unknown slot member
    exact absurd rfl strange
  · next other found =>
    have sameName : other.field.name = slot.field.name := by simpa using List.find?_some found
    obtain rfl : other = slot := List.inj_on_of_nodup_map separate.once
      (List.mem_of_find?_eq_some found) member sameName
    split at entered
    · cases entered
    · obtain ⟨value, decoded, rfl⟩ := Option.map_eq_some_iff.mp entered
      rw [separate.keeps _ member, decoded]

/-- What fills a slot stays there. -/
theorem AreSeparate.kept_of_foldlM (separate : AreSeparate slots) (member : slot ∈ slots)
    (read : entries.foldlM (enter? (fillNamed? slots)) draft = some filled)
    (isKept : (slot.kept draft).isSome) : slot.kept filled = slot.kept draft := by
  induction entries generalizing draft with
  | nil => rw [Option.some.inj read]
  | cons entry entries inductionHypothesis =>
    obtain ⟨next, entered, read⟩ := Option.bind_eq_some_iff.mp read
    cases separate.becomes_of_enter? entered member with
    | filled named fresh accepts isFilled => simp [fresh] at isKept
    | untouched other same => rw [inductionHypothesis read (same ▸ isKept), same]

/-- Every entry under the name of a slot means what the slot is filled with in the end. -/
theorem AreSeparate.kept_of_mem (separate : AreSeparate slots) (member : slot ∈ slots)
    (read : entries.foldlM (enter? (fillNamed? slots)) draft = some filled)
    (isEntry : entry ∈ entries) (named : entry.1.text? = some slot.field.name) :
    slot.kept filled = slot.decode entry.2 := by
  induction entries generalizing draft with
  | nil => cases isEntry
  | cons first entries inductionHypothesis =>
    obtain ⟨next, entered, readLater⟩ := Option.bind_eq_some_iff.mp read
    rcases List.mem_cons.mp isEntry with rfl | later
    · have isFilled : (slot.kept next).isSome := by
        cases separate.becomes_of_enter? entered member with
        | filled named fresh accepts isFilled => exact isFilled
        | untouched other same => exact absurd named other
      rw [separate.kept_of_foldlM member readLater isFilled,
        separate.kept_of_enter? entered member named]
    · exact inductionHypothesis readLater later

/-! ## Parts of lists -/

/-- The element in the place of a slot means what the slot is filled with in the end. -/
theorem AreSeparate.kept_of_getElem? {elements : List Tree} {part : Tree}
    (separate : AreSeparate slots) (read : fillInOrder? slots elements draft = some filled)
    (isSlot : slots[place]? = some slot) (isElement : elements[place]? = some part) :
    slot.kept filled = slot.decode part := by
  obtain ⟨apart, -, keeps⟩ := separate
  induction slots generalizing elements draft place with
  | nil => cases isSlot
  | cons first others inductionHypothesis =>
    obtain ⟨apartHere, apartLater⟩ := List.pairwise_cons.mp apart
    obtain ⟨keepsHere, keepsLater⟩ := List.forall_mem_cons.mp keeps
    cases elements with
    | nil => cases isElement
    | cons element elements =>
      obtain ⟨next, filledHere, readLater⟩ := Option.bind_eq_some_iff.mp read
      obtain ⟨value, decoded, rfl⟩ := Option.map_eq_some_iff.mp filledHere
      cases place with
      | zero =>
        obtain rfl := Option.some.inj isSlot
        obtain rfl := Option.some.inj isElement
        rw [kept_of_fillInOrder? apartHere readLater, keepsHere, decoded]
      | succ place => exact inductionHypothesis readLater isSlot isElement apartLater keepsLater

/-! ## Parts of records -/

/-- A tree has a part for a slot, and all such parts mean the same. -/
structure Slot.Holds (slot : Slot Draft) (place : Nat) (tree : Tree) (meaning : slot.Value) :
    Prop where
  isThere : ∃ part, tree.HasPart slot.field.name place part
  means : ∀ part, tree.HasPart slot.field.name place part → slot.decode part = some meaning

/-- Whether a part for a slot has a property is told by what it means. -/
theorem Slot.Holds.exists_iff {meaning : slot.Value} {property : Tree → Prop} {told : Prop}
    (holds : slot.Holds place tree meaning)
    (tells : ∀ part, slot.decode part = some meaning → (property part ↔ told)) :
    (∃ part, tree.HasPart slot.field.name place part ∧ property part) ↔ told := by
  constructor
  · rintro ⟨part, isPart, said⟩
    exact (tells part (holds.means part isPart)).mp said
  · intro isTold
    obtain ⟨part, isPart⟩ := holds.isThere
    exact ⟨part, isPart, (tells part (holds.means part isPart)).mpr isTold⟩

/-- What a slot holds is what its part is decoded as. -/
theorem Slot.Holds.exists_decoded_iff {meaning other : slot.Value}
    (holds : slot.Holds place tree meaning) :
    (∃ part, tree.HasPart slot.field.name place part ∧ slot.decode part = some other) ↔
      other = meaning :=
  holds.exists_iff fun part decoded => by rw [decoded, Option.some.injEq, eq_comm]

/-- Slots of a record of which none may be left out. -/
structure AreNeeded (shape : Shape Draft Value) (slots : List (Slot Draft)) : Prop extends
    AreSeparate slots where
  builds : Builds shape slots
  empty : ∀ slot ∈ slots, slot.kept shape.empty = none
  needed : ∀ slot ∈ slots, slot.field.isOptional = false

/-- A slot that a record must have is empty at first, and keeps what it is filled with. -/
structure Slot.IsNeeded (shape : Shape Draft Value) (slot : Slot Draft) : Prop where
  keeps : ∀ draft value, slot.kept (slot.fill draft value) = some value
  empty : slot.kept shape.empty = none
  needed : slot.field.isOptional = false

/-- A record that is made of two parts needs the slots of both. -/
theorem AreNeeded.pair {first second : Slot Draft} (make : first.Value → second.Value → Value)
    (made : ∀ draft, shape.build draft = do
      let one ← required first.field.name (first.kept draft)
      let other ← required second.field.name (second.kept draft)
      pure (make one other))
    (different : first.field.name ≠ second.field.name) (apart : first.IsApart second)
    (neededFirst : first.IsNeeded shape) (neededSecond : second.IsNeeded shape) :
    AreNeeded shape [first, second] where
  apart := List.pairwise_pair.mpr apart
  once := by simpa using different
  keeps := List.forall_mem_cons.mpr
    ⟨neededFirst.keeps, List.forall_mem_singleton.mpr neededSecond.keeps⟩
  builds draft := by
    rw [List.forall_mem_cons, List.forall_mem_singleton, made]
    cases first.kept draft <;> cases second.kept draft <;>
      simp [required, neededFirst.needed, neededSecond.needed]
  empty := List.forall_mem_cons.mpr
    ⟨neededFirst.empty, List.forall_mem_singleton.mpr neededSecond.empty⟩
  needed := List.forall_mem_cons.mpr
    ⟨neededFirst.needed, List.forall_mem_singleton.mpr neededSecond.needed⟩

/-- All slots are filled where a record has been built. -/
theorem AreNeeded.exists_kept (areNeeded : AreNeeded shape slots) {value : Value}
    (built : shape.build filled = .ok value) (member : slot ∈ slots) :
    ∃ meaning, slot.kept filled = some meaning :=
  Option.isSome_iff_exists.mp
    ((areNeeded.builds filled).mp ⟨value, built⟩ slot member (areNeeded.needed slot member))

/-- A record of which no field may be left out is built from what the parts of its tree mean. -/
theorem AreNeeded.exists_holds (areNeeded : AreNeeded shape slots) {value : Value}
    (accepted : record? shape slots tree = some value) :
    ∃ filled, shape.build filled = .ok value ∧
      ∀ place (slot : Slot Draft), slots[place]? = some slot →
        ∃ meaning, slot.kept filled = some meaning ∧ slot.Holds place tree meaning := by
  have separate := areNeeded.toAreSeparate
  cases tree with
  | object entries =>
    obtain ⟨filled, read, built⟩ := Option.bind_eq_some_iff.mp accepted
    have built := Reader.toOption_eq_some_iff.mp built
    refine ⟨filled, built, fun place slot isSlot => ?_⟩
    have member := List.mem_of_getElem? isSlot
    obtain ⟨meaning, kept⟩ := areNeeded.exists_kept built member
    refine ⟨meaning, kept, ?_, ?_⟩
    · have present := (separate.isSome_kept_iff member read).mp (Option.isSome_of_eq_some kept)
      rw [areNeeded.empty slot member] at present
      obtain ⟨entry, isUnder⟩ := List.exists_mem_of_ne_nil _ (present.resolve_left nofun)
      obtain ⟨isEntry, named⟩ := List.mem_filter.mp isUnder
      exact ⟨entry.2, .entry isEntry (of_decide_eq_true named)⟩
    · rintro _ (⟨isEntry, named⟩ | _)
      rw [← separate.kept_of_mem member read isEntry named, kept]
  | list elements =>
    obtain ⟨filled, read, built⟩ := Option.bind_eq_some_iff.mp accepted
    have built := Reader.toOption_eq_some_iff.mp built
    have eachAccepted := (exists_fillInOrder?_iff fun slot isLast =>
      areNeeded.needed slot (List.mem_of_getLast? isLast)).mp ⟨filled, read⟩
    refine ⟨filled, built, fun place slot isSlot => ?_⟩
    have member := List.mem_of_getElem? isSlot
    obtain ⟨meaning, kept⟩ := areNeeded.exists_kept built member
    refine ⟨meaning, kept, ?_, ?_⟩
    · have inside : place < elements.length := by
        rw [← eachAccepted.length_eq]
        exact (List.getElem?_eq_some_iff.mp isSlot).1
      exact ⟨elements[place], .element (List.getElem?_eq_getElem inside)⟩
    · rintro _ (_ | isElement)
      rw [← separate.kept_of_getElem? read isSlot isElement, kept]
  | _ => cases accepted

end Records

end ElmWorkbench.Json
