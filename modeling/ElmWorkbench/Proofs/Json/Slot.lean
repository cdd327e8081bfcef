import ElmWorkbench.Proofs.Json.Decoder
/-!
# Records as decoders of trees

A record is read from the entries of an object in any order, or from the elements of a list in the
order of its fields. `Slot` tells what is read for one field and where it is kept, and so what a
whole record is decoded as (`decodes_record`).
-/

namespace ElmWorkbench.Json

open Reader

/-- A field of a record, with what is decoded for it and where that is kept. -/
structure Slot (Draft : Type) where
  field : Field Draft
  Value : Type
  decode : Tree → Option Value
  kept : Draft → Option Value
  fill : Draft → Value → Draft
  isFilled : ∀ draft, field.isFilled draft = (kept draft).isSome
  decodes : ∀ draft, Decodes (field.read draft) fun tree => (decode tree).map (fill draft)

section Records

variable {Draft Value : Type}

/-- What comes of a record behind a key: a slot that is kept already must not come again, and a key
that is no slot changes nothing. -/
def fillNamed? (slots : List (Slot Draft)) (draft : Draft) (name : String) (value : Tree) :
    Option Draft :=
  match slots.find? fun slot => slot.field.name = name with
  | none => some draft
  | some slot =>
    if (slot.kept draft).isSome then none else (slot.decode value).map (slot.fill draft)

/-- What comes of a record with the elements of a list. -/
def fillInOrder? : List (Slot Draft) → List Tree → Draft → Option Draft
  | [], [], draft => some draft
  | [], _ :: _, _ => none
  | slot :: slots, [], draft => if slot.field.isOptional then fillInOrder? slots [] draft else none
  | slot :: slots, element :: others, draft =>
    ((slot.decode element).map (slot.fill draft)).bind (fillInOrder? slots others)

/-- The record that a tree stands for. -/
def record? (shape : Shape Draft Value) (slots : List (Slot Draft)) : Tree → Option Value
  | .object entries => (entries.foldlM (enter? (fillNamed? slots)) shape.empty).bind fun draft =>
    (shape.build draft).toOption
  | .list elements => (fillInOrder? slots elements shape.empty).bind fun draft =>
    (shape.build draft).toOption
  | _ => none

variable {shape : Shape Draft Value} {slots : List (Slot Draft)} {rest : Bytes}

/-- What is read behind the keys of a record fills its slots. -/
theorem follows_fieldAfter (slots : List (Slot Draft)) :
    Follows (fieldAfter (slots.map Slot.field)) (fillNamed? slots) := by
  intro draft name value between text rest blank spaced ends
  rw [fieldAfter, fillNamed?, List.find?_map, Function.comp_def]
  cases slots.find? fun slot => slot.field.name = name with
  | none =>
    exact ((reads_colon blank).bind
      ((value.reads_skipValue spaced ends).tell (reads_pure draft rest))).gives
  | some slot =>
    simp only [Option.map_some, slot.isFilled]
    split
    · exact (refuses_failWhole _).gives _ rest
    · exact (reads_colon blank).goesOn (slot.decodes draft value text rest spaced ends)

/-- A value that is whole is given without reading a byte. -/
theorem gives_whole (result : Except Fault Value) (rest : Bytes) :
    (whole result).Gives [] result.toOption rest := by
  cases result with
  | ok value => exact (reads_pure value rest).gives
  | error fault => exact (refuses_failWhole fault).gives [] rest

/-! ## Lists of slots -/

/-- Where a list should end, no further element is taken. -/
theorem gives_endList_surplus {gap others : Bytes} {byte : UInt8} (blank : IsBlank gap)
    (solid : isSpace byte = false) (notEnd : byte ≠ 0x5D) (rest : Bytes) :
    endList.Gives (gap ++ byte :: others) none rest := by
  refine Gives.afterGap blank solid ?_
  simp only [notEnd, if_false]
  split
  · exact Refuses.gives (Refuses.after fun _ => Refuses.after fun follower => by
      split <;> exact refuses_failNext _) _ _
  · exact (refuses_failNext _).gives _ _

/-- A record that is whole is given where its list ends. -/
theorem gives_whole_end (result : Except Fault Value) {closing : Bytes} (blank : IsBlank closing)
    (rest : Bytes) :
    (whole result >>= fun value => endList >>= fun _ => pure value).Gives (closing ++ [0x5D])
      result.toOption rest := by
  cases result with
  | ok value =>
    have atEnd : endList.Reads (closing ++ [0x5D]) () rest :=
      Reads.afterGap blank rfl reads_step
    have closed : (endList >>= fun _ => pure value).Reads (closing ++ [0x5D]) value rest :=
      atEnd.tell (reads_pure value rest)
    exact closed.gives
  | error fault => exact ((refuses_failWhole fault).gives _ _).none_bind

/-- It is not given where a further element comes. -/
theorem gives_whole_surplus (result : Except Fault Value) {gap others : Bytes} {byte : UInt8}
    (blank : IsBlank gap) (solid : isSpace byte = false) (notEnd : byte ≠ 0x5D) (rest : Bytes) :
    (whole result >>= fun value => endList >>= fun _ => pure value).Gives
      (gap ++ byte :: others) none rest := by
  cases result with
  | ok value =>
    have refused : (endList >>= fun _ => pure value).Gives (gap ++ byte :: others) none rest :=
      (gives_endList_surplus blank solid notEnd rest).none_bind
    exact refused
  | error fault => exact ((refuses_failWhole fault).gives _ _).none_bind

/-- Behind the elements that are wanted, a further one begins with its own byte or with a comma. -/
theorem exists_surplus {first : Bool} {element : Tree} {others : List Tree} {text : Bytes}
    (spaced : Spaced (commaTokens first ((element :: others).map Tree.tokens)) text)
    (back : Bytes) : ∃ gap byte more, text ++ back = gap ++ byte :: more ∧ IsBlank gap ∧
      isSpace byte = false ∧ byte ≠ 0x5D := by
  obtain ⟨lead, gap, byte, bytes, more, spacedLead, blankGap, solid, notEnd, -, -, rfl⟩ :=
    exists_of_spaced_part element.opens spaced
  cases first with
  | true =>
    cases spacedLead
    exact ⟨gap, byte, bytes ++ more ++ back, by simp, blankGap, solid, notEnd⟩
  | false =>
    obtain ⟨before, blankBefore, rfl⟩ := spaced_singleton_iff.mp spacedLead
    exact ⟨before, 0x2C, gap ++ (byte :: bytes ++ more) ++ back, by simp, blankBefore, rfl,
      by decide⟩

/-- The slots of a record are read from the elements of a list, if what is read behind them is told
from the end of the list and from a surplus element. -/
theorem gives_fieldsInList {Result : Type} {next : Draft → Reader Result}
    {result : Draft → Option Result}
    (ended : ∀ draft closing, IsBlank closing →
      (next draft).Gives (closing ++ [0x5D]) (result draft) rest)
    (surplus : ∀ draft gap byte others, IsBlank gap → isSpace byte = false → byte ≠ 0x5D →
      (next draft).Gives (gap ++ byte :: others) none rest)
    (expected : String) {index : Nat} {elements : List Tree} {draft : Draft} {text closing : Bytes}
    (spaced : Spaced (commaTokens (index = 0) (elements.map Tree.tokens)) text)
    (blank : IsBlank closing) :
    (fieldsInList expected index (slots.map Slot.field) draft >>= next).Gives
      (text ++ (closing ++ [0x5D])) ((fillInOrder? slots elements draft).bind result) rest := by
  -- On the fields that are left. Too few elements leave fields without one, and too many leave
  -- text before the bracket.
  induction slots generalizing index elements draft text closing with
  | nil =>
    cases elements with
    | nil =>
      cases spaced
      exact ended draft closing blank
    | cons element others =>
      obtain ⟨gap, byte, more, whole, blankGap, solid, notEnd⟩ :=
        exists_surplus spaced (closing ++ [0x5D])
      rw [whole]
      exact surplus draft gap byte more blankGap solid notEnd
  | cons slot slots inductionHypothesis =>
    rw [List.map_cons, fieldsInList, bind_assoc]
    cases elements with
    | nil =>
      cases spaced
      have atEnd : (anotherElement (index = 0)).Reads closing false ([0x5D] ++ rest) :=
        reads_anotherElement_end _ blank rest
      refine atEnd.goesOn ?_
      rw [fillInOrder?, if_neg Bool.false_ne_true]
      split
      · exact @inductionHypothesis (index + 1) [] draft [] [] .done isBlank_nil
      · exact ((refuses_failWhole _).gives _ _).none_bind
    | cons element others =>
      obtain ⟨lead, gap, byte, bytes, more, spacedLead, blankGap, solid, notEnd, spacedElement,
        spacedMore, rfl⟩ := exists_of_spaced_part element.opens spaced
      have opened := reads_anotherElement spacedLead blankGap solid notEnd
        (bytes ++ (more ++ (closing ++ [0x5D])) ++ rest)
      have ends := isEnd_parts spacedMore (isEnd_closing blank (.inl rfl) rest)
      have whole : lead ++ gap ++ (byte :: bytes ++ more) ++ (closing ++ [0x5D]) =
          lead ++ gap ++ (byte :: bytes ++ (more ++ (closing ++ [0x5D]))) := by simp
      rw [whole, fillInOrder?, Option.bind_assoc]
      refine opened.goesOn ?_
      rw [if_pos rfl, bind_assoc]
      refine Gives.bind (slot.decodes draft element _ _ spacedElement ?_) fun filled _ => ?_
      · simpa using ends
      · exact @inductionHypothesis (index + 1) others filled more closing spacedMore blank

/-- A list is read as a record, up to its end. -/
theorem gives_recordInList (same : shape.fields = slots.map Slot.field) {elements : List Tree}
    {text closing : Bytes} (spaced : Spaced (Tree.elementTokens true elements) text)
    (blank : IsBlank closing) :
    (inList (recordInList .direct shape)).Gives (0x5B :: (text ++ closing) ++ [0x5D])
      (record? shape slots (.list elements)) rest := by
  rw [Tree.elementTokens_eq] at spaced
  have given := @gives_fieldsInList _ slots rest _ _ _
    (fun draft _ blank => gives_whole_end (shape.build draft) blank rest)
    (fun draft _ _ _ blank solid notEnd =>
      gives_whole_surplus (shape.build draft) blank solid notEnd rest)
    (shape.title ++ " with " ++ countOfElements shape.fields.length) 0 elements shape.empty text
    closing spaced blank
  rw [← same, ← bind_assoc] at given
  have whole : 0x5B :: (text ++ closing) ++ [0x5D] = [0x5B] ++ (text ++ (closing ++ [0x5D])) := by
    simp
  rw [whole]
  exact reads_step.goesOn (given.settled placeInList)

/-- A record is read as what its tree stands for. -/
theorem decodes_record (same : shape.fields = slots.map Slot.field) :
    Decodes (record .direct shape) (record? shape slots) := by
  intro tree text rest spaced ends
  have refused (noObject : ∀ entries, tree ≠ .object entries)
      (noList : ∀ elements, tree ≠ .list elements) :
      (record .direct shape).Gives text none rest := by
    refine gives_none_of_token spaced ends fun found shows => ?_
    split
    · obtain ⟨entries, isObject⟩ := shows.exists_object
      exact absurd isObject (noObject entries)
    · obtain ⟨elements, isList⟩ := shows.exists_list
      exact absurd isList (noList elements)
    · exact refuses_fail _
  cases tree with
  | object entries =>
    have follows := follows_fieldAfter slots
    rw [← same] at follows
    exact gives_object spaced fun inner closing spacedInner blankClosing =>
      ((follows.gives_entries spacedInner blankClosing _).tell
        fun draft _ => gives_whole (shape.build draft) _).inObject
  | list elements =>
    exact gives_list spaced fun inner closing spacedInner blankClosing =>
      gives_recordInList same spacedInner blankClosing
  | _ => exact refused nofun nofun

end Records

end ElmWorkbench.Json
