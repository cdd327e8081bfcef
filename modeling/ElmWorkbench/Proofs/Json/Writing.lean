import ElmWorkbench.Json.Value
import ElmWorkbench.Proofs.Json.Quotation
/-!
# Written values

What is written of a value is all of it, or it stops before the first path that is not UTF-8
(`Value.write_complete_iff`). What stands before such a path is a proper beginning of what
would be written if every path could be (`Value.begins_shown`). A compact text holds no control
character, whatever the value holds (`Value.isClean_compact`).
-/

namespace ElmWorkbench.Json

/-! ## Outputs -/

namespace Output

@[simp] theorem complete_of (text : String) : (of text).complete = true := rfl

@[simp] theorem text_of (text : String) : (of text).text = text.toList := rfl

@[simp] theorem complete_append (first second : Output) :
    (first ++ second).complete = (first.complete && second.complete) := by
  change (append first second).complete = _
  cases ended : first.complete <;> simp [append, ended]

/-- A text that is complete is followed by the next one. -/
theorem text_append {first second : Output} (complete : first.complete) :
    (first ++ second).text = first.text ++ second.text := by
  change (append first second).text = _
  rw [append, if_pos complete]

/-- Nothing is added by an empty text. -/
theorem empty_append (output : Output) : of "" ++ output = output := rfl

/-- Two clean outputs are clean together. -/
theorem isClean_append {first second : Output} (clean : IsClean first.text)
    (cleanSecond : IsClean second.text) : IsClean (first ++ second).text := by
  change IsClean (append first second).text
  rw [append]
  split
  · exact clean.append cleanSecond
  · exact clean

/-- A separator stands between the first output and the others. -/
theorem separated_cons (separator : String) (first second : Output) (others : List Output) :
    separated separator (first :: second :: others) =
      first ++ of separator ++ separated separator (second :: others) := rfl

/-- Outputs with separators are complete if each one is. -/
theorem complete_separated (separator : String) (outputs : List Output) :
    (separated separator outputs).complete = outputs.all Output.complete := by
  induction outputs with
  | nil => rfl
  | cons first others inductionHypothesis =>
    cases others with
    | nil => simp [separated]
    | cons second others =>
      rw [separated_cons, complete_append, inductionHypothesis]
      simp

/-- Complete outputs are written with separators between them. -/
theorem text_separated (separator : String) {first : Output} {others : List Output}
    (complete : ∀ output ∈ first :: others, output.complete) :
    (separated separator (first :: others)).text =
      first.text ++ others.flatMap fun output => separator.toList ++ output.text := by
  induction others generalizing first with
  | nil => simp [separated]
  | cons second others inductionHypothesis =>
    rw [List.forall_mem_cons] at complete
    rw [separated_cons, text_append (by simp [complete.1]), text_append complete.1,
      inductionHypothesis complete.2]
    simp

/-- Clean outputs with clean separators are clean. -/
theorem isClean_separated {separator : String} (between : IsClean separator.toList)
    {outputs : List Output} (clean : ∀ output ∈ outputs, IsClean output.text) :
    IsClean (separated separator outputs).text := by
  induction outputs with
  | nil => exact isClean_nil
  | cons first others inductionHypothesis =>
    rw [List.forall_mem_cons] at clean
    cases others with
    | nil => exact clean.1
    | cons second others =>
      exact isClean_append (isClean_append clean.1 between) (inductionHypothesis clean.2)

/-- Where writing may stop: at the end, or at a proper beginning of all that there is to
write. -/
inductive Begins : Output → Output → Prop where
  | whole {text : List Char} :
      Begins { text, complete := true } { text, complete := true }
  | stopped {front tail : List Char} (missing : tail ≠ []) :
      Begins { text := front, complete := false } { text := front ++ tail, complete := true }

/-- A complete output is where writing may stop. -/
theorem begins_self {output : Output} (complete : output.complete) : output.Begins output := by
  obtain ⟨text, _⟩ := output
  cases complete
  exact .whole

/-- What could be written is complete. -/
theorem Begins.complete {part whole : Output} (begins : part.Begins whole) :
    whole.complete = true := by
  cases begins <;> rfl

/-- Two outputs stop where the first of them that stops does. -/
theorem Begins.append {first second firstWhole secondWhole : Output}
    (begins : first.Begins firstWhole) (beginsSecond : second.Begins secondWhole) :
    (first ++ second).Begins (firstWhole ++ secondWhole) := by
  cases begins with
  | @whole text =>
    cases beginsSecond with
    | whole => exact .whole
    | @stopped front tail missing =>
      have stopped : Begins ⟨text ++ front, false⟩ ⟨text ++ front ++ tail, true⟩ :=
        .stopped missing
      rwa [List.append_assoc] at stopped
  | @stopped front tail missing =>
    obtain ⟨text, _⟩ := secondWhole
    obtain rfl : _ = true := beginsSecond.complete
    have stopped : Begins ⟨front, false⟩ ⟨front ++ (tail ++ text), true⟩ :=
      .stopped (by simp [missing])
    rwa [← List.append_assoc] at stopped

/-- Outputs with separators stop where the first of them that stops does. -/
theorem begins_separated {Item : Type} {part whole : Item → Output} {items : List Item}
    (separator : String) (begins : ∀ item ∈ items, (part item).Begins (whole item)) :
    (separated separator (items.map part)).Begins (separated separator (items.map whole)) := by
  induction items with
  | nil => exact .whole
  | cons first others inductionHypothesis =>
    rw [List.forall_mem_cons] at begins
    cases others with
    | nil => exact begins.1
    | cons second others =>
      exact (begins.1.append (begins_self rfl)).append (inductionHypothesis begins.2)

end Output

/-! ## Brackets -/

namespace Layout

variable {opening closing : String}

/-- Elements in brackets are complete if each one is. -/
theorem complete_enclose (layout : Layout) (opening closing : String) (elements : List Output) :
    (layout.enclose opening closing elements).complete = elements.all Output.complete := by
  rw [enclose]
  split
  · next empty => simp [empty]
  · simp [Output.complete_separated, Function.comp_def]

/-- Without line starts, elements stand directly between the brackets. -/
theorem compact_enclose {first : Output} {others : List Output} :
    compact.enclose opening closing (first :: others) =
      Output.of opening ++ Output.separated "," (first :: others) ++ Output.of closing := by
  rw [enclose, if_neg (List.cons_ne_nil _ _)]
  simp only [inner, lineStart, Output.empty_append, List.map_id', String.empty_append]

/-- Elements stand between the brackets, each of them behind a line start. -/
theorem text_enclose (layout : Layout) (opening closing : String) {first : Output}
    {others : List Output} (complete : ∀ output ∈ first :: others, output.complete) :
    (layout.enclose opening closing (first :: others)).text =
      opening.toList ++ ((layout.inner.lineStart.toList ++ first.text) ++
        (others.flatMap fun output => ',' :: (layout.inner.lineStart.toList ++ output.text)) ++
          (layout.lineStart.toList ++ closing.toList)) := by
  have started : ∀ output ∈ (Output.of layout.inner.lineStart ++ first) ::
      others.map (Output.of layout.inner.lineStart ++ ·), output.complete := by
    rw [← List.map_cons, List.forall_mem_map]
    exact fun output member => by simp [complete output member]
  have separated := Output.complete_separated "," ((Output.of layout.inner.lineStart ++ first) ::
    others.map (Output.of layout.inner.lineStart ++ ·))
  rw [List.all_eq_true.mpr started] at separated
  have lineText (output : Output) : (Output.of layout.inner.lineStart ++ output).text =
      layout.inner.lineStart.toList ++ output.text := Output.text_append rfl
  rw [enclose, if_neg (by simp), List.map_cons, Output.text_append (by simp [separated]),
    Output.text_append rfl, Output.text_separated "," started, List.flatMap_map]
  simp only [lineText]
  simp

/-- Clean elements are clean in clean brackets. -/
theorem isClean_enclose (opened : IsClean opening.toList) (closed : IsClean closing.toList)
    {elements : List Output} (clean : ∀ output ∈ elements, IsClean output.text) :
    IsClean (compact.enclose opening closing elements).text := by
  cases elements with
  | nil =>
    rw [enclose, if_pos rfl, Output.text_of, String.toList_append]
    exact opened.append closed
  | cons first others =>
    rw [compact_enclose]
    have inside := Output.isClean_separated (by decide : IsClean ",".toList) clean
    exact Output.isClean_append (Output.isClean_append opened inside) closed

/-- Elements in brackets stop where the first of them that stops does. -/
theorem begins_enclose {Item : Type} {part whole : Item → Output} {items : List Item}
    (layout : Layout) (opening closing : String)
    (begins : ∀ item ∈ items, (part item).Begins (whole item)) :
    (layout.enclose opening closing (items.map part)).Begins
      (layout.enclose opening closing (items.map whole)) := by
  cases items with
  | nil => exact Output.begins_self rfl
  | cons first others =>
    rw [enclose, enclose, if_neg (by simp), if_neg (by simp), List.map_map, List.map_map]
    refine ((Output.begins_self rfl).append (Output.begins_separated "," ?_)).append
      (Output.begins_self rfl)
    intro item member
    exact (Output.begins_self rfl).append (begins item member)

end Layout

/-! ## Written numbers -/

/-- The digits of a number are clean. -/
theorem isClean_toString (number : Nat) : IsClean (toString number).toList := by
  intro character written
  rw [show toString number = number.repr from rfl, Nat.toList_repr] at written
  have digit := Nat.isDigit_of_mem_toDigits (by decide) (by decide) written
  simp only [Char.isDigit, Bool.and_eq_true, decide_eq_true_eq] at digit
  have least : 0x30 ≤ character.toNat := digit.1
  omega

/-- The digits of an integer are clean, and so is its sign. -/
theorem isClean_integer (number : Int) : IsClean (toString number).toList := by
  cases number with
  | ofNat number => exact isClean_toString number
  | negSucc number =>
    have signed : toString (Int.negSucc number) = "-" ++ toString (number + 1) := rfl
    rw [signed, String.toList_append]
    exact (isClean_toString (number + 1)).cons (by decide)

/-- Zeros are clean. -/
theorem isClean_replicate (count : Nat) : IsClean (List.replicate count '0') := by
  intro character member
  rw [List.eq_of_mem_replicate member]
  decide

/-- Digits with a point among them are clean. -/
theorem isClean_placePoint {digits : List Char} (clean : IsClean digits) (place : Int) :
    IsClean (placePoint digits place) := by
  have taken (count : Nat) : IsClean (digits.take count) :=
    fun character member => clean character (List.mem_of_mem_take member)
  have dropped (count : Nat) : IsClean ('.' :: digits.drop count) :=
    .cons (by decide) fun character member => clean character (List.mem_of_mem_drop member)
  have fraction : IsClean (if (digits.length : Int) = 1 then [] else '.' :: digits.drop 1) := by
    split
    · exact isClean_nil
    · exact dropped 1
  have sign : 0x20 ≤ (if place - 1 < 0 then '-' else '+').toNat := by
    split <;> decide
  unfold placePoint
  dsimp only
  split
  · exact (clean.append (isClean_replicate _)).append (by decide)
  · split
    · exact (taken _).append (dropped _)
    · split
      · exact (IsClean.append (by decide) (isClean_replicate _)).append clean
      · exact ((taken 1).append fraction).append
          (((isClean_toString _).cons sign).cons (by decide))

/-- The text of a double is clean. -/
theorem isClean_doubleText (bits : UInt64) : IsClean (doubleText bits).toList := by
  have sign : IsClean (if Nat.pow 2 63 ≤ bits.toNat then ['-'] else []) := by
    split
    · exact isClean_nil.cons (by decide)
    · exact isClean_nil
  have kept (number : Nat) : IsClean (dropTrailingZeros (toString number).toList) := by
    intro digit member
    rw [dropTrailingZeros, List.mem_reverse] at member
    exact isClean_toString number digit
      (List.mem_reverse.mp ((List.dropWhile_sublist _).subset member))
  unfold doubleText
  dsimp only
  split
  · rw [String.toList_ofList]
    exact sign.append (by decide)
  · rw [String.toList_ofList]
    exact sign.append (isClean_placePoint (kept _) _)

/-! ## Values -/

namespace Value

/-- What holds of a list if it holds of its elements, of an object if it holds of the values
in it, and of every other value, holds of all values. -/
@[elab_as_elim]
theorem induction {motive : Value → Prop} (null : motive .null)
    (boolean : ∀ value, motive (.boolean value)) (integer : ∀ value, motive (.integer value))
    (fraction : ∀ bits, motive (.fraction bits)) (text : ∀ value, motive (.text value))
    (path : ∀ value, motive (.path value))
    (list : ∀ elements, (∀ element ∈ elements, motive element) → motive (.list elements))
    (object : ∀ entries, (∀ entry ∈ entries, motive entry.2) → motive (.object entries))
    (value : Value) : motive value :=
  @Value.rec motive (fun elements => ∀ element ∈ elements, motive element)
    (fun entries => ∀ entry ∈ entries, motive entry.2) (fun entry => motive entry.2)
    null boolean integer fraction text path list object
    (fun _ member => absurd member List.not_mem_nil)
    (fun _ _ holds others => List.forall_mem_cons.mpr ⟨holds, others⟩)
    (fun _ member => absurd member List.not_mem_nil)
    (fun _ _ holds others => List.forall_mem_cons.mpr ⟨holds, others⟩)
    (fun _ _ holds => holds) value

/-- An entry of an object as it is written. -/
def writeEntry (layout : Layout) (entry : String × Value) : Output :=
  writeString entry.1 ++ Output.of layout.afterKey ++ entry.2.write layout

/-- An entry is complete if its value is. -/
theorem complete_writeEntry (layout : Layout) (entry : String × Value) :
    (writeEntry layout entry).complete = (entry.2.write layout).complete := by
  simp [writeEntry, writeString]

/-- Elements are written one by one. -/
theorem writeElements_eq (layout : Layout) (elements : List Value) :
    writeElements layout elements = elements.map (write layout) := by
  induction elements with
  | nil => rw [writeElements, List.map_nil]
  | cons first others inductionHypothesis =>
    rw [writeElements, inductionHypothesis, List.map_cons]

/-- Entries are written one by one. -/
theorem writeEntries_eq (layout : Layout) (entries : List (String × Value)) :
    writeEntries layout entries = entries.map (writeEntry layout) := by
  induction entries with
  | nil => rw [writeEntries, List.map_nil]
  | cons first others inductionHypothesis =>
    rw [writeEntries, inductionHypothesis, List.map_cons, writeEntry]

/-- A list is written as its elements in brackets. -/
theorem write_list (layout : Layout) (elements : List Value) :
    (list elements).write layout =
      layout.enclose "[" "]" (elements.map (write layout.inner)) := by
  rw [write, writeElements_eq]

/-- An object is written as its entries in braces. -/
theorem write_object (layout : Layout) (entries : List (String × Value)) :
    (object entries).write layout =
      layout.enclose "\x7b" "\x7d" (entries.map (writeEntry layout.inner)) := by
  rw [write, writeEntries_eq]

/-- A compact text holds no control character. -/
theorem isClean_compact (value : Value) : IsClean value.compact.text := by
  rw [compact]
  induction value using induction with
  | null => rw [write]; decide
  | boolean value => cases value <;> rw [write] <;> decide
  | integer value => rw [write]; exact isClean_integer value
  | fraction bits => rw [write]; exact isClean_doubleText bits
  | text value => rw [write]; exact isClean_writeText value
  | path value =>
    rw [write]
    split
    · exact isClean_writeText _
    · exact isClean_nil
  | list elements inductionHypothesis =>
    rw [write_list]
    refine Layout.isClean_enclose (by decide) (by decide) ?_
    intro output written
    obtain ⟨element, member, rfl⟩ := List.mem_map.mp written
    exact inductionHypothesis element member
  | object entries inductionHypothesis =>
    rw [write_object]
    refine Layout.isClean_enclose (by decide) (by decide) ?_
    intro output written
    obtain ⟨entry, member, rfl⟩ := List.mem_map.mp written
    exact Output.isClean_append
      (Output.isClean_append (isClean_writeText entry.1) (by decide : IsClean ":".toList))
      (inductionHypothesis entry member)

/-! ## Paths that are not UTF-8 -/

/-- A value holds a path. -/
inductive Holds (path : Path) : Value → Prop where
  | itself : Holds path (.path path)
  | element {elements : List Value} {element : Value} (member : element ∈ elements)
      (holds : element.Holds path) : Holds path (.list elements)
  | entry {entries : List (String × Value)} {entry : String × Value} (member : entry ∈ entries)
      (holds : entry.2.Holds path) : Holds path (.object entries)

@[simp] theorem not_holds_null (path : Path) : ¬ Value.null.Holds path := nofun

@[simp] theorem not_holds_boolean (value : Bool) (path : Path) :
    ¬ (Value.boolean value).Holds path :=
  nofun

@[simp] theorem not_holds_integer (value : Int) (path : Path) :
    ¬ (Value.integer value).Holds path :=
  nofun

@[simp] theorem not_holds_text (text : String) (path : Path) : ¬ (Value.text text).Holds path :=
  nofun

@[simp] theorem holds_path_iff {value path : Path} : (Value.path value).Holds path ↔ path = value := by
  constructor
  · rintro ⟨⟩
    rfl
  · rintro rfl
    exact .itself

@[simp] theorem holds_list_iff {elements : List Value} {path : Path} :
    (list elements).Holds path ↔ ∃ element ∈ elements, element.Holds path := by
  constructor
  · intro holds
    cases holds with
    | element member holds => exact ⟨_, member, holds⟩
  · rintro ⟨element, member, holds⟩
    exact .element member holds

@[simp] theorem holds_object_iff {entries : List (String × Value)} {path : Path} :
    (object entries).Holds path ↔ ∃ entry ∈ entries, entry.2.Holds path := by
  constructor
  · intro holds
    cases holds with
    | entry member holds => exact ⟨_, member, holds⟩
  · rintro ⟨entry, member, holds⟩
    exact .entry member holds

/-- All of a value is written exactly if all paths that it holds are UTF-8. -/
theorem write_complete_iff (layout : Layout) (value : Value) :
    (value.write layout).complete ↔ ∀ path, value.Holds path → path.text?.isSome := by
  induction value using induction generalizing layout with
  | null => exact iff_of_true (by rw [write]; rfl) (by rintro path ⟨⟩)
  | boolean value => exact iff_of_true (by rw [write]; rfl) (by rintro path ⟨⟩)
  | integer value => exact iff_of_true (by rw [write]; rfl) (by rintro path ⟨⟩)
  | fraction bits => exact iff_of_true (by rw [write]; rfl) (by rintro path ⟨⟩)
  | text value => exact iff_of_true (by rw [write]; rfl) (by rintro path ⟨⟩)
  | path value =>
    have written : ((path value).write layout).complete = value.text?.isSome := by
      rw [write]
      cases value.text? <;> rfl
    simp [written]
  | list elements inductionHypothesis =>
    rw [write_list, Layout.complete_enclose, List.all_map, List.all_eq_true]
    simp only [holds_list_iff]
    constructor
    · rintro complete path ⟨element, member, holds⟩
      exact (inductionHypothesis element member _).mp (complete element member) path holds
    · intro texts element member
      exact (inductionHypothesis element member _).mpr fun path holds =>
        texts path ⟨element, member, holds⟩
  | object entries inductionHypothesis =>
    rw [write_object, Layout.complete_enclose, List.all_map, List.all_eq_true]
    simp only [holds_object_iff, Function.comp_apply, complete_writeEntry]
    constructor
    · rintro complete path ⟨entry, member, holds⟩
      exact (inductionHypothesis entry member _).mp (complete entry member) path holds
    · intro texts entry member
      exact (inductionHypothesis entry member _).mpr fun path holds =>
        texts path ⟨entry, member, holds⟩

mutual

/-- A value with its paths as they are shown in messages. -/
def shown : Value → Value
  | .path value => .text value.display
  | .list elements => .list (shownElements elements)
  | .object entries => .object (shownEntries entries)
  | other => other

/-- Elements with their paths as they are shown in messages. -/
def shownElements : List Value → List Value
  | [] => []
  | element :: rest => element.shown :: shownElements rest

/-- Entries with their paths as they are shown in messages. -/
def shownEntries : List (String × Value) → List (String × Value)
  | [] => []
  | (key, value) :: rest => (key, value.shown) :: shownEntries rest

end

/-- Elements are shown one by one. -/
theorem shownElements_eq (elements : List Value) : shownElements elements = elements.map shown := by
  induction elements with
  | nil => rw [shownElements, List.map_nil]
  | cons first others inductionHypothesis =>
    rw [shownElements, inductionHypothesis, List.map_cons]

/-- Entries are shown one by one. -/
theorem shownEntries_eq (entries : List (String × Value)) :
    shownEntries entries = entries.map fun entry => (entry.1, entry.2.shown) := by
  induction entries with
  | nil => rw [shownEntries, List.map_nil]
  | cons first others inductionHypothesis =>
    rw [shownEntries, inductionHypothesis, List.map_cons]

/-- Writing a value stops before its first path that is not UTF-8, and what stands before that
path is what would be written if it were shown. -/
theorem begins_shown (layout : Layout) (value : Value) :
    (value.write layout).Begins (value.shown.write layout) := by
  induction value using induction generalizing layout with
  | null => exact Output.begins_self (by rw [write]; rfl)
  | boolean value => exact Output.begins_self (by rw [write]; rfl)
  | integer value => exact Output.begins_self (by rw [write]; rfl)
  | fraction bits => exact Output.begins_self (by rw [write]; rfl)
  | text value => exact Output.begins_self (by rw [write]; rfl)
  | path value =>
    rw [shown, write, write]
    cases isText : value.text? with
    | none => exact .stopped (List.cons_ne_nil _ _)
    | some text =>
      rw [Path.display, Utf8.decodeLossy_of_decode? isText]
      exact .whole
  | list elements inductionHypothesis =>
    rw [shown, shownElements_eq, write_list, write_list, List.map_map]
    exact Layout.begins_enclose layout _ _ fun element member =>
      inductionHypothesis element member _
  | object entries inductionHypothesis =>
    rw [shown, shownEntries_eq, write_object, write_object, List.map_map]
    refine Layout.begins_enclose layout _ _ fun entry member => ?_
    exact (Output.begins_self rfl).append (inductionHypothesis entry member _)

end Value

end ElmWorkbench.Json
