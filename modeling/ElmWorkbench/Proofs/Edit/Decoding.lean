import ElmWorkbench.Proofs.Edit.Encoding
import ElmWorkbench.Proofs.Edit.Offset
import ElmWorkbench.Proofs.Json.Count
import ElmWorkbench.Proofs.Json.Part
/-!
# Which edits are decoded

Positions, ranges and edits are written as objects or as lists, and each of them in its own way. An
edit that is decoded has the numbers and the text that its own tree writes, and nothing else is
written there (`Edit.isEncoded_of_ofTree?`). So the ends of its range are in order, and a text that writes
them in reverse is refused, whatever else it holds (`Edit.decoded_isWellFormed`).
-/

namespace ElmWorkbench

open Json

namespace Position

/-! ## Positions -/

/-- The slot of the line. -/
def lineSlot : Slot Draft where
  field := shape.fields[0]
  Value := UInt64
  decode := Tree.count?
  kept := Draft.line
  fill draft line := { draft with line := some line }
  isFilled _ := rfl
  decodes _ := decodes_count.tell_pure _

/-- The slot of the column. -/
def columnSlot : Slot Draft where
  field := shape.fields[1]
  Value := UInt64
  decode := Tree.count?
  kept := Draft.column
  fill draft column := { draft with column := some column }
  isFilled _ := rfl
  decodes _ := decodes_count.tell_pure _

/-- The slots of a position. -/
def slots : List (Slot Draft) :=
  [lineSlot, columnSlot]

/-- The position that a tree stands for. -/
def ofTree? : Tree → Option Position :=
  record? shape slots

/-- A position is read as what its tree stands for. -/
theorem decodes_position : Decodes (read .direct) ofTree? :=
  decodes_record rfl

/-- What is read as a position is a whole value. -/
theorem isValue_position : (read .direct).Crosses IsValue := by
  refine Reader.isValue_record ?_
  simp only [shape, List.forall_mem_cons]
  exact ⟨fun _ => isValue_count.bind fun _ => Reader.crosses_pure _,
    fun _ => isValue_count.bind fun _ => Reader.crosses_pure _, List.forall_mem_nil _⟩

/-- A position needs its line and its column. -/
theorem areNeeded_slots : AreNeeded shape slots :=
  .pair Position.mk (fun _ => rfl) (by decide) ⟨fun _ _ => rfl, fun _ _ => rfl, fun _ _ _ => rfl⟩
    ⟨fun _ _ => rfl, rfl, rfl⟩ ⟨fun _ _ => rfl, rfl, rfl⟩

/-- The line and the column of a position. -/
def numbers (position : Position) : Nat × Nat :=
  (position.line.toNat, position.column.toNat)

/-- A tree writes a line and a column, under their names or in their places. -/
def IsEncoded (numbers : Nat × Nat) (tree : Tree) : Prop :=
  (∃ part, tree.HasPart "line" 0 part ∧ part.natural? = some numbers.1) ∧
    ∃ part, tree.HasPart "column" 1 part ∧ part.natural? = some numbers.2

/-- The tree of a position writes its line and its column, and no others. -/
theorem isEncoded_iff {position : Position} {tree : Tree} (decoded : ofTree? tree = some position)
    {numbers : Nat × Nat} : IsEncoded numbers tree ↔ numbers = position.numbers := by
  have means {part : Tree} {count : UInt64} {number : Nat} (isCount : part.count? = some count) :
      part.natural? = some number ↔ number = count.toNat := by
    rw [Tree.count?_eq_some_iff.mp isCount, Option.some.injEq, eq_comm]
  obtain ⟨⟨line, column⟩, built, holds⟩ := areNeeded_slots.exists_holds decoded
  obtain ⟨lineCount, isLine, holdsLine⟩ := holds 0 lineSlot rfl
  obtain ⟨columnCount, isColumn, holdsColumn⟩ := holds 1 columnSlot rfl
  obtain rfl : line = some lineCount := isLine
  obtain rfl : column = some columnCount := isColumn
  cases built
  rw [Prod.ext_iff]
  exact and_congr (holdsLine.exists_iff fun part isCount => means isCount)
    (holdsColumn.exists_iff fun part isCount => means isCount)

end Position

namespace Range

/-! ## Ranges -/

/-- The slot of the first position. -/
def firstSlot : Slot Draft where
  field := shape.fields[0]
  Value := Position
  decode := Position.ofTree?
  kept := Draft.first
  fill draft first := { draft with first := some first }
  isFilled _ := rfl
  decodes _ := Position.decodes_position.tell_pure _

/-- The slot of the last position. -/
def lastSlot : Slot Draft where
  field := shape.fields[1]
  Value := Position
  decode := Position.ofTree?
  kept := Draft.last
  fill draft last := { draft with last := some last }
  isFilled _ := rfl
  decodes _ := Position.decodes_position.tell_pure _

/-- The slots of a range. -/
def slots : List (Slot Draft) :=
  [firstSlot, lastSlot]

/-- The range that a tree stands for, if its ends are in order. -/
def ofTree? (tree : Tree) : Option Range :=
  (record? shape slots tree).bind fun ends => (make ends.1 ends.2).toOption

/-- A range is read as its ends, whose order is checked for the whole. -/
theorem read_eq : read = (Reader.record .direct shape >>= fun ends =>
    Reader.whole ((make ends.1 ends.2).mapError Fault.refused)) := by
  refine congrArg (Reader.record .direct shape >>= ·) (funext fun ends => ?_)
  dsimp only
  cases make ends.1 ends.2 <;> rfl

/-- A range is read as what its tree stands for. -/
theorem decodes_range : Decodes read ofTree? := by
  intro tree text rest spaced ends
  have decodesEnds : Decodes (Reader.record .direct shape) (record? shape slots) :=
    decodes_record rfl
  rw [read_eq]
  refine (decodesEnds tree text rest spaced ends).tell fun ends _ => ?_
  have given := gives_whole ((make ends.1 ends.2).mapError Fault.refused) rest
  cases made : make ends.1 ends.2 <;> simpa [made, Except.mapError, Except.toOption] using given

/-- What is read as a range is a whole value. -/
theorem isValue_range : read.Crosses IsValue := by
  rw [read_eq]
  refine Reader.Crosses.bind (Reader.isValue_record ?_) fun ends => Reader.crosses_whole _
  simp only [shape, List.forall_mem_cons]
  exact ⟨fun _ => Position.isValue_position.bind fun _ => Reader.crosses_pure _,
    fun _ => Position.isValue_position.bind fun _ => Reader.crosses_pure _, List.forall_mem_nil _⟩

/-- A range needs both its ends. -/
theorem areNeeded_slots : AreNeeded shape slots :=
  .pair Prod.mk (fun _ => rfl) (by decide) ⟨fun _ _ => rfl, fun _ _ => rfl, fun _ _ _ => rfl⟩
    ⟨fun _ _ => rfl, rfl, rfl⟩ ⟨fun _ _ => rfl, rfl, rfl⟩

/-- A range is made of the ends that are given. -/
theorem ends_of_make {first last : Position} {range : Range}
    (made : make first last = .ok range) : range.first = first ∧ range.last = last := by
  rw [make] at made
  split at made
  · cases made
    exact ⟨rfl, rfl⟩
  · cases made

/-- A tree writes the ends of a range, under their names or in their places. -/
def IsEncoded (first last : Nat × Nat) (tree : Tree) : Prop :=
  (∃ part, tree.HasPart "from" 0 part ∧ Position.IsEncoded first part) ∧
    ∃ part, tree.HasPart "to" 1 part ∧ Position.IsEncoded last part

/-- The tree of a range writes its ends, and no others. -/
theorem isEncoded_iff {range : Range} {tree : Tree} (decoded : ofTree? tree = some range)
    {first last : Nat × Nat} : IsEncoded first last tree ↔
      first = range.first.numbers ∧ last = range.last.numbers := by
  obtain ⟨⟨firstPosition, lastPosition⟩, areEnds, made⟩ := Option.bind_eq_some_iff.mp decoded
  obtain ⟨⟨firstRead, lastRead⟩, built, holds⟩ := areNeeded_slots.exists_holds areEnds
  obtain ⟨firstMeant, isFirst, holdsFirst⟩ := holds 0 firstSlot rfl
  obtain ⟨lastMeant, isLast, holdsLast⟩ := holds 1 lastSlot rfl
  obtain rfl : firstRead = some firstMeant := isFirst
  obtain rfl : lastRead = some lastMeant := isLast
  cases built
  obtain ⟨rfl, rfl⟩ := ends_of_make (Reader.toOption_eq_some_iff.mp made)
  exact and_congr (holdsFirst.exists_iff fun part decoded => Position.isEncoded_iff decoded)
    (holdsLast.exists_iff fun part decoded => Position.isEncoded_iff decoded)

end Range

namespace Edit

/-! ## Edits -/

/-- The slot of the range. -/
def rangeSlot : Slot Draft where
  field := shape.fields[0]
  Value := Range
  decode := Range.ofTree?
  kept := Draft.range
  fill draft range := { draft with range := some range }
  isFilled _ := rfl
  decodes _ := Range.decodes_range.tell_pure _

/-- The slot of the replacement. -/
def replacementSlot : Slot Draft where
  field := shape.fields[1]
  Value := String
  decode := Tree.text?
  kept := Draft.replacement
  fill draft replacement := { draft with replacement := some replacement }
  isFilled _ := rfl
  decodes _ := (decodes_textFor "a string").tell_pure _

/-- The slots of an edit. -/
def slots : List (Slot Draft) :=
  [rangeSlot, replacementSlot]

/-- The edit that a tree stands for. -/
def ofTree? : Tree → Option Edit :=
  record? shape slots

/-- An edit is read as what its tree stands for. -/
theorem decodes_edit : Decodes (Reader.record .direct shape) ofTree? :=
  decodes_record rfl

/-- What is read as an edit is a whole value. -/
theorem isValue_edit : (Reader.record .direct shape).Crosses IsValue := by
  refine Reader.isValue_record ?_
  simp only [shape, List.forall_mem_cons]
  exact ⟨fun _ => Range.isValue_range.bind fun _ => Reader.crosses_pure _,
    fun _ => (Reader.isValue_textFor "a string").bind fun _ => Reader.crosses_pure _,
    List.forall_mem_nil _⟩

/-- An edit needs its range and its replacement. -/
theorem areNeeded_slots : AreNeeded shape slots :=
  .pair Edit.mk (fun _ => rfl) (by decide) ⟨fun _ _ => rfl, fun _ _ => rfl, fun _ _ _ => rfl⟩
    ⟨fun _ _ => rfl, rfl, rfl⟩ ⟨fun _ _ => rfl, rfl, rfl⟩

/-- A tree writes the ends of the range of an edit. -/
def HasEnds (first last : Nat × Nat) (tree : Tree) : Prop :=
  ∃ part, tree.HasPart "range" 0 part ∧ Range.IsEncoded first last part

/-- A tree writes the replacement of an edit. -/
def HasReplacement (replacement : String) (tree : Tree) : Prop :=
  ∃ part, tree.HasPart "replacement" 1 part ∧ part.text? = some replacement

/-- A tree writes an edit: the ends of its range and its replacement, and no others. -/
structure IsEncoded (edit : Edit) (tree : Tree) : Prop where
  ends : ∀ first last, HasEnds first last tree ↔
    first = edit.range.first.numbers ∧ last = edit.range.last.numbers
  replacement : ∀ replacement, HasReplacement replacement tree ↔ replacement = edit.replacement

/-- A tree that stands for an edit writes it, and no other one. -/
theorem isEncoded_of_ofTree? {edit : Edit} {tree : Tree} (decoded : ofTree? tree = some edit) :
    edit.IsEncoded tree := by
  obtain ⟨⟨range, replacement⟩, built, holds⟩ := areNeeded_slots.exists_holds decoded
  obtain ⟨rangeMeant, isRange, holdsRange⟩ := holds 0 rangeSlot rfl
  obtain ⟨textMeant, isText, holdsText⟩ := holds 1 replacementSlot rfl
  obtain rfl : range = some rangeMeant := isRange
  obtain rfl : replacement = some textMeant := isText
  cases built
  exact ⟨fun first last => holdsRange.exists_iff fun part decoded => Range.isEncoded_iff decoded,
    fun replacement => holdsText.exists_decoded_iff⟩

/-! ## Texts of edits -/

/-- What a text is decoded as depends on its tree alone. -/
theorem ofJson_eq_ok_iff {bytes : Bytes} {tree : Tree} (spells : tree.Spells bytes) {edit : Edit} :
    ofJson bytes = .ok edit ↔ ofTree? tree = some edit := by
  rw [← decodes_edit.toOption_runWhole spells, Reader.toOption_eq_some_iff, ofJson]

/-- A text that is decoded is spelled by a tree that writes the edit. -/
theorem exists_isEncoded_of_ofJson {bytes : Bytes} {edit : Edit}
    (decoded : ofJson bytes = .ok edit) :
    ∃ tree : Tree, tree.Spells bytes ∧ edit.IsEncoded tree := by
  obtain ⟨tree, spells⟩ := Reader.exists_spells_of_runWhole isValue_edit decoded
  exact ⟨tree, spells, isEncoded_of_ofTree? ((ofJson_eq_ok_iff spells).mp decoded)⟩

/-- Ends that a text writes in reverse are refused with all of it. -/
theorem exists_failure_of_reversed {bytes : Bytes} {tree : Tree} {first last : Nat × Nat}
    (spells : tree.Spells bytes) (ends : HasEnds first last tree)
    (reversed : last.1 < first.1 ∨ last.1 = first.1 ∧ last.2 < first.2) :
    ∃ failure, ofJson bytes = .error failure := by
  cases decoded : ofJson bytes with
  | error failure => exact ⟨failure, rfl⟩
  | ok edit =>
    have written := isEncoded_of_ofTree? ((ofJson_eq_ok_iff spells).mp decoded)
    obtain ⟨rfl, rfl⟩ := (written.ends first last).mp ends
    have ordered := Position.le_iff.mp edit.range.ordered
    simp only [Position.numbers] at reversed
    omega

/-- An edit that is decoded is the one that its text writes. The ends of its range are in order, it
is read back from what it is written as, and it replaces the range between its ends. A text that
writes the ends in reverse is refused, whatever else it holds and whether or not 64 bits hold the
numbers. And every edit is written in full and read back. -/
theorem decoded_isWellFormed :
    (∀ (bytes : Bytes) (edit : Edit), ofJson bytes = .ok edit →
      (∃ tree : Tree, tree.Spells bytes ∧ edit.IsEncoded tree) ∧
      (edit.range.first.line < edit.range.last.line ∨
        edit.range.first.line = edit.range.last.line ∧
          edit.range.first.column ≤ edit.range.last.column) ∧
      ofJson edit.toJson.bytes = .ok edit ∧
      ∀ content, edit.applyToText content = do
        let range ← Range.make edit.range.first edit.range.last
        replaceInText content range edit.replacement) ∧
    (∀ (bytes : Bytes) (tree : Tree) (first last : Nat × Nat), tree.Spells bytes →
      HasEnds first last tree → last.1 < first.1 ∨ last.1 = first.1 ∧ last.2 < first.2 →
      ∃ failure, ofJson bytes = .error failure) ∧
    ∀ edit : Edit, edit.toJson.compact.complete ∧ ofJson edit.toJson.bytes = .ok edit := by
  refine ⟨fun bytes edit decoded => ⟨exists_isEncoded_of_ofJson decoded, edit.range.ordered,
    edit.ofJson_bytes, fun content => ?_⟩, fun bytes tree first last => exists_failure_of_reversed,
    fun edit => ⟨edit.complete_toJson, edit.ofJson_bytes⟩⟩
  rw [Range.make_eq_ok]
  rfl

/-- A number of one digit. -/
def digitTree (digit : UInt8) (single : isDigit digit) : Tree :=
  .number ⟨false, ⟨[digit], List.cons_ne_nil _ _, List.forall_mem_singleton.mpr single⟩, none, none,
    fun _ => rfl⟩

/-- An edit without any key, which puts `x` in place of a range with these ends. -/
def listedTree (line column lastLine lastColumn : Tree) : Tree :=
  .list [.list [.list [line, column], .list [lastLine, lastColumn]],
    .text ⟨[.plain 0x78 (by decide)]⟩]

/-- A range within a line. -/
def orderedTree : Tree :=
  listedTree (digitTree 0x32 rfl) (digitTree 0x31 rfl) (digitTree 0x32 rfl) (digitTree 0x34 rfl)

/-- The edit of this range. -/
def orderedEdit : Edit where
  range := { first := ⟨2, 1⟩, last := ⟨2, 4⟩, ordered := by decide }
  replacement := "x"

/-- A range that ends on the line before the one that it starts on. -/
def reversedTree : Tree :=
  listedTree (digitTree 0x33 rfl) (digitTree 0x30 rfl) (digitTree 0x32 rfl) (digitTree 0x39 rfl)

/-- The first text is decoded as this edit, and the other one is refused. -/
theorem decoded_isWellFormed_listed :
    ofJson (Utf8.encode "[[[2,1],[2,4]],\"x\"]") = .ok orderedEdit ∧
      ofJson orderedEdit.toJson.bytes = .ok orderedEdit ∧
      ∃ failure, ofJson (Utf8.encode "[[[3,0],[2,9]],\"x\"]") = .error failure := by
  have spellsOrdered : orderedTree.Spells (Utf8.encode "[[[2,1],[2,4]],\"x\"]") :=
    ⟨_, [], spaced_flatMap isBlank_nil orderedTree.tokens, isBlank_nil, by decide +kernel⟩
  have spellsReversed : reversedTree.Spells (Utf8.encode "[[[3,0],[2,9]],\"x\"]") :=
    ⟨_, [], spaced_flatMap isBlank_nil reversedTree.tokens, isBlank_nil, by decide +kernel⟩
  have decoded : ofJson (Utf8.encode "[[[2,1],[2,4]],\"x\"]") = .ok orderedEdit :=
    (ofJson_eq_ok_iff spellsOrdered).mpr (by decide +kernel)
  obtain ⟨accepted, refused, -⟩ := decoded_isWellFormed
  have ends : HasEnds (3, 0) (2, 9) reversedTree :=
    ⟨_, .element rfl, ⟨_, .element rfl, ⟨_, .element rfl, rfl⟩, _, .element rfl, rfl⟩,
      _, .element rfl, ⟨_, .element rfl, rfl⟩, _, .element rfl, rfl⟩
  exact ⟨decoded, (accepted _ _ decoded).2.2.1,
    refused _ _ _ _ spellsReversed ends (.inl (by decide))⟩

end Edit

end ElmWorkbench
