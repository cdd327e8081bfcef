import ElmWorkbench.Edit.Splice
import ElmWorkbench.Proofs.Text.Line
/-!
# Edits as cuts of the flat text

The offset of a place in lines is the number of characters before it. In terms of
offsets a splice keeps what stands before its cut and after its resumption
(`Splice.apply_eq`), and a range spans what stands between its ends
(`Range.extract_eq`). Later modules reason about offsets only and do not look at single
lines again.
-/

namespace ElmWorkbench

namespace Line

/-- The number of characters before a column of the line with the given number: those
of the lines above, and as many of its own body as the column counts, or the whole body
if that is shorter. -/
def offset : List Line → Nat → Nat → Nat
  | [], _, _ => 0
  | line :: _, 0, column => min column line.body.length
  | line :: rest, number + 1, column => line.text.length + offset rest number column

/-- The offset of a place in the upper lines does not depend on the lower ones. -/
theorem offset_append_left {upper : List Line} {number : Nat} (above : number < upper.length)
    (lower : List Line) (column : Nat) :
    offset (upper ++ lower) number column = offset upper number column := by
  induction upper generalizing number with
  | nil => simp at above
  | cons line rest inductionHypothesis =>
    cases number with
    | zero => rfl
    | succ number =>
      simp only [List.cons_append, offset]
      rw [inductionHypothesis (by simpa using above)]

/-- The offset of a place in the lower lines is counted from the end of the upper ones. -/
theorem offset_append_right (upper lower : List Line) (number column : Nat) :
    offset (upper ++ lower) (upper.length + number) column =
      (joined upper).length + offset lower number column := by
  induction upper with
  | nil => simp
  | cons line rest inductionHypothesis =>
    rw [List.cons_append, List.length_cons, Nat.add_right_comm, offset, inductionHypothesis,
      joined_cons, List.length_append, Nat.add_assoc]

/-- No place lies behind the end of the text. -/
theorem offset_le (lines : List Line) (number column : Nat) :
    offset lines number column ≤ (joined lines).length := by
  induction lines generalizing number with
  | nil => simp [offset]
  | cons line rest inductionHypothesis =>
    cases number with
    | zero =>
      simp only [offset, joined_cons, List.length_append, text]
      omega
    | succ number =>
      have below := inductionHypothesis number
      simp only [offset, joined_cons, List.length_append]
      omega

/-! ## Cutting inside the first line -/

/-- Columns that are clamped to the body of a line take what stands before them there. -/
theorem take_body (line : Line) (rest : List Char) (column : Nat) :
    (line.text ++ rest).take (min column line.body.length) = line.body.take column := by
  rw [text, List.append_assoc, List.take_append_of_le_length (Nat.min_le_right _ _),
    ← List.take_eq_take_min]

/-- Columns that are clamped to the body of a line leave the rest of it, with its terminator. -/
theorem drop_body (line : Line) (rest : List Char) (column : Nat) :
    (line.text ++ rest).drop (min column line.body.length) =
      line.body.drop column ++ line.terminator ++ rest := by
  rw [text, List.append_assoc, List.drop_append_of_le_length (Nat.min_le_right _ _),
    ← List.drop_eq_drop_min, List.append_assoc]

/-- A column past the end of a body is as good as its end. -/
theorem drop_take_body (line : Line) (finish column : Nat) :
    (line.body.take finish).drop (min column line.body.length) =
      (line.body.take finish).drop column := by
  rcases Nat.le_total column line.body.length with within | beyond
  · rw [Nat.min_eq_left within]
  · have short : (line.body.take finish).length ≤ line.body.length := List.length_take_le' ..
    rw [Nat.min_eq_right beyond, List.drop_eq_nil_of_le short,
      List.drop_eq_nil_of_le (Nat.le_trans short beyond)]

end Line

/-- The number of characters before a position of lines. -/
def Position.offset (position : Position) (lines : List Line) : Nat :=
  Line.offset lines position.line.toNat position.column.toNat

namespace Splice

open Line (joined)

variable {splice : Splice} {number : Nat}

/-- Lines after the resumption are kept. -/
theorem ofLines_of_lt (past : splice.resume.line.toNat < number) (lines : List Line) :
    splice.ofLines number lines = joined lines := by
  induction lines generalizing number with
  | nil => rfl
  | cons line rest inductionHypothesis =>
    simp [ofLines, ofLine, past, inductionHypothesis (Nat.lt_succ_of_lt past)]

/-- Lines below the cut are kept from the resumption on. -/
theorem ofLines_resuming {lines : List Line} {distance : Nat}
    (below : splice.cut.line.toNat < number)
    (resumed : splice.resume.line.toNat = number + distance) (inside : distance < lines.length) :
    splice.ofLines number lines =
      (joined lines).drop (Line.offset lines distance splice.resume.column.toNat) := by
  induction lines generalizing number distance with
  | nil => simp at inside
  | cons line rest inductionHypothesis =>
    cases distance with
    | zero =>
      have here : splice.resume.line.toNat = number := by omega
      have past : splice.resume.line.toNat < number + 1 := by omega
      rw [ofLines, ofLines_of_lt past, Line.joined_cons, Line.offset, Line.drop_body]
      simp [ofLine, here, Nat.not_lt.mpr (Nat.le_of_lt below), Nat.ne_of_gt below]
    | succ distance =>
      have between : ¬ splice.resume.line.toNat < number := by omega
      have notResumed : number ≠ splice.resume.line.toNat := by omega
      have nothing : splice.ofLine number line = [] := by
        simp [ofLine, Nat.not_lt.mpr (Nat.le_of_lt below), between, Nat.ne_of_gt below, notResumed]
      have resumedBelow : splice.resume.line.toNat = number + 1 + distance := by omega
      have further := inductionHypothesis (Nat.lt_succ_of_lt below) resumedBelow
        (by simpa using inside)
      rw [ofLines, nothing, further, Line.joined_cons, Line.offset, List.nil_append,
        List.drop_length_add_append]

/-- A splice that does not resume above its cut keeps what stands before the one and
after the other. -/
theorem ofLines_eq {lines : List Line} {above distance : Nat}
    (started : splice.cut.line.toNat = number + above)
    (resumed : splice.resume.line.toNat = number + distance) (downward : above ≤ distance)
    (inside : distance < lines.length) :
    splice.ofLines number lines =
      (joined lines).take (Line.offset lines above splice.cut.column.toNat)
        ++ splice.replacement
        ++ (joined lines).drop (Line.offset lines distance splice.resume.column.toNat) := by
  induction lines generalizing number above distance with
  | nil => simp at inside
  | cons line rest inductionHypothesis =>
    cases distance with
    | zero =>
      have cutHere : splice.cut.line.toNat = number := by omega
      have resumedHere : splice.resume.line.toNat = number := by omega
      have past : splice.resume.line.toNat < number + 1 := by omega
      obtain rfl : above = 0 := by omega
      rw [ofLines, ofLines_of_lt past, Line.joined_cons, Line.offset, Line.offset,
        Line.take_body, Line.drop_body]
      simp [ofLine, cutHere, resumedHere]
    | succ distance =>
      have insideRest : distance < rest.length := by simpa using inside
      cases above with
      | zero =>
        have cutHere : splice.cut.line.toNat = number := by omega
        have later : number < splice.resume.line.toNat := by omega
        have cutAbove : splice.cut.line.toNat < number + 1 := by omega
        have resumedBelow : splice.resume.line.toNat = number + 1 + distance := by omega
        have resuming := ofLines_resuming cutAbove resumedBelow insideRest
        rw [ofLines, resuming, Line.joined_cons, Line.offset, Line.offset, Line.take_body,
          List.drop_length_add_append]
        simp [ofLine, cutHere, Nat.not_lt.mpr (Nat.le_of_lt later), Nat.ne_of_lt later]
      | succ above =>
        have early : number < splice.cut.line.toNat := by omega
        have startedBelow : splice.cut.line.toNat = number + 1 + above := by omega
        have resumedBelow : splice.resume.line.toNat = number + 1 + distance := by omega
        have further := inductionHypothesis startedBelow resumedBelow
          (Nat.le_of_succ_le_succ downward) insideRest
        rw [ofLines, further, Line.joined_cons, Line.offset, Line.offset,
          List.take_length_add_append, List.drop_length_add_append]
        simp [ofLine, early]

/-- A splice of lines is a splice of their text between the offsets of its cut and its
resumption. -/
theorem apply_eq {lines : List Line}
    (downward : splice.cut.line.toNat ≤ splice.resume.line.toNat)
    (inside : splice.resume.line.toNat < lines.length) :
    splice.apply lines =
      .ok ((joined lines).take (splice.cut.offset lines) ++ splice.replacement
        ++ (joined lines).drop (splice.resume.offset lines)) := by
  rw [apply, if_pos inside,
    ofLines_eq (Nat.zero_add _).symm (Nat.zero_add _).symm downward inside]
  rfl

/-- A splice that resumes below the last line is refused with the number of lines. -/
theorem apply_eq_error {lines : List Line}
    (outside : lines.length ≤ splice.resume.line.toNat) :
    splice.apply lines = .error (.rangeOutOfBounds splice.resume.line.toNat lines.length) :=
  if_neg (Nat.not_lt.mpr outside)

end Splice

namespace Position

/-- The next column is on the same line. -/
@[simp]
theorem nextColumn_line (position : Position) : position.nextColumn.line = position.line := by
  unfold nextColumn
  split <;> rfl

/-- But for the last column, the next one is one further. -/
theorem nextColumn_column {position : Position}
    (counted : position.column.toNat + 1 < UInt64.size) :
    position.nextColumn.column.toNat = position.column.toNat + 1 := by
  rw [nextColumn, if_pos counted, UInt64.toNat_add]
  exact Nat.mod_eq_of_lt counted

/-- Positions compare by line, then by column. -/
theorem le_iff {left right : Position} :
    left ≤ right ↔ left.line.toNat < right.line.toNat ∨
      left.line.toNat = right.line.toNat ∧ left.column.toNat ≤ right.column.toNat := by
  rw [UInt64.toNat_inj]
  rfl

end Position

namespace Range

open Line (joined)

/-- The part of lines, of which the first has the given number, that a range
spans. -/
def ofLines (range : Range) : Nat → List Line → List Char
  | _, [] => []
  | number, line :: rest => range.ofLine number line ++ range.ofLines (number + 1) rest

/-- The text that a range spans. -/
def extract (range : Range) (lines : List Line) : Except Error (List Char) :=
  if range.last.line.toNat < lines.length then .ok (range.ofLines 0 lines)
  else .error (.rangeOutOfBounds range.last.line.toNat lines.length)

variable {range : Range} {number : Nat}

/-- A range does not end on a line above the one it starts on. -/
theorem line_le (range : Range) : range.first.line.toNat ≤ range.last.line.toNat := by
  have ordered := Position.le_iff.mp range.ordered
  omega

/-- A range spans nothing of the lines below its last one. -/
theorem ofLines_of_lt (past : range.last.line.toNat < number) (lines : List Line) :
    range.ofLines number lines = [] := by
  induction lines generalizing number with
  | nil => rfl
  | cons line rest inductionHypothesis =>
    simp [ofLines, ofLine, past, inductionHypothesis (Nat.lt_succ_of_lt past)]

/-- Below the line it starts on, a range spans lines up to its end. -/
theorem ofLines_ending {lines : List Line} {distance : Nat}
    (below : range.first.line.toNat < number)
    (ended : range.last.line.toNat = number + distance) (inside : distance < lines.length) :
    range.ofLines number lines =
      (joined lines).take (Line.offset lines distance range.last.nextColumn.column.toNat) := by
  induction lines generalizing number distance with
  | nil => simp at inside
  | cons line rest inductionHypothesis =>
    cases distance with
    | zero =>
      have here : range.last.line.toNat = number := by omega
      have past : range.last.line.toNat < number + 1 := by omega
      rw [ofLines, ofLines_of_lt past, Line.joined_cons, Line.offset, Line.take_body]
      simp [ofLine, here, Nat.not_lt.mpr (Nat.le_of_lt below), Nat.ne_of_gt below]
    | succ distance =>
      have later : number < range.last.line.toNat := by omega
      have endedBelow : range.last.line.toNat = number + 1 + distance := by omega
      have further := inductionHypothesis (Nat.lt_succ_of_lt below) endedBelow
        (by simpa using inside)
      rw [ofLines, further, Line.joined_cons, Line.offset, List.take_length_add_append]
      simp [ofLine, Nat.not_lt.mpr (Nat.le_of_lt below), Nat.not_lt.mpr (Nat.le_of_lt later),
        Nat.ne_of_gt below, Nat.ne_of_lt later, Line.text]

/-- A range spans what stands between its ends. -/
theorem ofLines_eq {lines : List Line} {above distance : Nat}
    (started : range.first.line.toNat = number + above)
    (ended : range.last.line.toNat = number + distance) (downward : above ≤ distance)
    (inside : distance < lines.length) :
    range.ofLines number lines =
      ((joined lines).take (Line.offset lines distance range.last.nextColumn.column.toNat)).drop
        (Line.offset lines above range.first.column.toNat) := by
  induction lines generalizing number above distance with
  | nil => simp at inside
  | cons line rest inductionHypothesis =>
    cases distance with
    | zero =>
      have startedHere : range.first.line.toNat = number := by omega
      have endedHere : range.last.line.toNat = number := by omega
      have past : range.last.line.toNat < number + 1 := by omega
      obtain rfl : above = 0 := by omega
      rw [ofLines, ofLines_of_lt past, Line.joined_cons, Line.offset, Line.offset,
        Line.take_body, Line.drop_take_body]
      simp [ofLine, startedHere, endedHere]
    | succ distance =>
      have insideRest : distance < rest.length := by simpa using inside
      cases above with
      | zero =>
        have startedHere : range.first.line.toNat = number := by omega
        have later : number < range.last.line.toNat := by omega
        have startedAbove : range.first.line.toNat < number + 1 := by omega
        have endedBelow : range.last.line.toNat = number + 1 + distance := by omega
        have ending := ofLines_ending startedAbove endedBelow insideRest
        rw [ofLines, ending, Line.joined_cons, Line.offset, Line.offset,
          List.take_length_add_append, Line.drop_body]
        simp [ofLine, startedHere, Nat.not_lt.mpr (Nat.le_of_lt later), Nat.ne_of_lt later]
      | succ above =>
        have early : number < range.first.line.toNat := by omega
        have startedBelow : range.first.line.toNat = number + 1 + above := by omega
        have endedBelow : range.last.line.toNat = number + 1 + distance := by omega
        have further := inductionHypothesis startedBelow endedBelow
          (Nat.le_of_succ_le_succ downward) insideRest
        rw [ofLines, further, Line.joined_cons, Line.offset, Line.offset,
          List.take_length_add_append, List.drop_length_add_append]
        simp [ofLine, early]

/-- What a range spans of lines is what stands in their text between the offsets of its
first position and of the place behind its last one. -/
theorem extract_eq {lines : List Line} (inside : range.last.line.toNat < lines.length) :
    range.extract lines =
      .ok (((joined lines).take (range.last.nextColumn.offset lines)).drop
        (range.first.offset lines)) := by
  rw [extract, if_pos inside,
    ofLines_eq (Nat.zero_add _).symm (Nat.zero_add _).symm range.line_le inside,
    Position.offset, Position.offset, Position.nextColumn_line]

end Range

/-! ## Texts -/

/-- What stands before a position of a text. -/
def Position.before (position : Position) (content : List Char) : List Char :=
  content.take (position.offset (Line.ofChars content))

/-- What stands in a text from a position on. -/
def Position.behind (position : Position) (content : List Char) : List Char :=
  content.drop (position.offset (Line.ofChars content))

/-- What a range spans of a text. -/
def Range.spanned (range : Range) (content : List Char) : List Char :=
  (range.last.nextColumn.before content).drop (range.first.offset (Line.ofChars content))

/-- Put a text before the character at a position of a text. -/
def insertInText (content : String) (position : Position) (text : String) :
    Except Error String :=
  (Splice.inserting position text |>.apply (Line.ofChars content.toList)).map String.ofList

/-- As many characters stand before a position as its offset counts. -/
theorem Position.length_before (position : Position) (content : List Char) :
    (position.before content).length = position.offset (Line.ofChars content) := by
  have bound := Line.offset_le (Line.ofChars content) position.line.toNat position.column.toNat
  rw [Line.joined_ofChars] at bound
  exact List.length_take_of_le bound

/-- A position at the length of a front of a text stands behind that front. -/
theorem Position.before_eq_of_offset {position : Position} {front rest : List Char}
    (reached : position.offset (Line.ofChars (front ++ rest)) = front.length) :
    position.before (front ++ rest) = front ∧ position.behind (front ++ rest) = rest := by
  rw [before, behind, reached, List.take_left, List.drop_left]
  exact ⟨rfl, rfl⟩

/-- Extracting a range of a text gives what it spans. -/
theorem Range.extract_ofChars {content : List Char} {range : Range}
    (inside : range.last.line.toNat < (Line.ofChars content).length) :
    range.extract (Line.ofChars content) = .ok (range.spanned content) := by
  rw [extract_eq inside, Line.joined_ofChars]
  rfl

/-- Replacing a range of a text keeps what stands before and behind the range. -/
theorem replaceInText_eq {content : String} {range : Range} (replacement : String)
    (inside : range.last.line.toNat < (Line.ofChars content.toList).length) :
    replaceInText content range replacement =
      .ok (String.ofList (range.first.before content.toList ++ replacement.toList
        ++ range.last.nextColumn.behind content.toList)) := by
  have resumes : (Splice.replacing range replacement).resume.line = range.last.line :=
    Position.nextColumn_line _
  have downward : (Splice.replacing range replacement).cut.line.toNat ≤
      (Splice.replacing range replacement).resume.line.toNat := by
    rw [resumes]
    exact range.line_le
  rw [replaceInText, Splice.apply_eq downward (by rwa [resumes]), Line.joined_ofChars]
  rfl

/-- Inserting into a text keeps all of it around the position. -/
theorem insertInText_eq {content : String} {position : Position} (text : String)
    (inside : position.line.toNat < (Line.ofChars content.toList).length) :
    insertInText content position text =
      .ok (String.ofList (position.before content.toList ++ text.toList
        ++ position.behind content.toList)) := by
  rw [insertInText, Splice.apply_eq (Nat.le_refl _) inside, Line.joined_ofChars]
  rfl

/-- A position on a line that a text does not have takes no insertion. -/
theorem insertInText_eq_error {content : String} {position : Position} (text : String)
    (outside : (Line.ofChars content.toList).length ≤ position.line.toNat) :
    insertInText content position text =
      .error (.rangeOutOfBounds position.line.toNat (Line.ofChars content.toList).length) := by
  rw [insertInText, Splice.apply_eq_error outside]
  rfl

end ElmWorkbench
