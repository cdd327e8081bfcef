import ElmWorkbench.Proofs.Edit.Cut
/-!
# Edits from the bottom up

Of two ranges of a text that do not meet, the lower one can be replaced first: the places
of the upper one keep their offsets, so both replacements together give the text in which
the two ranges are replaced at once (`replaceInText_upper_after_lower`).
-/

namespace ElmWorkbench

/-! ## Offsets behind the last column -/

/-- Columns that lie behind every character of the lines all stand for the end of a
line. -/
theorem Line.offset_clamped {lines : List Line} {column column' : Nat}
    (beyond : (joined lines).length ≤ column) (beyond' : (joined lines).length ≤ column')
    (number : Nat) : offset lines number column = offset lines number column' := by
  induction lines generalizing number with
  | nil => rfl
  | cons line rest inductionHypothesis =>
    rw [joined_cons, List.length_append] at beyond beyond'
    cases number with
    | zero =>
      have body : line.body.length ≤ line.text.length := by simp [text]
      rw [offset, offset, Nat.min_eq_right (by omega), Nat.min_eq_right (by omega)]
    | succ number =>
      rw [offset, offset, inductionHypothesis (by omega) (by omega)]

namespace Position

/-- Positions are strictly ordered by line, then by column. -/
protected def lt (left right : Position) : Prop :=
  left.line < right.line ∨ (left.line = right.line ∧ left.column < right.column)

instance : LT Position := ⟨Position.lt⟩

instance (left right : Position) : Decidable (left < right) :=
  inferInstanceAs (Decidable (left.line < right.line ∨ _))

/-- A position is before another one by its line, or by its column on one line. -/
theorem lt_iff {left right : Position} :
    left < right ↔ left.line.toNat < right.line.toNat ∨
      left.line.toNat = right.line.toNat ∧ left.column.toNat < right.column.toNat := by
  rw [UInt64.toNat_inj]
  rfl

/-- The next column is at most one further. -/
theorem nextColumn_column_le (position : Position) :
    position.nextColumn.column.toNat ≤ position.column.toNat + 1 := by
  by_cases counted : position.column.toNat + 1 < UInt64.size
  · rw [nextColumn_column counted]
  · rw [nextColumn, if_neg counted]
    exact Nat.le_succ _

end Position

/-- The number of characters of lines up to the end of a range, its last position
included. -/
def Range.endOffset (range : Range) (lines : List Line) : Nat :=
  Line.offset lines range.last.line.toNat (range.last.column.toNat + 1)

/-- The last column has no next one, but no line is long enough to reach it. -/
theorem Range.nextColumn_offset (range : Range) {content : List Char}
    (counted : content.length < UInt64.size) :
    range.last.nextColumn.offset (Line.ofChars content) =
      range.endOffset (Line.ofChars content) := by
  rw [Position.offset, Position.nextColumn_line, endOffset]
  by_cases further : range.last.column.toNat + 1 < UInt64.size
  · rw [Position.nextColumn_column further]
  · rw [Position.nextColumn, if_neg further]
    have length := congrArg List.length (Line.joined_ofChars content)
    exact Line.offset_clamped (by omega) (by omega) _

/-! ## Two ranges -/

/-- A text with two ranges replaced at once. All offsets are those of the text before. -/
def replaceBoth (content : List Char) (upper lower : Range) (above below : List Char) :
    List Char :=
  let lines := Line.ofChars content
  content.take (upper.first.offset lines) ++ above
    ++ (content.take (lower.first.offset lines)).drop (upper.endOffset lines) ++ below
    ++ content.drop (lower.endOffset lines)

section BottomUp

variable {content : List Char} {line : Line}

/-- Places before a position keep their offsets, whatever follows the text before the
position. Where carriage returns only stand before newlines, the body of the line before
the position does not end with one. -/
theorem Position.offset_kept {position : Position} (paired : Line.returnsPaired content)
    (found : (Line.ofChars content)[position.line.toNat]? = some line)
    (within : position.column.toNat ≤ line.body.length) (rest : List Char) (number column : Nat)
    (early : number < position.line.toNat ∨
      number = position.line.toNat ∧ column ≤ position.column.toNat ∧
        0 < position.column.toNat) :
    Line.offset (Line.ofChars (position.before content ++ rest)) number column =
        Line.offset (Line.ofChars content) number column ∧
      number < (Line.ofChars (position.before content ++ rest)).length := by
  rcases early with above | ⟨rfl, reached, positive⟩
  · refine ⟨offset_above found rest above column, ?_⟩
    rw [before_eq found, List.append_assoc, Line.length_below (Line.lt_length_of_found found)]
    omega
  · have continued : line.body.take position.column.toNat ++ rest ≠ [] := by
      intro empty
      have nothing := congrArg List.length (List.append_eq_nil_iff.mp empty).1
      rw [List.length_take_of_le within, List.length_nil] at nothing
      omega
    have whole : ¬ Line.PartsReturn (line.body.take position.column.toNat) rest :=
      fun parted => getLast?_opening_ne paired found parted.1
    exact ⟨offset_beside found within whole continued reached,
      lt_length_before_append found continued⟩

/-- A range that ends before a position can be replaced in a text that only agrees with
the old one before the position. -/
theorem replaceInText_before {position : Position} {range : Range}
    (paired : Line.returnsPaired content)
    (found : (Line.ofChars content)[position.line.toNat]? = some line)
    (within : position.column.toNat ≤ line.body.length) (apart : range.last < position)
    (rest : List Char) (replacement : String) :
    replaceInText (String.ofList (position.before content ++ rest)) range replacement =
      .ok (String.ofList (range.first.before content ++ replacement.toList
        ++ ((position.before content).drop (range.last.nextColumn.offset (Line.ofChars content))
          ++ rest))) := by
  have ordered := Position.le_iff.mp range.ordered
  have further := range.last.nextColumn_column_le
  rw [Position.lt_iff] at apart
  obtain ⟨firstKept, -⟩ := Position.offset_kept paired found within rest
    range.first.line.toNat range.first.column.toNat (by omega)
  obtain ⟨lastKept, inside⟩ := Position.offset_kept paired found within rest
    range.last.line.toNat range.last.nextColumn.column.toNat (by omega)
  have finish : range.last.nextColumn.offset (Line.ofChars content) ≤
      (position.before content).length := by
    rw [Position.length_before]
    refine Line.offset_mono _ ?_
    rw [Position.nextColumn_line]
    omega
  have start := Nat.le_trans (range.offset_le _) finish
  have front : range.first.before (position.before content ++ rest) =
      range.first.before content := by
    rw [Position.before, Position.offset, firstKept, ← Position.offset,
      List.take_append_of_le_length start, Position.before, List.take_take, Position.before,
      Nat.min_eq_left (Nat.le_trans start (List.length_take_le ..))]
  have back : range.last.nextColumn.behind (position.before content ++ rest) =
      (position.before content).drop (range.last.nextColumn.offset (Line.ofChars content))
        ++ rest := by
    rw [Position.behind, Position.offset, Position.nextColumn_line, lastKept,
      ← Position.nextColumn_line, ← Position.offset, List.drop_append_of_le_length finish]
  rw [replaceInText_eq _ (by rwa [String.toList_ofList]), String.toList_ofList, front, back]

/-- Replacing the lower of two ranges first leaves the upper one where it was, where
carriage returns only stand before newlines. A text has fewer characters than there are
columns. -/
theorem replaceInText_upper_after_lower {content : String} {upper lower : Range}
    (paired : Line.returnsPaired content.toList)
    (found : (Line.ofChars content.toList)[lower.first.line.toNat]? = some line)
    (within : lower.first.column.toNat ≤ line.body.length)
    (inside : lower.last.line.toNat < (Line.ofChars content.toList).length)
    (apart : upper.last < lower.first) (counted : content.length < UInt64.size)
    (above below : String) :
    ∃ edited, replaceInText content lower below = .ok edited ∧
      replaceInText edited upper above =
        .ok (String.ofList
          (replaceBoth content.toList upper lower above.toList below.toList)) := by
  refine ⟨_, replaceInText_eq below inside, ?_⟩
  rw [← String.length_toList] at counted
  rw [List.append_assoc, replaceInText_before paired found within apart, replaceBoth,
    ← upper.nextColumn_offset counted, ← lower.nextColumn_offset counted]
  simp only [Position.before, Position.behind, List.append_assoc]

/-- Two ranges of one line, the lower one with the terminator of the line. -/
theorem replaceInText_upper_after_lower_beside :
    ∃ edited, replaceInText "ab\r\ncd" ⟨⟨0, 1⟩, ⟨1, 0⟩, by decide⟩ "\nX" = .ok edited ∧
      replaceInText edited ⟨⟨0, 0⟩, ⟨0, 0⟩, by decide⟩ "Y\r\n" =
        .ok (String.ofList (replaceBoth "ab\r\ncd".toList ⟨⟨0, 0⟩, ⟨0, 0⟩, by decide⟩
          ⟨⟨0, 1⟩, ⟨1, 0⟩, by decide⟩ "Y\r\n".toList "\nX".toList)) :=
  have found : (Line.ofChars "ab\r\ncd".toList)[0]? = some ⟨['a', 'b'], ['\r', '\n']⟩ := rfl
  replaceInText_upper_after_lower (by decide) found (by decide) (by decide) (by decide)
    (by decide) _ _

end BottomUp

end ElmWorkbench
