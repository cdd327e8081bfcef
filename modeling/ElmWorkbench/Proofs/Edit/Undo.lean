import ElmWorkbench.Proofs.Edit.Cut
import ElmWorkbench.Proofs.Edit.Extraction
/-!
# Edits that can be undone

A replacement is undone by putting the captured text over the place that the replacement
covers (`replaceInText_restores_captured`). A deletion is undone by inserting the
captured text, unless nothing is left of the line that it started on
(`insertInText_restores_deleted`).
-/

namespace ElmWorkbench

namespace Line

/-- The last segment of a text is a part of it. -/
theorem length_lastSegment_le (characters : List Char) :
    (lastSegment characters).length ≤ characters.length := by
  rw [lastSegment, List.length_reverse]
  exact Nat.le_trans (List.takeWhile_prefix _).length_le (by simp)

/-- A text that does not end with a newline has a last segment. -/
theorem lastSegment_ne_nil {text : List Char} (nonempty : text ≠ [])
    (closed : text.getLast? ≠ some '\n') (before : List Char) :
    lastSegment (before ++ text) ≠ [] := by
  rcases List.eq_nil_or_concat text with rfl | ⟨front, last, rfl⟩
  · exact absurd rfl nonempty
  · rw [List.concat_eq_append] at closed ⊢
    have other : '\n' ∉ [last] := by simpa [eq_comm] using closed
    rw [← List.append_assoc, lastSegment_append_of_not_mem other]
    simp

end Line

namespace Range

/-- A range covers a text that has been put at a position: it starts there and ends on
the last character of the text. Each newline of the text moves the end one line down,
and behind the last of them columns are counted afresh. -/
structure Covers (range : Range) (position : Position) (text : List Char) : Prop where
  starts : range.first = position
  endLine : range.last.line.toNat = position.line.toNat + text.count '\n'
  endColumn : range.last.column.toNat + 1 =
    if '\n' ∈ text then (Line.lastSegment text).length else position.column.toNat + text.length

/-- The end of a covered text is counted from the opening of the line it starts on. -/
theorem Covers.endColumn_eq {range : Range} {position : Position} {text opening : List Char}
    (covers : range.Covers position text) (absent : '\n' ∉ opening)
    (reached : opening.length = position.column.toNat) :
    range.last.column.toNat + 1 = (Line.lastSegment (opening ++ text)).length := by
  rw [covers.endColumn]
  split
  · next broken => rw [Line.lastSegment_append_of_mem broken]
  · next whole =>
    rw [Line.lastSegment_append_of_not_mem whole, Line.lastSegment_of_not_mem absent,
      List.length_append, reached]

/-- Some range covers a text that has been put at a position, if its lines and columns can be
counted. -/
theorem exists_covers (position : Position) {text : List Char} (nonempty : text ≠ [])
    (closed : text.getLast? ≠ some '\n')
    (linesCounted : position.line.toNat + text.length < UInt64.size)
    (columnsCounted : position.column.toNat + text.length < UInt64.size) :
    ∃ range : Range, range.Covers position text := by
  have newlines : text.count '\n' ≤ text.length := List.count_le_length
  have short := Line.length_lastSegment_le text
  have positive : 0 < text.length := List.length_pos_iff.mpr nonempty
  have segment : 0 < (Line.lastSegment text).length :=
    List.length_pos_iff.mpr (Line.lastSegment_ne_nil nonempty closed [])
  obtain ⟨column, columnEq⟩ : ∃ column, column + 1 =
      if '\n' ∈ text then (Line.lastSegment text).length
      else position.column.toNat + text.length := by
    refine ⟨_, Nat.sub_add_cancel ?_⟩
    split <;> omega
  have columnBound : column < UInt64.size := by split at columnEq <;> omega
  have line : (UInt64.ofNat (position.line.toNat + text.count '\n')).toNat =
      position.line.toNat + text.count '\n' := UInt64.toNat_ofNat_of_lt' (by omega)
  have ordered : position ≤ { line := .ofNat (position.line.toNat + text.count '\n')
                              column := .ofNat column } := by
    rw [Position.le_iff, line, UInt64.toNat_ofNat_of_lt' columnBound]
    by_cases broken : '\n' ∈ text
    · have some := List.count_pos_iff.mpr broken
      exact .inl (by omega)
    · rw [if_neg broken] at columnEq
      exact .inr (by rw [List.count_eq_zero.mpr broken]; omega)
  refine ⟨⟨position, _, ordered⟩, rfl, line, ?_⟩
  rw [UInt64.toNat_ofNat_of_lt' columnBound, columnEq]

/-- A range that starts a line and has nothing of the text behind it. Removing it leaves
no line at its start. -/
def TakesRest (range : Range) (content : List Char) : Prop :=
  range.first.column = 0 ∧ range.last.nextColumn.behind content = []

end Range

section Undoing

variable {content : String} {range : Range} {line : Line}

/-- The numbers of a place in a text are bounded by the length of the text. -/
theorem position_counted (found : (Line.ofChars content.toList)[range.first.line.toNat]? = some line)
    (within : range.first.column.toNat ≤ line.body.length) :
    range.first.line.toNat ≤ content.length ∧ range.first.column.toNat ≤ content.length := by
  have lines := Line.length_ofChars_le content.toList
  have proper := Line.lt_length_of_found found
  have offset := Line.offset_of_le found within
  have bound := Line.offset_le (Line.ofChars content.toList) range.first.line.toNat
    range.first.column.toNat
  rw [Line.joined_ofChars] at bound
  rw [← String.length_toList]
  omega

/-- Replacing what a range covers takes out just the text that was put there. The two ends
of that text must not be taken for parts of terminators. -/
theorem replaceInText_covered {content : List Char} {position : Position} {restored : Range}
    {text : List Char} {line : Line}
    (found : (Line.ofChars content)[position.line.toNat]? = some line)
    (within : position.column.toNat ≤ line.body.length) (nonempty : text ≠ [])
    (closed : text.getLast? ≠ some '\n') (ended : text.getLast? ≠ some '\r')
    (opened : (line.body.take position.column.toNat).getLast? = some '\r' →
      text.head? ≠ some '\n')
    (covers : restored.Covers position text)
    (counted : restored.last.column.toNat + 1 < UInt64.size) (behind : List Char)
    (replacement : String) :
    restored.last.line.toNat <
        (Line.ofChars (position.before content ++ text ++ behind)).length ∧
      replaceInText (String.ofList (position.before content ++ text ++ behind)) restored
        replacement =
          .ok (String.ofList (position.before content ++ replacement.toList ++ behind)) := by
  have start : restored.first.offset
      (Line.ofChars (position.before content ++ (text ++ behind))) =
        (position.before content).length := by
    rw [covers.starts, Position.length_before]
    refine Position.offset_beside found within ?_ (by simp [nonempty]) (Nat.le_refl _)
    rw [Line.partsReturn_append_right nonempty]
    rintro ⟨returned, newline⟩
    exact opened returned newline
  -- Neither end of the text parts a carriage return from its newline, so both offsets are those
  -- of the places between the characters.
  have whole : ¬ Line.PartsReturn (line.body.take position.column.toNat ++ text) behind := by
    rw [Line.partsReturn_append_left nonempty]
    rintro ⟨returned, -⟩
    exact ended returned
  have finish := Position.offset_finish found text whole
    (by simp [Line.lastSegment_ne_nil nonempty closed])
  rw [← covers.endLine, ← covers.endColumn_eq (Position.newline_not_mem_opening found)
    (List.length_take_of_le within), ← Position.nextColumn_column counted] at finish
  obtain ⟨finish, inside⟩ := finish
  have finishOffset : restored.last.nextColumn.offset
      (Line.ofChars (position.before content ++ text ++ behind)) =
        (position.before content ++ text).length := by
    rw [Position.offset, Position.nextColumn_line]
    exact finish
  refine ⟨inside, ?_⟩
  rw [replaceInText_eq _ (by rwa [String.toList_ofList]), String.toList_ofList,
    (Position.before_eq_of_offset finishOffset).2, List.append_assoc (position.before content),
    (Position.before_eq_of_offset start).1]

/-- What a replacement has overwritten can be put back: the text that has been read of the
range, put over the range that covers the replacement, gives the old text again. The
replacement must be a text whose two ends are not taken for part of a terminator: it
does not end with a newline or a carriage return, and does not start with a newline
right behind a carriage return. Together the texts have fewer characters than there are
columns. -/
theorem replaceInText_restores_captured {replacement : String}
    (found : (Line.ofChars content.toList)[range.first.line.toNat]? = some line)
    (within : range.first.column.toNat ≤ line.body.length)
    (inside : range.last.line.toNat < (Line.ofChars content.toList).length)
    (nonempty : replacement ≠ "") (closed : replacement.toList.getLast? ≠ some '\n')
    (ended : replacement.toList.getLast? ≠ some '\r')
    (opened : (line.body.take range.first.column.toNat).getLast? = some '\r' →
      replacement.toList.head? ≠ some '\n')
    (counted : content.length + replacement.length < UInt64.size) :
    ∃ captured edited restored,
      range.IsRead content (.ok captured) ∧
      replaceInText content range replacement = .ok edited ∧
      restored.Covers range.first replacement.toList ∧
      restored.last.line.toNat < (Line.ofChars edited.toList).length ∧
      replaceInText edited restored captured = .ok content := by
  have nonemptyList : replacement.toList ≠ [] := by simpa using nonempty
  obtain ⟨linesCounted, columnsCounted⟩ := position_counted found within
  have length := String.length_toList (s := replacement)
  obtain ⟨restored, covers⟩ := Range.exists_covers range.first nonemptyList closed
    (by omega) (by omega)
  have finish : restored.last.column.toNat + 1 < UInt64.size := by
    have short := Line.length_lastSegment_le replacement.toList
    rw [covers.endColumn]
    split <;> omega
  have parts := range.before_append_spanned_append_behind content.toList
  obtain ⟨insideEdited, putBack⟩ := replaceInText_covered found within nonemptyList closed ended
    opened covers finish (range.last.nextColumn.behind content.toList)
    (String.ofList (range.spanned content.toList))
  refine ⟨_, _, restored, Range.isRead_spanned inside, replaceInText_eq replacement inside, covers,
    ?_, ?_⟩
  · rw [String.toList_ofList]
    exact insideEdited
  · rw [putBack, String.toList_ofList, parts, String.ofList_toList]

/-- A text with a lone carriage return, of which parts of two lines are replaced and put
back. -/
theorem replaceInText_restores_captured_after_return :
    ∃ captured edited restored,
      Range.IsRead ⟨⟨0, 2⟩, ⟨1, 0⟩, by decide⟩ "a\rb\r\ncd" (.ok captured) ∧
      replaceInText "a\rb\r\ncd" ⟨⟨0, 2⟩, ⟨1, 0⟩, by decide⟩ "X\nY" = .ok edited ∧
      Range.Covers restored ⟨0, 2⟩ "X\nY".toList ∧
      restored.last.line.toNat < (Line.ofChars edited.toList).length ∧
      replaceInText edited restored captured = .ok "a\rb\r\ncd" :=
  have found : (Line.ofChars "a\rb\r\ncd".toList)[0]? =
      some ⟨['a', '\r', 'b'], ['\r', '\n']⟩ := rfl
  replaceInText_restores_captured found (by decide) (by decide) (by decide) (by decide)
    (by decide) (by decide) (by decide)

/-- A text that is inserted where another one has been cut stands between the two halves, if
the cut does not part a terminator and leaves something of its line. -/
theorem insertInText_between {content : List Char} {position : Position} {rest : List Char}
    {line : Line} (found : (Line.ofChars content)[position.line.toNat]? = some line)
    (within : position.column.toNat ≤ line.body.length)
    (whole : ¬ Line.PartsReturn (line.body.take position.column.toNat) rest)
    (continued : line.body.take position.column.toNat ++ rest ≠ []) (text : String) :
    insertInText (String.ofList (position.before content ++ rest)) position text =
      .ok (String.ofList (position.before content ++ text.toList ++ rest)) := by
  have start : position.offset (Line.ofChars (position.before content ++ rest)) =
      (position.before content).length := by
    rw [Position.length_before]
    exact Position.offset_beside found within whole continued (Nat.le_refl _)
  have inside := Position.lt_length_before_append found continued
  obtain ⟨front, back⟩ := Position.before_eq_of_offset start
  rw [insertInText_eq _ (by rwa [String.toList_ofList]), String.toList_ofList, front, back]

/-- Without the rest of a text from the start of a line, that line is the first one missing. -/
theorem Range.TakesRest.length_eq {content : List Char}
    (takes : range.TakesRest content)
    (found : (Line.ofChars content)[range.first.line.toNat]? = some line) :
    (Line.ofChars (range.first.before content ++ range.last.nextColumn.behind content)).length =
      range.first.line.toNat := by
  have proper := Line.lt_length_of_found found
  have above := Line.length_below proper []
  rw [List.append_nil] at above
  rw [takes.2, Position.before_eq found, takes.1]
  simp only [UInt64.toNat_zero, List.take_zero, List.append_nil]
  exact above

/-- A deletion is undone by inserting the text that has been read of the range, where carriage
returns only stand before newlines. The exception is a range that takes the rest of the
text from the start of a line: its line is gone, and nothing can be inserted on it. -/
theorem insertInText_restores_deleted (paired : Line.returnsPaired content.toList)
    (found : (Line.ofChars content.toList)[range.first.line.toNat]? = some line)
    (within : range.first.column.toNat ≤ line.body.length)
    (inside : range.last.line.toNat < (Line.ofChars content.toList).length) :
    ∃ captured deleted,
      range.IsRead content (.ok captured) ∧
      replaceInText content range "" = .ok deleted ∧
      (¬ range.TakesRest content.toList →
        insertInText deleted range.first captured = .ok content) ∧
      (range.TakesRest content.toList →
        insertInText deleted range.first captured =
          .error (.rangeOutOfBounds range.first.line.toNat range.first.line.toNat)) := by
  have removed := replaceInText_eq "" inside
  rw [String.toList_empty, List.append_nil] at removed
  refine ⟨_, _, Range.isRead_spanned inside, removed, ?_, ?_⟩
  · intro leaves
    have whole : ¬ Line.PartsReturn (line.body.take range.first.column.toNat)
        (range.last.nextColumn.behind content.toList) :=
      fun parted => Position.getLast?_opening_ne paired found parted.1
    have continued : line.body.take range.first.column.toNat
        ++ range.last.nextColumn.behind content.toList ≠ [] := by
      intro empty
      obtain ⟨noOpening, nothing⟩ := List.append_eq_nil_iff.mp empty
      have atStart := congrArg List.length noOpening
      rw [List.length_take_of_le within] at atStart
      exact leaves ⟨UInt64.toNat_inj.mp atStart, nothing⟩
    rw [insertInText_between found within whole continued, String.toList_ofList,
      range.before_append_spanned_append_behind, String.ofList_toList]
  · intro takes
    have missing := takes.length_eq found
    rw [insertInText_eq_error _ (by rw [String.toList_ofList, missing]), String.toList_ofList,
      missing]

/-- Removing the end of one line and the start of the next is undone. -/
theorem insertInText_restores_deleted_across_lines :
    ∃ captured deleted,
      Range.IsRead ⟨⟨0, 1⟩, ⟨1, 0⟩, by decide⟩ "ab\r\ncd" (.ok captured) ∧
      replaceInText "ab\r\ncd" ⟨⟨0, 1⟩, ⟨1, 0⟩, by decide⟩ "" = .ok deleted ∧
      (¬ Range.TakesRest ⟨⟨0, 1⟩, ⟨1, 0⟩, by decide⟩ "ab\r\ncd".toList →
        insertInText deleted ⟨0, 1⟩ captured = .ok "ab\r\ncd") ∧
      (Range.TakesRest ⟨⟨0, 1⟩, ⟨1, 0⟩, by decide⟩ "ab\r\ncd".toList →
        insertInText deleted ⟨0, 1⟩ captured = .error (.rangeOutOfBounds 0 0)) :=
  have found : (Line.ofChars "ab\r\ncd".toList)[0]? = some ⟨['a', 'b'], ['\r', '\n']⟩ := rfl
  insertInText_restores_deleted (by decide) found (by decide) (by decide)

/-- A last line that is removed as a whole takes no insertion, although the range that it
filled could be read. -/
theorem insertInText_refuses_deleted_line :
    Line.returnsPaired "x\nabc".toList ∧
      (Line.ofChars "x\nabc".toList)[1]? = some ⟨['a', 'b', 'c'], []⟩ ∧
      Range.IsRead ⟨⟨1, 0⟩, ⟨1, 2⟩, by decide⟩ "x\nabc" (.ok "abc") ∧
      replaceInText "x\nabc" ⟨⟨1, 0⟩, ⟨1, 2⟩, by decide⟩ "" = .ok "x\n" ∧
      insertInText "x\n" ⟨1, 0⟩ "abc" = .error (.rangeOutOfBounds 1 1) :=
  ⟨by decide, rfl, Range.isRead_spanned (by decide), rfl, rfl⟩

end Undoing

end ElmWorkbench
