import ElmWorkbench.Proofs.Edit.Offset
/-!
# Positions of an edited text

Where the offset of a position lies after the text behind it has changed. If a
text is cut at a position and continued with another one, places before the cut keep
their offsets (`Position.offset_above`, `Position.offset_beside`), and a text that is put
at the cut ends where its newlines and its last segment say (`Position.offset_finish`).
On the line of the cut this needs that a carriage return before it is not followed by a
newline behind it, which would take the former out of the line's body.
-/

namespace ElmWorkbench

namespace Line

/-! ## Offsets in lines -/

/-- What stands before a place: the lines above, and a part of its own line's body. -/
theorem take_offset {lines : List Line} {number : Nat} {line : Line}
    (found : lines[number]? = some line) (column : Nat) :
    (joined lines).take (offset lines number column) =
      joined (lines.take number) ++ line.body.take column := by
  induction lines generalizing number with
  | nil => simp at found
  | cons upper rest inductionHypothesis =>
    cases number with
    | zero =>
      obtain rfl : upper = line := by simpa using found
      simp [offset, take_body]
    | succ number =>
      have further := inductionHypothesis (by simpa using found)
      simp [offset, List.take_length_add_append, further]

/-- Inside the body of a line, columns are counted one by one. -/
theorem offset_of_le {lines : List Line} {number column : Nat} {line : Line}
    (found : lines[number]? = some line) (within : column ≤ line.body.length) :
    offset lines number column = (joined (lines.take number)).length + column := by
  have front := congrArg List.length (take_offset found column)
  rw [List.length_take_of_le (offset_le ..), List.length_append, List.length_take_of_le within]
    at front
  exact front

/-- A later place does not have a smaller offset. -/
theorem offset_mono (lines : List Line) {number number' column column' : Nat}
    (ordered : number < number' ∨ number = number' ∧ column ≤ column') :
    offset lines number column ≤ offset lines number' column' := by
  induction lines generalizing number number' with
  | nil => simp [offset]
  | cons line rest inductionHypothesis =>
    cases number with
    | zero =>
      cases number' with
      | zero => simp only [offset]; omega
      | succ number' =>
        simp only [offset, text, List.length_append]
        omega
    | succ number =>
      cases number' with
      | zero => omega
      | succ number' =>
        have orderedBelow : number < number' ∨ number = number' ∧ column ≤ column' := by omega
        have further := inductionHypothesis orderedBelow
        simp only [offset]
        omega

/-! ## Offsets in texts -/

/-- A place inside an opening without newline is as far from the start of the text as
its column says. -/
theorem offset_opening {opening rest : List Char} {column : Nat} (absent : '\n' ∉ opening)
    (whole : ¬ PartsReturn opening rest) (nonempty : opening ++ rest ≠ [])
    (within : column ≤ opening.length) : offset (ofChars (opening ++ rest)) 0 column = column := by
  obtain ⟨line, lines, cut⟩ := ofChars_ne_nil nonempty
  have bound := ((prefix_body_iff absent cut).mpr whole).length_le
  rw [cut, offset]
  omega

/-- Places from the line with the given number on lie where they lie in the text that
begins with that line. -/
theorem offset_below {content : List Char} {count : Nat} (proper : count < (ofChars content).length)
    (rest : List Char) (number column : Nat) :
    offset (ofChars (joined ((ofChars content).take count) ++ rest)) (count + number) column =
      (joined ((ofChars content).take count)).length + offset (ofChars rest) number column := by
  have counted : ((ofChars content).take count).length = count :=
    List.length_take_of_le (Nat.le_of_lt proper)
  have moved := offset_append_right ((ofChars content).take count) (ofChars rest) number column
  rw [counted] at moved
  rw [ofChars_joined_append proper, moved]

/-- What follows some lines of a text is cut into lines by itself. -/
theorem length_below {content : List Char} {count : Nat} (proper : count < (ofChars content).length)
    (rest : List Char) :
    (ofChars (joined ((ofChars content).take count) ++ rest)).length =
      count + (ofChars rest).length := by
  rw [ofChars_joined_append proper, List.length_append,
    List.length_take_of_le (Nat.le_of_lt proper)]

/-- The end of a text lies as many lines down as the text has newlines, behind the
characters of its last segment, whatever follows it on that line. -/
theorem offset_end {before after : List Char} (whole : ¬ PartsReturn before after)
    (continued : lastSegment before ++ after ≠ []) :
    offset (ofChars (before ++ after)) (before.count '\n') (lastSegment before).length =
        before.length ∧
      before.count '\n' < (ofChars (before ++ after)).length := by
  obtain ⟨pieces, ended, split, counted⟩ := exists_segments before
  have lines : ofChars (before ++ after) =
      pieces.map ofText ++ ofChars (lastSegment before ++ after) := by
    conv_lhs => rw [split, List.append_assoc]
    simp only [ofChars]
    rw [cutAfter_flatten_append ended, List.map_append]
  have segmentWhole : ¬ PartsReturn (lastSegment before) after := by
    rintro ⟨returned, newline⟩
    refine whole ⟨?_, newline⟩
    rw [split, List.getLast?_append, returned]
    rfl
  have moved := offset_append_right (pieces.map ofText) (ofChars (lastSegment before ++ after)) 0
    (lastSegment before).length
  rw [List.length_map, counted, joined_map_ofText, offset_opening
    (newline_not_mem_lastSegment before) segmentWhole continued (Nat.le_refl _),
    ← List.length_append, ← split] at moved
  obtain ⟨line, others, cut⟩ := ofChars_ne_nil continued
  constructor
  · rw [lines]
    exact moved
  · rw [lines, cut, List.length_append, List.length_map, counted]
    simp

/-! ## Sizes -/

/-- There are no more pieces than there are symbols. -/
theorem length_cutAfter_le {Symbol : Type} [DecidableEq Symbol] (stop : Symbol)
    (sequence : List Symbol) : (cutAfter stop sequence).length ≤ sequence.length := by
  induction sequence with
  | nil => simp [cutAfter]
  | cons symbol rest inductionHypothesis =>
    rw [cutAfter]
    split
    · simpa using inductionHypothesis
    · split
      · simp
      · next cut => simp_all; omega

/-- A text has no more lines than characters. -/
theorem length_ofChars_le (content : List Char) : (ofChars content).length ≤ content.length := by
  rw [ofChars, List.length_map]
  exact length_cutAfter_le _ _

/-- A line that is found has a number below the number of lines. -/
theorem lt_length_of_found {lines : List Line} {number : Nat} {line : Line}
    (found : lines[number]? = some line) : number < lines.length :=
  (List.getElem?_eq_some_iff.mp found).choose

/-- Whether every carriage return is followed by a newline. -/
def returnsPaired : List Char → Bool
  | [] => true
  | character :: rest =>
    (character ≠ '\r' || rest.head? = some '\n') && returnsPaired rest

/-- In a text whose carriage returns are paired, a newline follows each of them. -/
theorem head?_of_returnsPaired {before after : List Char}
    (paired : returnsPaired (before ++ '\r' :: after)) : after.head? = some '\n' := by
  induction before with
  | nil =>
    rw [List.nil_append, returnsPaired, Bool.and_eq_true] at paired
    simpa using paired.1
  | cons character before inductionHypothesis =>
    rw [List.cons_append, returnsPaired, Bool.and_eq_true] at paired
    exact inductionHypothesis paired.2

end Line

/-! ## Texts with a new continuation -/

namespace Position

variable {content : List Char} {position : Position} {line : Line}

/-- Before a position stand the lines above and a part of its own line's body. -/
theorem before_eq (found : (Line.ofChars content)[position.line.toNat]? = some line) :
    position.before content =
      Line.joined ((Line.ofChars content).take position.line.toNat)
        ++ line.body.take position.column.toNat := by
  have front := Line.take_offset found position.column.toNat
  rw [Line.joined_ofChars] at front
  exact front

/-- No newline stands before a position on its own line. -/
theorem newline_not_mem_opening
    (found : (Line.ofChars content)[position.line.toNat]? = some line) :
    '\n' ∉ line.body.take position.column.toNat :=
  fun broken => Line.newline_not_mem_body found (List.mem_of_mem_take broken)

/-- Places on the lines above a position keep their offsets, whatever follows the text
before the position. -/
theorem offset_above (found : (Line.ofChars content)[position.line.toNat]? = some line)
    (rest : List Char) {upper : Nat} (above : upper < position.line.toNat) (column : Nat) :
    Line.offset (Line.ofChars (position.before content ++ rest)) upper column =
      Line.offset (Line.ofChars content) upper column := by
  have proper := Line.lt_length_of_found found
  have kept : upper < ((Line.ofChars content).take position.line.toNat).length := by
    rw [List.length_take_of_le (Nat.le_of_lt proper)]
    exact above
  rw [before_eq found, List.append_assoc, Line.ofChars_joined_append proper,
    Line.offset_append_left kept]
  conv_rhs =>
    rw [← List.take_append_drop position.line.toNat (Line.ofChars content),
      Line.offset_append_left kept]

/-- So do the places before the position on its own line. -/
theorem offset_beside (found : (Line.ofChars content)[position.line.toNat]? = some line)
    (within : position.column.toNat ≤ line.body.length) {rest : List Char}
    (whole : ¬ Line.PartsReturn (line.body.take position.column.toNat) rest)
    (continued : line.body.take position.column.toNat ++ rest ≠ []) {column : Nat}
    (early : column ≤ position.column.toNat) :
    Line.offset (Line.ofChars (position.before content ++ rest)) position.line.toNat column =
      Line.offset (Line.ofChars content) position.line.toNat column := by
  have proper := Line.lt_length_of_found found
  have reached : column ≤ (line.body.take position.column.toNat).length := by
    rwa [List.length_take_of_le within]
  have below := Line.offset_below proper (line.body.take position.column.toNat ++ rest) 0 column
  rw [Nat.add_zero, Line.offset_opening (newline_not_mem_opening found) whole continued reached]
    at below
  rw [before_eq found, List.append_assoc, below,
    Line.offset_of_le found (Nat.le_trans early within)]

/-- The line of a position stays there if something of it is left before or behind the cut. -/
theorem lt_length_before_append
    (found : (Line.ofChars content)[position.line.toNat]? = some line) {rest : List Char}
    (continued : line.body.take position.column.toNat ++ rest ≠ []) :
    position.line.toNat < (Line.ofChars (position.before content ++ rest)).length := by
  obtain ⟨first, others, cut⟩ := Line.ofChars_ne_nil continued
  rw [before_eq found, List.append_assoc, Line.length_below (Line.lt_length_of_found found), cut]
  simp

/-- A text that is put at a position ends as many lines below as it has newlines. -/
theorem offset_finish (found : (Line.ofChars content)[position.line.toNat]? = some line)
    (text : List Char) {rest : List Char}
    (whole : ¬ Line.PartsReturn (line.body.take position.column.toNat ++ text) rest)
    (continued : Line.lastSegment (line.body.take position.column.toNat ++ text) ++ rest ≠ []) :
    Line.offset (Line.ofChars (position.before content ++ text ++ rest))
        (position.line.toNat + text.count '\n')
        (Line.lastSegment (line.body.take position.column.toNat ++ text)).length =
        (position.before content ++ text).length ∧
      position.line.toNat + text.count '\n' <
        (Line.ofChars (position.before content ++ text ++ rest)).length := by
  have proper := Line.lt_length_of_found found
  have counted : (line.body.take position.column.toNat ++ text).count '\n' = text.count '\n' := by
    rw [List.count_append, List.count_eq_zero.mpr (newline_not_mem_opening found), Nat.zero_add]
  have finish := Line.offset_end whole continued
  rw [counted] at finish
  rw [before_eq found, List.append_assoc, List.append_assoc,
    ← List.append_assoc (line.body.take position.column.toNat), Line.offset_below proper,
    Line.length_below proper, finish.1, List.append_assoc]
  exact ⟨List.length_append.symm, Nat.add_lt_add_left finish.2 _⟩

/-- A position cuts a text into what stands before it and what stands behind. -/
theorem before_append_behind (position : Position) (content : List Char) :
    position.before content ++ position.behind content = content :=
  List.take_append_drop _ _

/-- The text that begins with the line of a position begins with that line's opening. -/
theorem ofChars_opening_append_behind
    (found : (Line.ofChars content)[position.line.toNat]? = some line) :
    ∃ others, Line.ofChars (line.body.take position.column.toNat ++ position.behind content) =
      line :: others := by
  obtain ⟨proper, here⟩ := List.getElem?_eq_some_iff.mp found
  have parts := position.before_append_behind content
  rw [before_eq found, List.append_assoc] at parts
  have lower := Line.ofChars_joined_append proper
    (line.body.take position.column.toNat ++ position.behind content)
  rw [parts] at lower
  have split := (List.take_append_drop position.line.toNat (Line.ofChars content)).trans lower
  rw [List.append_cancel_left_eq, List.drop_eq_getElem_cons proper, here] at split
  exact ⟨_, split.symm⟩

/-- A position inside a body does not part a terminator. -/
theorem not_partsReturn_behind
    (found : (Line.ofChars content)[position.line.toNat]? = some line) :
    ¬ Line.PartsReturn (line.body.take position.column.toNat) (position.behind content) := by
  obtain ⟨others, cut⟩ := ofChars_opening_append_behind found
  exact (Line.prefix_body_iff (newline_not_mem_opening found) cut).mp (List.take_prefix _ _)

/-- Where carriage returns only stand before newlines, none stands before a position
inside a body. -/
theorem getLast?_opening_ne (paired : Line.returnsPaired content)
    (found : (Line.ofChars content)[position.line.toNat]? = some line) :
    (line.body.take position.column.toNat).getLast? ≠ some '\r' := by
  intro returned
  refine not_partsReturn_behind found ⟨returned, ?_⟩
  obtain ⟨opening, split⟩ := List.getLast?_eq_some_iff.mp returned
  have parts := position.before_append_behind content
  rw [before_eq found, split, ← List.append_assoc, List.append_assoc, List.singleton_append] at parts
  exact Line.head?_of_returnsPaired (parts ▸ paired)

/-- The next column is no smaller one. -/
theorem column_le_nextColumn (position : Position) :
    position.column.toNat ≤ position.nextColumn.column.toNat := by
  by_cases counted : position.column.toNat + 1 < UInt64.size
  · rw [nextColumn_column counted]
    exact Nat.le_succ _
  · rw [nextColumn, if_neg counted]

end Position

namespace Range

/-- A range does not end before it starts. -/
theorem offset_le (range : Range) (lines : List Line) :
    range.first.offset lines ≤ range.last.nextColumn.offset lines := by
  have ordered := Position.le_iff.mp range.ordered
  have further := range.last.column_le_nextColumn
  refine Line.offset_mono lines ?_
  rw [Position.nextColumn_line]
  omega

/-- A text is what stands before a range, what it spans and what stands behind it. -/
theorem before_append_spanned_append_behind (range : Range) (content : List Char) :
    range.first.before content ++ range.spanned content
      ++ range.last.nextColumn.behind content = content := by
  have front : range.first.before content =
      (range.last.nextColumn.before content).take (range.first.offset (Line.ofChars content)) := by
    rw [Position.before, Position.before, List.take_take, Nat.min_eq_left (range.offset_le _)]
  rw [front, spanned, List.take_append_drop, Position.before, Position.behind,
    List.take_append_drop]

end Range

end ElmWorkbench
