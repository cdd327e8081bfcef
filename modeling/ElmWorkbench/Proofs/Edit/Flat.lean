import ElmWorkbench.Proofs.Edit.BottomUp
import ElmWorkbench.Proofs.Edit.Extraction
/-!
# Edits of the flat text

What edits do, said without lines that are told apart from their terminators. A text has just one
cut into pieces that end with their newlines (`Line.IsCut.unique`), and counting characters in these
pieces gives the offset of every place (`Line.IsCut.offset_eq`). Replacing, reading and inserting
are cuts of the flat text at such offsets (`edits_are_flat`).
-/

namespace ElmWorkbench

namespace Line

/-- Pieces of a text, one for each line: none is empty, a newline stands nowhere but at the end of a
piece, and all pieces but the last end with one. -/
structure IsCut (content : List Char) (pieces : List (List Char)) : Prop where
  whole : pieces.flatten = content
  filled : ∀ piece ∈ pieces, piece ≠ []
  closed : ∀ piece ∈ pieces, '\n' ∉ piece.dropLast
  ended : ∀ piece ∈ pieces.dropLast, piece.getLast? = some '\n'

/-- The number of characters of a piece before a carriage return and a newline at its end, or before
a newline there. -/
def bodyLength (piece : List Char) : Nat :=
  if ['\r', '\n'] <:+ piece then piece.length - 2
  else if ['\n'] <:+ piece then piece.length - 1
  else piece.length

/-- The number of characters in all earlier pieces, and before a column of the piece with the given
number or in its whole body if that is shorter. -/
def flatOffset (pieces : List (List Char)) (number column : Nat) : Nat :=
  (pieces.take number).flatten.length + min column (bodyLength (pieces.getD number []))

variable {content : List Char} {pieces : List (List Char)} {piece : List Char}

/-! ## One cut -/

/-- A piece is ended if its only newline is its last character. -/
theorem isEnded_iff : IsEnded '\n' piece ↔ '\n' ∉ piece.dropLast ∧ piece.getLast? = some '\n' := by
  constructor
  · rintro ⟨body, absent, rfl⟩
    simpa using absent
  · rintro ⟨absent, last⟩
    obtain ⟨body, rfl⟩ := List.getLast?_eq_some_iff.mp last
    exact ⟨body, by simpa using absent, rfl⟩

/-- A text is cut into its lines in one way. -/
theorem IsCut.unique (cut : IsCut content pieces) : pieces = cutAfter '\n' content := by
  obtain ⟨rfl, filled, closed, ended⟩ := cut
  rcases List.eq_nil_or_concat pieces with rfl | ⟨upper, last, rfl⟩
  · rfl
  · rw [List.concat_eq_append] at filled closed ended ⊢
    rw [List.dropLast_concat] at ended
    have upperEnded : ∀ piece ∈ upper, IsEnded '\n' piece := fun piece member =>
      isEnded_iff.mpr ⟨closed piece (List.mem_append_left _ member), ended piece member⟩
    have lastFilled := filled last (by simp)
    rw [List.flatten_append, List.flatten_singleton, cutAfter_flatten_append upperEnded]
    congr 1
    -- The last piece may or may not end with a newline.
    by_cases newline : last.getLast? = some '\n'
    · obtain ⟨body, absent, rfl⟩ := isEnded_iff.mpr ⟨closed last (by simp), newline⟩
      rw [cutAfter_ended absent, cutAfter]
    · refine (cutAfter_of_not_mem (fun broken => ?_) lastFilled).symm
      obtain ⟨body, final, rfl⟩ := (List.eq_nil_or_concat last).resolve_left lastFilled
      rw [List.concat_eq_append] at closed newline broken
      have inner : '\n' ∉ body := by simpa using closed (body ++ [final]) (by simp)
      rcases List.mem_append.mp broken with early | late
      · exact inner early
      · rw [List.mem_singleton.mp late, List.getLast?_concat] at newline
        exact newline rfl

/-- Cutting after newlines gives the lines of a text. -/
theorem isCut_cutAfter (content : List Char) : IsCut content (cutAfter '\n' content) := by
  obtain ⟨upper, segment, ended, absent, rfl, -⟩ := exists_pieces '\n' content
  rw [cutAfter_flatten_segment ended absent]
  have upperClosed : ∀ piece ∈ upper, '\n' ∉ piece.dropLast := fun piece member =>
    (isEnded_iff.mp (ended piece member)).1
  have upperFilled : ∀ piece ∈ upper, piece ≠ [] := by
    intro piece member
    obtain ⟨body, -, rfl⟩ := ended piece member
    simp
  split
  · next empty =>
    rw [List.append_nil]
    refine ⟨by simp [empty], upperFilled, upperClosed, fun piece member => ?_⟩
    exact (isEnded_iff.mp (ended piece (List.dropLast_subset _ member))).2
  · next filled =>
    refine ⟨by simp, ?_, ?_, ?_⟩
    · rw [List.forall_mem_append, List.forall_mem_singleton]
      exact ⟨upperFilled, filled⟩
    · rw [List.forall_mem_append, List.forall_mem_singleton]
      exact ⟨upperClosed, fun broken => absent (List.dropLast_subset _ broken)⟩
    · rw [List.dropLast_concat]
      exact fun piece member => (isEnded_iff.mp (ended piece member)).2

/-! ## Offsets -/

/-- The body of a line has the characters that are counted. -/
theorem length_body_ofText (piece : List Char) : (ofText piece).body.length = bodyLength piece := by
  rw [bodyLength, ← piece.length_reverse, ofText]
  simp only [← List.reverse_prefix]
  split
  · next body ending => simp [ending]
  · next body notReturned ending =>
    have single : ¬ ['\n', '\r'] <+: '\n' :: body := by
      rintro ⟨rest, whole⟩
      exact notReturned rest (List.cons.inj whole).2.symm
    simp [ending, single]
  · next notReturned notEnded =>
    have single : ¬ ['\n'] <+: piece.reverse := by
      rintro ⟨rest, whole⟩
      exact notEnded rest whole.symm
    have double : ¬ ['\n', '\r'] <+: piece.reverse := fun begins =>
      single ((List.prefix_append ['\n'] ['\r']).trans begins)
    simp [single, double]

/-- The pieces of a text are its lines, with their terminators told apart. -/
theorem IsCut.map_ofText (cut : IsCut content pieces) : pieces.map ofText = ofChars content := by
  rw [cut.unique, ofChars]

/-- A text has as many pieces as lines. -/
theorem IsCut.length_eq (cut : IsCut content pieces) :
    pieces.length = (ofChars content).length := by
  rw [← cut.map_ofText, List.length_map]

/-- Counting in lines and counting in pieces gives the same offset. -/
theorem offset_map_ofText {number : Nat} (inside : number < pieces.length) (column : Nat) :
    offset (pieces.map ofText) number column = flatOffset pieces number column := by
  induction pieces generalizing number with
  | nil => simp at inside
  | cons piece others inductionHypothesis =>
    cases number with
    | zero => simp [offset, flatOffset, length_body_ofText]
    | succ number =>
      have further := inductionHypothesis (by simpa using inside)
      rw [List.map_cons, offset, further, text_ofText, flatOffset, flatOffset]
      simp [Nat.add_assoc]

end Line

/-! ## Edits -/

open Line (flatOffset)

variable {content : String} {pieces : List (List Char)}

/-- The column behind one, where the last column stays what it is. -/
theorem Position.nextColumn_column_eq (position : Position) :
    position.nextColumn.column.toNat = min (position.column.toNat + 1) (UInt64.size - 1) := by
  have bound := position.column.toNat_lt
  by_cases counted : position.column.toNat + 1 < UInt64.size
  · rw [nextColumn_column counted]
    omega
  · rw [nextColumn, if_neg counted]
    simp only [UInt64.size] at counted ⊢
    omega

/-- The offset of the first character of a range. -/
def Range.flatStart (range : Range) (pieces : List (List Char)) : Nat :=
  flatOffset pieces range.first.line.toNat range.first.column.toNat

/-- The offset behind the last character of a range; the last column has none behind it. -/
def Range.flatFinish (range : Range) (pieces : List (List Char)) : Nat :=
  flatOffset pieces range.last.line.toNat (min (range.last.column.toNat + 1) (UInt64.size - 1))

/-- What edits of a text come to, where offsets are counted in pieces. -/
structure EditsFlat (content : String) (pieces : List (List Char)) : Prop where
  replaced : ∀ (range : Range) (replacement : String), range.last.line.toNat < pieces.length →
    replaceInText content range replacement =
      .ok (String.ofList (content.toList.take (range.flatStart pieces) ++ replacement.toList
        ++ content.toList.drop (range.flatFinish pieces)))
  /-- This is read of every file that holds the text. -/
  extracted : ∀ range : Range, range.last.line.toNat < pieces.length →
    range.IsRead content (.ok (String.ofList
      ((content.toList.take (range.flatFinish pieces)).drop (range.flatStart pieces))))
  inserted : ∀ (position : Position) (text : String), position.line.toNat < pieces.length →
    insertInText content position text =
      .ok (String.ofList
        (content.toList.take (flatOffset pieces position.line.toNat position.column.toNat)
          ++ text.toList
          ++ content.toList.drop (flatOffset pieces position.line.toNat position.column.toNat)))
  /-- Replacing a range by the text that has been read there changes nothing. -/
  restored : ∀ (files : FileSystem) (path : Path) (range : Range) (captured : String),
    files.HoldsText path content → readRange files path range = .ok captured →
      replaceInText content range captured = .ok content
  rangeOutside : ∀ (range : Range) (replacement : String),
    pieces.length ≤ range.last.line.toNat →
      replaceInText content range replacement =
          .error (.rangeOutOfBounds range.last.line.toNat pieces.length) ∧
        range.IsRead content (.error (.rangeOutOfBounds range.last.line.toNat pieces.length))
  positionOutside : ∀ (position : Position) (text : String),
    pieces.length ≤ position.line.toNat →
      insertInText content position text =
        .error (.rangeOutOfBounds position.line.toNat pieces.length)
  /-- No text is long enough for the last column to matter. -/
  unsaturated : content.length < UInt64.size → ∀ range : Range,
    range.last.line.toNat < pieces.length →
      range.flatFinish pieces =
        flatOffset pieces range.last.line.toNat (range.last.column.toNat + 1)

section Cut

variable (cut : Line.IsCut content.toList pieces)

include cut

/-- The offset of a place of a text is counted in any cut of it. -/
theorem Line.IsCut.offset_eq {number : Nat} (inside : number < pieces.length) (column : Nat) :
    Line.offset (Line.ofChars content.toList) number column = flatOffset pieces number column := by
  rw [← cut.map_ofText, Line.offset_map_ofText inside]

/-- A range starts at the offset that is counted in the pieces. -/
theorem Range.flatStart_eq {range : Range} (inside : range.last.line.toNat < pieces.length) :
    range.first.offset (Line.ofChars content.toList) = range.flatStart pieces :=
  cut.offset_eq (Nat.lt_of_le_of_lt range.line_le inside) _

/-- A range ends at the offset that is counted in the pieces. -/
theorem Range.flatFinish_eq {range : Range} (inside : range.last.line.toNat < pieces.length) :
    range.last.nextColumn.offset (Line.ofChars content.toList) = range.flatFinish pieces := by
  rw [Position.offset, Position.nextColumn_line, Position.nextColumn_column_eq]
  exact cut.offset_eq inside _

end Cut

/-- Edits of a text are cuts of its flat sequence of characters at the offsets that counting in its
lines gives, and there is just one way to cut a text into lines. -/
theorem edits_are_flat (content : String) :
    ∃ pieces, Line.IsCut content.toList pieces ∧
      (∀ other, Line.IsCut content.toList other → other = pieces) ∧ EditsFlat content pieces := by
  have cut := Line.isCut_cutAfter content.toList
  have counted := cut.length_eq
  refine ⟨_, cut, fun other otherCut => otherCut.unique, ?_⟩
  generalize Line.cutAfter '\n' content.toList = pieces at cut counted
  have outside {range : Range} (missing : pieces.length ≤ range.last.line.toNat) :
      range.IsRead content (.error (.rangeOutOfBounds range.last.line.toNat pieces.length)) := by
    rw [counted] at missing ⊢
    exact Range.isRead_outside missing
  exact
    { replaced := by
        intro range replacement inside
        rw [replaceInText_eq _ (counted ▸ inside), Position.before, Position.behind,
          Range.flatStart_eq cut inside, Range.flatFinish_eq cut inside]
      extracted := by
        intro range inside
        have read := Range.isRead_spanned (counted ▸ inside)
        rwa [Range.spanned, Position.before, Range.flatStart_eq cut inside,
          Range.flatFinish_eq cut inside] at read
      inserted := by
        intro position text inside
        rw [insertInText_eq _ (counted ▸ inside), Position.before, Position.behind,
          Position.offset, cut.offset_eq inside]
      restored := by
        intro files path range captured holds read
        rcases Nat.lt_or_ge range.last.line.toNat pieces.length with inside | missing
        · have spanned := Range.isRead_spanned (counted ▸ inside) files path holds
          obtain rfl := Except.ok.inj (read.symm.trans spanned)
          rw [replaceInText_eq _ (counted ▸ inside), String.toList_ofList,
            range.before_append_spanned_append_behind, String.ofList_toList]
        · rw [outside missing files path holds] at read
          cases read
      rangeOutside := by
        intro range replacement missing
        refine ⟨?_, outside missing⟩
        have resumes : (Splice.replacing range replacement).resume.line = range.last.line :=
          Position.nextColumn_line _
        have beyond : (Line.ofChars content.toList).length ≤
            (Splice.replacing range replacement).resume.line.toNat := by
          rw [resumes]
          exact counted ▸ missing
        rw [replaceInText, Splice.apply_eq_error beyond, resumes, counted]
        rfl
      positionOutside := by
        intro position text missing
        rw [insertInText_eq_error _ (counted ▸ missing), counted]
      unsaturated := by
        intro short range inside
        rw [← String.length_toList] at short
        rw [← Range.flatFinish_eq cut inside, range.nextColumn_offset short, Range.endOffset,
          cut.offset_eq inside] }

end ElmWorkbench
