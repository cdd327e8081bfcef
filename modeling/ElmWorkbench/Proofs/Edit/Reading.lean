import ElmWorkbench.Proofs.Edit.Flat
import Mathlib.Data.Set.List
/-!
# Reading ranges of files

Reading a range looks at the stored lines up to one after its last (`Range.looked`), so the result
is told from their pieces (`readRange_of_pieces`). Bytes after them are not looked at, damaged or
not, and bytes before them that are no text fail the reading even if the range does not span them
(`readRange_looks_one_line_past`).
-/

namespace ElmWorkbench

open Line (stored)

/-- Bytes that characters are written with. -/
def Utf8.IsText (bytes : Bytes) : Prop :=
  ∃ characters, encodeChars characters = bytes

namespace Line

variable {lines : List Bytes}

/-- Lines cannot be decoded with one among them that is no text. -/
theorem mapM_ofStored?_eq_none {bytes : Bytes} (inside : bytes ∈ lines)
    (damaged : ¬ Utf8.IsText bytes) : lines.mapM ofStored? = none := by
  induction lines with
  | nil => simp at inside
  | cons first others inductionHypothesis =>
    rw [List.mapM_cons]
    rcases List.mem_cons.mp inside with rfl | later
    · have notText : Utf8.decodeChars? bytes = none :=
        Option.eq_none_iff_forall_ne_some.mpr fun characters decoded =>
          damaged ⟨characters, Utf8.decodeChars?_eq_some_iff.mp decoded⟩
      rw [ofStored?, notText]
      rfl
    · rw [inductionHypothesis later]
      cases ofStored? first <;> rfl

/-- Stored lines are all texts, or one of them is none. -/
theorem exists_pieces_or_notText (lines : List Bytes) :
    (∃ pieces : List (List Char), lines = pieces.map Utf8.encodeChars) ∨
      ∃ bytes ∈ lines, ¬ Utf8.IsText bytes := by
  by_cases damaged : ∃ bytes ∈ lines, ¬ Utf8.IsText bytes
  · exact .inr damaged
  · push Not at damaged
    have texts : lines ∈ Set.range (List.map Utf8.encodeChars) :=
      Set.range_list_map Utf8.encodeChars ▸ damaged
    obtain ⟨pieces, written⟩ := texts
    exact .inl ⟨pieces, written.symm⟩

end Line

section Reading

variable {files other : FileSystem} {path otherPath : Path} {contents otherContents : Bytes}
  {mode otherMode : Nat}

/-! ## The result -/

/-- A line that is no text refuses the reading if it is looked at. -/
theorem readRange_of_notText (found : files.stat path = .ok (.file contents mode)) {range : Range}
    {bytes : Bytes} (reached : bytes ∈ range.looked contents)
    (damaged : ¬ Utf8.IsText bytes) :
    readRange files path range = .error (.system path .notText) := by
  rw [readRange_of_stat found, decodeLines, Line.mapM_ofStored?_eq_none reached damaged]
  rfl

/-- What a range spans is told by the offsets of its ends in the pieces that are read. -/
theorem readRange_of_pieces (found : files.stat path = .ok (.file contents mode)) {range : Range}
    {pieces : List (List Char)} (written : range.looked contents = pieces.map Utf8.encodeChars) :
    readRange files path range =
      if range.last.line.toNat < (stored contents).length then
        .ok (String.ofList
          ((pieces.flatten.take (range.flatFinish pieces)).drop (range.flatStart pieces)))
      else .error (.rangeOutOfBounds range.last.line.toNat (stored contents).length) := by
  have counted : (pieces.map Line.ofText).length =
      min (range.last.line.toNat + 2) (stored contents).length := by
    rw [List.length_map, ← List.length_map Utf8.encodeChars, ← written, Range.looked,
      List.length_take]
  rw [readRange_of_stat found, decodeLines, written, Line.mapM_ofStored?_encoded]
  simp only [Except.bind]
  split
  · next inside =>
    have insidePieces : range.last.line.toNat < pieces.length := by
      rw [List.length_map] at counted
      omega
    rw [Range.extract_eq (by omega), Line.joined_map_ofText, Position.offset, Position.offset,
      Position.nextColumn_line, Position.nextColumn_column_eq, Line.offset_map_ofText insidePieces,
      Line.offset_map_ofText (Nat.lt_of_le_of_lt range.line_le insidePieces)]
    rfl
  · next missing =>
    rw [Range.extract, if_neg (by omega), counted, Nat.min_eq_right (by omega)]
    rfl

/-- An error of the same kind, at a path. -/
def Error.movedTo (path : Path) : Error → Error
  | .system _ cause => .system path cause
  | error => error

/-- What reading a range of a file comes to, where its contents are cut after each newline byte.
Only the lines up to one after the last line of the range are looked at. -/
structure LooksOneLinePast (files : FileSystem) (path : Path) (contents : Bytes) (range : Range) :
    Prop where
  damaged : (∃ cause, readRange files path range = .error (.system path cause)) ↔
    ∃ bytes ∈ range.looked contents, ¬ Utf8.IsText bytes
  notText : ∀ cause, readRange files path range = .error (.system path cause) → cause = .notText
  /-- A file that lacks the last line of the range has only lines that are looked at. -/
  outside : (∀ bytes ∈ range.looked contents, Utf8.IsText bytes) →
    (readRange files path range =
        .error (.rangeOutOfBounds range.last.line.toNat (stored contents).length) ↔
      (stored contents).length ≤ range.last.line.toNat)
  spanned : ∀ pieces : List (List Char), range.looked contents = pieces.map Utf8.encodeChars →
    range.last.line.toNat < (stored contents).length →
      readRange files path range =
        .ok (String.ofList
          ((pieces.flatten.take (range.flatFinish pieces)).drop (range.flatStart pieces)))
  /-- Another file with the same upper lines is read with the same result. -/
  agrees : ∀ (other : FileSystem) (otherPath : Path) (otherContents : Bytes) (otherMode : Nat),
    other.stat otherPath = .ok (.file otherContents otherMode) →
      range.looked otherContents = range.looked contents →
        readRange other otherPath range =
          (readRange files path range).mapError (Error.movedTo otherPath)
  replaceable : ∀ (processId : Nat) (replacement : String),
    (replaceInFile processId path range replacement files).1 = .ok () →
      ∃ text, readRange files path range = .ok text

/-- Files with the same upper lines are read with the same result, but for the path in an error. -/
theorem readRange_movedTo (found : files.stat path = .ok (.file contents mode))
    (foundOther : other.stat otherPath = .ok (.file otherContents otherMode)) {range : Range}
    (same : range.looked otherContents = range.looked contents) :
    readRange other otherPath range =
      (readRange files path range).mapError (Error.movedTo otherPath) := by
  rw [readRange_of_stat found, readRange_of_stat foundOther, same, decodeLines, decodeLines]
  cases (range.looked contents).mapM Line.ofStored? with
  | none => rfl
  | some lines =>
    simp only [Except.bind, Range.extract]
    split <;> rfl

/-- A range that can be replaced can be read: replacing needs every line to be a text. -/
theorem exists_readRange_of_replaceInFile {processId : Nat} {range : Range} {replacement : String}
    (replaced : (replaceInFile processId path range replacement files).1 = .ok ()) :
    ∃ text, readRange files path range = .ok text := by
  cases applied : (Splice.replacing range replacement).applyToFile files path with
  | error error =>
    rw [replaceInFile, spliceFile, Attempt.bind_of_error (by rw [Attempt.look, applied])]
      at replaced
    cases replaced
  | ok bytes =>
    obtain ⟨contents, mode, content, edited, found, decoded, spliced, -⟩ :=
      Splice.applyToFile_eq_ok applied
    obtain rfl := Utf8.decode?_eq_some_iff.mp decoded
    rw [readRange_eq found]
    rcases Nat.lt_or_ge range.last.line.toNat (Line.ofChars content.toList).length with
      inside | missing
    · rw [Range.extract, if_pos inside]
      exact ⟨_, rfl⟩
    · have resumes : (Splice.replacing range replacement).resume.line = range.last.line :=
        range.last.nextColumn_line
      rw [Splice.applyToText, Splice.apply_eq_error (resumes ▸ missing)] at spliced
      cases spliced

/-- Reading a range of a file looks at its lines up to one after the last line of the range. It
fails with a system cause exactly if one of these lines is no text; otherwise the range is out of
bounds exactly if the file has no line with its last number, and then all lines are counted;
otherwise the result is what the range spans. Files that have these lines in common give the
same result, and a range that can be replaced can be read. -/
theorem readRange_looks_one_line_past (found : files.stat path = .ok (.file contents mode))
    (range : Range) : LooksOneLinePast files path contents range := by
  -- All lines that are looked at are UTF-8, or the first that is not ends the reading.
  rcases Line.exists_pieces_or_notText (range.looked contents) with
    ⟨pieces, written⟩ | ⟨bytes, reached, damaged⟩
  · have result := readRange_of_pieces found written
    have texts : ∀ bytes ∈ range.looked contents, Utf8.IsText bytes := by
      rw [written]
      exact fun bytes inside => (List.mem_map.mp inside).imp fun _ => And.right
    exact
      { damaged := by
          rw [result]
          constructor
          · rintro ⟨cause, refused⟩
            split at refused <;> cases refused
          · rintro ⟨bytes, inside, damaged⟩
            exact absurd (texts bytes inside) damaged
        notText := by
          intro cause refused
          rw [result] at refused
          split at refused <;> cases refused
        outside := by
          intro _
          rw [result]
          split <;> simp <;> omega
        spanned := by
          intro others writtenOthers inside
          rw [readRange_of_pieces found writtenOthers, if_pos inside]
        agrees := fun _ _ _ _ foundOther same => readRange_movedTo found foundOther same
        replaceable := fun _ _ replaced => exists_readRange_of_replaceInFile replaced }
  · have result := readRange_of_notText found reached damaged
    exact
      { damaged := ⟨fun _ => ⟨bytes, reached, damaged⟩, fun _ => ⟨_, result⟩⟩
        notText := by
          intro cause refused
          rw [result] at refused
          cases refused
          rfl
        outside := by
          intro texts
          exact absurd (texts bytes reached) damaged
        spanned := by
          intro pieces written _
          rw [written] at reached
          obtain ⟨characters, -, same⟩ := List.mem_map.mp reached
          exact absurd ⟨characters, same⟩ damaged
        agrees := fun _ _ _ _ foundOther same => readRange_movedTo found foundOther same
        replaceable := fun _ _ replaced => exists_readRange_of_replaceInFile replaced }

/-- A file with two lines and damaged bytes after them. -/
def damagedBelow : FileSystem where
  entries := [([[0x61]], .file [0x78, 0x0A, 0x79, 0x0A, 0xFF] 0o644)]
  workingDirectory := []

/-- Damaged bytes two lines past a range are not looked at. -/
example : readRange damagedBelow ⟨[0x61]⟩ ⟨⟨0, 0⟩, ⟨0, 0⟩, by decide⟩ = .ok "x" := by
  cbv

/-- Damaged bytes one line past the range are looked at. -/
theorem readRange_looks_one_line_past_damaged :
    damagedBelow.stat ⟨[0x61]⟩ = .ok (.file [0x78, 0x0A, 0x79, 0x0A, 0xFF] 0o644) ∧
      LooksOneLinePast damagedBelow ⟨[0x61]⟩ [0x78, 0x0A, 0x79, 0x0A, 0xFF]
        ⟨⟨0, 0⟩, ⟨1, 0⟩, by decide⟩ := by
  have found : damagedBelow.stat ⟨[0x61]⟩ =
      .ok (.file [0x78, 0x0A, 0x79, 0x0A, 0xFF] 0o644) :=
    FileSystem.stat_of_through? (by decide) rfl rfl
  exact ⟨found, readRange_looks_one_line_past found _⟩

end Reading

end ElmWorkbench
