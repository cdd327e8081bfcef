import ElmWorkbench.Proofs.Edit.InFile
/-!
# Ranges that are read

The loop that reads a range decodes stored lines one by one and stops with the first one past the
range, so the result is what the range spans of these lines (`Range.readLines_eq`). Lines past the
last one add nothing (`Range.extract_take`), and so reading a range gives the same of every file
that holds a text, namely what the range spans of the text (`Range.isRead_extract`).
-/

namespace ElmWorkbench

open Line (stored)

namespace Range

variable {range : Range} {number : Nat}

/-! ## Lines past a range -/

/-- Lines below the last one of a range add nothing to it. -/
theorem ofLines_take {count : Nat}
    (past : range.last.line.toNat < number + count) (lines : List Line) :
    range.ofLines number (lines.take count) = range.ofLines number lines := by
  induction lines generalizing number count with
  | nil => rw [List.take_nil]
  | cons line rest inductionHypothesis =>
    cases count with
    | zero =>
      rw [Nat.add_zero] at past
      rw [List.take_zero, ofLines_of_lt past, ofLines_of_lt past]
    | succ count =>
      rw [List.take_succ_cons, ofLines, ofLines, inductionHypothesis (by omega)]

/-- Reading up to one line after the last one is enough. -/
theorem extract_take (range : Range) (lines : List Line) :
    range.extract (lines.take (range.last.line.toNat + 2)) = range.extract lines := by
  by_cases inside : range.last.line.toNat < lines.length
  · have reached : range.last.line.toNat < (lines.take (range.last.line.toNat + 2)).length := by
      rw [List.length_take]
      omega
    rw [extract, extract, if_pos inside, if_pos reached, ofLines_take (by omega)]
  · rw [List.take_of_length_le (by omega)]

/-! ## The loop -/

/-- The line past a range is decoded, then the loop stops. -/
theorem readLines_past (past : range.last.line.toNat < number) (bytes : Bytes)
    (rest : List Bytes) :
    range.readLines number (bytes :: rest) =
      (Line.ofStored? bytes).map fun _ => ([], number) := by
  simp only [readLines, if_pos past]
  cases Line.ofStored? bytes <;> rfl

/-- A line up to the last one of a range is decoded and counted, and the loop goes on. -/
theorem readLines_within (within : number ≤ range.last.line.toNat) (bytes : Bytes)
    (rest : List Bytes) :
    range.readLines number (bytes :: rest) =
      (Line.ofStored? bytes).bind fun line =>
        (range.readLines (number + 1) rest).map fun result =>
          (range.ofLine number line ++ result.1, result.2) := by
  simp only [readLines, if_neg (Nat.not_lt.mpr within)]
  cases Line.ofStored? bytes with
  | none => rfl
  | some line => cases range.readLines (number + 1) rest <;> rfl

/-- The loop decodes the lines up to one past the range, and counts those up to its last. -/
theorem readLines_eq (above : number ≤ range.last.line.toNat + 1) (lines : List Bytes) :
    range.readLines number lines =
      ((lines.take (range.last.line.toNat + 2 - number)).mapM Line.ofStored?).map fun decoded =>
        (range.ofLines number decoded,
          number + min decoded.length (range.last.line.toNat + 1 - number)) := by
  induction lines generalizing number with
  | nil => simp [readLines, ofLines]
  | cons bytes rest inductionHypothesis =>
    rcases Nat.lt_or_ge range.last.line.toNat number with past | within
    · obtain rfl : number = range.last.line.toNat + 1 := by omega
      have single : range.last.line.toNat + 2 - (range.last.line.toNat + 1) = 1 := by omega
      rw [readLines_past past, single, List.take_succ_cons, List.take_zero, List.mapM_cons]
      cases Line.ofStored? bytes with
      | none => rfl
      | some line => simp [ofLines_of_lt past]
    · have further : range.last.line.toNat + 2 - number =
          range.last.line.toNat + 2 - (number + 1) + 1 := by omega
      rw [readLines_within within, inductionHypothesis (by omega), further, List.take_succ_cons,
        List.mapM_cons]
      cases Line.ofStored? bytes with
      | none => rfl
      | some line =>
        cases (rest.take (range.last.line.toNat + 2 - (number + 1))).mapM Line.ofStored? with
        | none => rfl
        | some decoded =>
          have counted :
              number + 1 + min decoded.length (range.last.line.toNat + 1 - (number + 1)) =
                number + min (decoded.length + 1) (range.last.line.toNat + 1 - number) := by omega
          exact congrArg (fun count => some (range.ofLines number (line :: decoded), count)) counted

/-- The stored lines that reading a range looks at: those up to one after its last line. -/
def looked (range : Range) (contents : Bytes) : List Bytes :=
  (stored contents).take (range.last.line.toNat + 2)

end Range

/-! ## Files -/

section Files

variable {files : FileSystem} {path : Path} {contents : Bytes} {mode : Nat}

/-- Reading a range is extracting it from the lines that are looked at. -/
theorem readRange_of_stat (found : files.stat path = .ok (.file contents mode)) (range : Range) :
    readRange files path range =
      (decodeLines path (range.looked contents)).bind fun lines =>
        (range.extract lines).map String.ofList := by
  rw [readRange, readExisting_of_stat found, Except.ok_bind,
    Range.readLines_eq (Nat.zero_le _), decodeLines, Range.looked, Nat.sub_zero]
  cases decoded : ((stored contents).take (range.last.line.toNat + 2)).mapM Line.ofStored? with
  | none => rfl
  | some lines =>
    simp only [Option.map_some, Except.bind, Range.extract, Nat.zero_add]
    rcases Nat.lt_or_ge range.last.line.toNat lines.length with inside | missing
    · rw [if_pos inside, if_pos (by omega)]
      rfl
    · rw [if_neg (Nat.not_lt.mpr missing), if_neg (by omega), Nat.min_eq_left (by omega)]
      rfl

/-- Reading a range of a file that holds a text gives what the range spans of that text. -/
theorem readRange_eq {content : String}
    (found : files.stat path = .ok (.file (Utf8.encode content) mode)) (range : Range) :
    readRange files path range =
      (range.extract (Line.ofChars content.toList)).map String.ofList := by
  rw [readRange_of_stat found, Range.looked, Utf8.encode, Line.stored_encodeChars,
    ← List.map_take, decodeLines, Line.mapM_ofStored?_encoded, List.map_take, ← Line.ofChars,
    ← range.extract_take]
  rfl

end Files

/-- Reading a range comes to a result, whatever file it is that holds the text. -/
def Range.IsRead (range : Range) (content : String) (result : Except Error String) : Prop :=
  ∀ (files : FileSystem) (path : Path), files.HoldsText path content →
    readRange files path range = result

variable {range : Range} {content : String}

/-- Some file holds the text, so reading a range of it comes to one result only. -/
theorem Range.IsRead.unique {result other : Except Error String}
    (read : range.IsRead content result) (again : range.IsRead content other) :
    result = other := by
  let files : FileSystem := ⟨[([[0x61]], .file (Utf8.encode content) 0o644)], []⟩
  have found : files.stat ⟨[0x61]⟩ = .ok (.file (Utf8.encode content) 0o644) :=
    FileSystem.stat_of_through? (by decide) rfl rfl
  have holds : files.HoldsText ⟨[0x61]⟩ content :=
    ⟨_, _, found, Utf8.decode?_eq_some_iff.mpr rfl⟩
  exact (read files _ holds).symm.trans (again files _ holds)

/-- Reading a range of a text is extracting it. -/
theorem Range.isRead_extract (range : Range) (content : String) :
    range.IsRead content ((range.extract (Line.ofChars content.toList)).map String.ofList) := by
  rintro files path ⟨contents, mode, found, decoded⟩
  obtain rfl := Utf8.decode?_eq_some_iff.mp decoded
  exact readRange_eq found range

/-- A range in a text is read as what it spans. -/
theorem Range.isRead_spanned
    (inside : range.last.line.toNat < (Line.ofChars content.toList).length) :
    range.IsRead content (.ok (String.ofList (range.spanned content.toList))) := by
  have read := range.isRead_extract content
  rwa [extract_ofChars inside] at read

/-- The second line of a file is read without its terminator. -/
example : readRange ⟨[([[0x61]], .file (Utf8.encode "x\r\nabc\n") 0o644)], []⟩ ⟨[0x61]⟩
    ⟨⟨1, 0⟩, ⟨1, 2⟩, by decide⟩ = .ok "abc" := by
  cbv

/-- A range that ends below a text is refused with the number of lines of the text. -/
theorem Range.isRead_outside
    (missing : (Line.ofChars content.toList).length ≤ range.last.line.toNat) :
    range.IsRead content
      (.error (.rangeOutOfBounds range.last.line.toNat (Line.ofChars content.toList).length)) := by
  have read := range.isRead_extract content
  rwa [extract, if_neg (Nat.not_lt.mpr missing)] at read

end ElmWorkbench
