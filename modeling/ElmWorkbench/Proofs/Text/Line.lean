import ElmWorkbench.Proofs.Text.Utf8
import ElmWorkbench.Text.Line
import Mathlib.Data.List.Induction
import Mathlib.Data.List.TakeWhile
/-!
# Where lines begin and end

Lines of a text are its pieces up to and with each newline. Pieces that all end with a
newline stay what they are whatever text follows them (`ofChars_joined_append`), and a
position inside the body of a line is a cut that does not part a carriage return from
the newline after it (`prefix_body_iff`). Decoding stored lines one by one is the same
as decoding the whole contents (`mapM_ofStored?_stored`).
-/

namespace ElmWorkbench.Line

/-! ## Cutting after a symbol -/

section Cutting

variable {Symbol : Type} [DecidableEq Symbol] {stop : Symbol}

/-- A piece that ends with its only `stop`. -/
def IsEnded (stop : Symbol) (piece : List Symbol) : Prop :=
  ∃ body, stop ∉ body ∧ piece = body ++ [stop]

/-- The pieces of a sequence are all of it. -/
theorem flatten_cutAfter (sequence : List Symbol) : (cutAfter stop sequence).flatten = sequence := by
  induction sequence with
  | nil => rfl
  | cons symbol rest inductionHypothesis =>
    rw [cutAfter]
    split
    · simp [inductionHypothesis]
    · cases cut : cutAfter stop rest with
      | nil => simp_all
      | cons first others => simp_all

/-- A sequence is cut first behind its first stop. -/
theorem cutAfter_ended {body : List Symbol} (absent : stop ∉ body) (rest : List Symbol) :
    cutAfter stop (body ++ stop :: rest) = (body ++ [stop]) :: cutAfter stop rest := by
  induction body with
  | nil => simp [cutAfter]
  | cons symbol body inductionHypothesis =>
    simp only [List.mem_cons, not_or] at absent
    simp [cutAfter, Ne.symm absent.1, inductionHypothesis absent.2]

/-- Elements before the first `stop` stay together with the piece that follows them. -/
theorem cutAfter_append_of_not_mem {opening : List Symbol} (absent : stop ∉ opening)
    (nonempty : opening ≠ []) (rest : List Symbol) :
    cutAfter stop (opening ++ rest) =
      match cutAfter stop rest with
      | [] => [opening]
      | first :: others => (opening ++ first) :: others := by
  induction opening with
  | nil => exact absurd rfl nonempty
  | cons symbol opening inductionHypothesis =>
    simp only [List.mem_cons, not_or] at absent
    rw [List.cons_append, cutAfter, if_neg (Ne.symm absent.1)]
    by_cases final : opening = []
    · subst final
      rfl
    · rw [inductionHypothesis absent.2 final]
      cases cutAfter stop rest <;> rfl

/-- A sequence without a stop is a single piece. -/
theorem cutAfter_of_not_mem {piece : List Symbol} (absent : stop ∉ piece) (nonempty : piece ≠ []) :
    cutAfter stop piece = [piece] := by
  simpa [cutAfter] using cutAfter_append_of_not_mem absent nonempty []

/-- Ended pieces are cut off again, whatever follows them. -/
theorem cutAfter_flatten_append {pieces : List (List Symbol)}
    (ended : ∀ piece ∈ pieces, IsEnded stop piece) (rest : List Symbol) :
    cutAfter stop (pieces.flatten ++ rest) = pieces ++ cutAfter stop rest := by
  induction pieces with
  | nil => rfl
  | cons piece others inductionHypothesis =>
    simp only [List.mem_cons, forall_eq_or_imp] at ended
    obtain ⟨⟨body, absent, rfl⟩, othersEnded⟩ := ended
    have cut := cutAfter_ended absent (others.flatten ++ rest)
    rw [List.flatten_cons, List.append_assoc, List.append_assoc, List.singleton_append, cut,
      inductionHypothesis othersEnded, List.cons_append]

/-- A sequence is a number of ended pieces, one for each `stop`, and a segment that has
none. -/
theorem exists_pieces (stop : Symbol) (sequence : List Symbol) :
    ∃ (pieces : List (List Symbol)) (segment : List Symbol),
      (∀ piece ∈ pieces, IsEnded stop piece) ∧ stop ∉ segment ∧
        sequence = pieces.flatten ++ segment ∧ pieces.length = sequence.count stop := by
  induction sequence using List.reverseRecOn with
  | nil => exact ⟨[], [], by simp, by simp, rfl, rfl⟩
  | append_singleton front last inductionHypothesis =>
    obtain ⟨pieces, segment, ended, absent, whole, counted⟩ := inductionHypothesis
    by_cases isStop : last = stop
    · refine ⟨pieces ++ [segment ++ [stop]], [], ?_, by simp, by simp [whole, isStop],
        by simp [counted, isStop]⟩
      intro piece inside
      rcases List.mem_append.mp inside with early | final
      · exact ended piece early
      · exact ⟨segment, absent, List.mem_singleton.mp final⟩
    · exact ⟨pieces, segment ++ [last], ended, by simp [absent, Ne.symm isStop], by simp [whole],
        by simp [counted, isStop]⟩

/-- Cutting gives the ended pieces, and the segment behind them unless it is empty. -/
theorem cutAfter_flatten_segment {pieces : List (List Symbol)} {segment : List Symbol}
    (ended : ∀ piece ∈ pieces, IsEnded stop piece) (absent : stop ∉ segment) :
    cutAfter stop (pieces.flatten ++ segment) =
      pieces ++ if segment = [] then [] else [segment] := by
  rw [cutAfter_flatten_append ended]
  split
  · next empty => rw [empty, cutAfter]
  · next nonempty => rw [cutAfter_of_not_mem absent nonempty]

/-- All pieces but the last are ended. -/
theorem isEnded_of_mem_take {sequence piece : List Symbol} {count : Nat}
    (proper : count < (cutAfter stop sequence).length)
    (early : piece ∈ (cutAfter stop sequence).take count) : IsEnded stop piece := by
  obtain ⟨pieces, segment, ended, absent, rfl, -⟩ := exists_pieces stop sequence
  rw [cutAfter_flatten_segment ended absent] at proper early
  have upper : count ≤ pieces.length := by
    split at proper <;> simp at proper <;> omega
  rw [List.take_append_of_le_length upper] at early
  exact ended piece (List.mem_of_mem_take early)

/-- A piece has `stop` at its end or not at all. -/
theorem isEnded_or_not_mem {sequence piece : List Symbol}
    (cut : piece ∈ cutAfter stop sequence) : IsEnded stop piece ∨ stop ∉ piece := by
  obtain ⟨pieces, segment, ended, absent, rfl, -⟩ := exists_pieces stop sequence
  rw [cutAfter_flatten_segment ended absent] at cut
  rcases List.mem_append.mp cut with early | final
  · exact .inl (ended piece early)
  · split at final
    · simp at final
    · exact .inr (List.mem_singleton.mp final ▸ absent)

end Cutting

/-! ## Bodies and terminators -/

/-- The text that a line was made from is its text. -/
@[simp]
theorem text_ofText (characters : List Char) : (ofText characters).text = characters := by
  unfold ofText text
  split
  · next body ending => simpa using (congrArg List.reverse ending).symm
  · next body _ ending => simpa using (congrArg List.reverse ending).symm
  · simp

/-- A text without a newline is the body of a line without an end. -/
theorem ofText_of_not_mem {characters : List Char} (absent : '\n' ∉ characters) :
    ofText characters = { body := characters, terminator := [] } := by
  unfold ofText
  split
  · next ending => exact absurd (List.mem_reverse.mp (ending ▸ List.mem_cons_self)) absent
  · next ending => exact absurd (List.mem_reverse.mp (ending ▸ List.mem_cons_self)) absent
  · rfl

/-- A line ends with its newline, and with the carriage return before that if there is one. -/
theorem ofText_newline (body : List Char) :
    ofText (body ++ ['\n']) =
      if body.getLast? = some '\r' then { body := body.dropLast, terminator := ['\r', '\n'] }
      else { body := body, terminator := ['\n'] } := by
  rw [ofText, List.reverse_append, List.reverse_singleton, List.singleton_append]
  rcases List.eq_nil_or_concat body with rfl | ⟨front, last, rfl⟩
  · rfl
  · by_cases returned : last = '\r' <;> simp [returned]

/-- All characters of lines. -/
def joined (lines : List Line) : List Char :=
  lines.flatMap text

/-- No lines have no characters. -/
@[simp]
theorem joined_nil : joined [] = [] := rfl

/-- The characters of lines are those of the first and then those of the others. -/
@[simp]
theorem joined_cons (line : Line) (lines : List Line) :
    joined (line :: lines) = line.text ++ joined lines := rfl

/-- The characters of the lines made from pieces are those of the pieces. -/
theorem joined_map_ofText (pieces : List (List Char)) :
    joined (pieces.map ofText) = pieces.flatten := by
  induction pieces with
  | nil => rfl
  | cons piece others inductionHypothesis => simp [inductionHypothesis]

/-- The lines of a text hold all its characters in their order. -/
@[simp]
theorem joined_ofChars (characters : List Char) : joined (ofChars characters) = characters := by
  rw [ofChars, joined_map_ofText, flatten_cutAfter]

/-- The upper lines of a text stay what they are if another text follows them. -/
theorem ofChars_joined_append {content : List Char} {count : Nat}
    (proper : count < (ofChars content).length) (rest : List Char) :
    ofChars (joined ((ofChars content).take count) ++ rest) =
      (ofChars content).take count ++ ofChars rest := by
  rw [ofChars, List.length_map] at proper
  have ended : ∀ piece ∈ (cutAfter '\n' content).take count, IsEnded '\n' piece :=
    fun _ early => isEnded_of_mem_take proper early
  simp only [ofChars]
  rw [← List.map_take, joined_map_ofText, cutAfter_flatten_append ended, List.map_append]

/-! ## The end of a text -/

/-- What follows the last newline of a text. -/
def lastSegment (characters : List Char) : List Char :=
  (characters.reverse.takeWhile (· ≠ '\n')).reverse

/-- No newline stands behind the last one. -/
theorem newline_not_mem_lastSegment (characters : List Char) : '\n' ∉ lastSegment characters := by
  intro inside
  have kept := List.mem_takeWhile_imp (List.mem_reverse.mp inside)
  simp at kept

/-- What is put before a newline does not matter for what follows the last one. -/
theorem lastSegment_append_of_mem {characters : List Char} (broken : '\n' ∈ characters)
    (before : List Char) : lastSegment (before ++ characters) = lastSegment characters := by
  obtain ⟨late, early, ending, absent⟩ :=
    List.eq_append_cons_of_mem (List.mem_reverse.mpr broken)
  have kept : ∀ character ∈ late, decide (character ≠ '\n') = true := by
    simpa using fun character inside => ne_of_mem_of_not_mem inside absent
  rw [lastSegment, lastSegment, List.reverse_append, ending, List.append_assoc,
    List.takeWhile_append_of_pos kept, List.takeWhile_append_of_pos kept]
  simp

/-- Characters without a newline join what followed the last one before them. -/
theorem lastSegment_append_of_not_mem {characters : List Char} (absent : '\n' ∉ characters)
    (before : List Char) :
    lastSegment (before ++ characters) = lastSegment before ++ characters := by
  rw [lastSegment, List.reverse_append, List.takeWhile_append_of_pos, List.reverse_append,
    List.reverse_reverse, lastSegment]
  simpa using fun character inside => ne_of_mem_of_not_mem inside absent

/-- A text without a newline is all of what follows the last one. -/
theorem lastSegment_of_not_mem {characters : List Char} (absent : '\n' ∉ characters) :
    lastSegment characters = characters :=
  lastSegment_append_of_not_mem absent []

/-- Behind lines that have ended, the rest without a newline follows the last one. -/
theorem lastSegment_flatten_append {pieces : List (List Char)} {segment : List Char}
    (ended : ∀ piece ∈ pieces, IsEnded '\n' piece) (absent : '\n' ∉ segment) :
    lastSegment (pieces.flatten ++ segment) = segment := by
  rcases List.eq_nil_or_concat pieces with rfl | ⟨front, last, rfl⟩
  · exact lastSegment_of_not_mem absent
  · obtain ⟨body, -, rfl⟩ := ended last (by simp)
    have newline : '\n' ∈ ['\n'] := List.mem_singleton_self _
    rw [lastSegment_append_of_not_mem absent, List.concat_eq_append, List.flatten_append,
      List.flatten_singleton, ← List.append_assoc, lastSegment_append_of_mem newline]
    rfl

/-- A text is a number of ended pieces, one for each newline, and its last segment. -/
theorem exists_segments (characters : List Char) :
    ∃ pieces : List (List Char), (∀ piece ∈ pieces, IsEnded '\n' piece) ∧
      characters = pieces.flatten ++ lastSegment characters ∧
      pieces.length = characters.count '\n' := by
  obtain ⟨pieces, segment, ended, absent, whole, counted⟩ := exists_pieces '\n' characters
  refine ⟨pieces, ended, ?_, counted⟩
  conv_rhs => rw [whole, lastSegment_flatten_append ended absent]
  exact whole

/-! ## Cuts inside a body -/

/-- A cut that parts a carriage return from the newline after it. -/
def PartsReturn (before after : List Char) : Prop :=
  before.getLast? = some '\r' ∧ after.head? = some '\n'

/-- Whether a cut parts a carriage return from its newline depends on the next character alone. -/
theorem partsReturn_append_right {before text : List Char} (nonempty : text ≠ [])
    (after : List Char) : PartsReturn before (text ++ after) ↔ PartsReturn before text := by
  obtain ⟨first, others, rfl⟩ := List.exists_cons_of_ne_nil nonempty
  rfl

/-- Whether a cut parts a carriage return from its newline depends on the character before it
alone. -/
theorem partsReturn_append_left {text after : List Char} (nonempty : text ≠ [])
    (before : List Char) : PartsReturn (before ++ text) after ↔ PartsReturn text after := by
  rcases List.eq_nil_or_concat text with rfl | ⟨front, last, rfl⟩
  · exact absurd rfl nonempty
  · simp [PartsReturn]

/-- A cut of a line stands in its body unless it parts the two characters of the
terminator. -/
theorem prefix_body_iff {opening rest : List Char} {line : Line} {lines : List Line}
    (absent : '\n' ∉ opening) (first : ofChars (opening ++ rest) = line :: lines) :
    opening <+: line.body ↔ ¬ PartsReturn opening rest := by
  by_cases broken : '\n' ∈ rest
  · obtain ⟨segment, below, rfl, segmentAbsent⟩ := List.eq_append_cons_of_mem broken
    have wholeAbsent : '\n' ∉ opening ++ segment := by simp [absent, segmentAbsent]
    rw [ofChars, ← List.append_assoc, cutAfter_ended wholeAbsent, List.map_cons,
      ofText_newline] at first
    obtain ⟨rfl, -⟩ := List.cons_eq_cons.mp first
    cases segment with
    | nil =>
      by_cases returned : opening.getLast? = some '\r'
      · have nonempty : opening ≠ [] := by rintro rfl; simp at returned
        have shorter : ¬ opening <+: opening.dropLast := fun within => by
          have bound := within.length_le
          have positive := List.length_pos_iff.mpr nonempty
          rw [List.length_dropLast] at bound
          omega
        simp [PartsReturn, returned, shorter]
      · simp [PartsReturn, returned]
    | cons character segment =>
      have other : character ≠ '\n' := by rintro rfl; simp at segmentAbsent
      split <;> simp [PartsReturn, other]
  · have wholeAbsent : '\n' ∉ opening ++ rest := by simp [absent, broken]
    have nonempty : opening ++ rest ≠ [] := by
      intro empty
      rw [empty] at first
      cases first
    rw [ofChars, cutAfter_of_not_mem wholeAbsent nonempty, List.map_singleton,
      ofText_of_not_mem wholeAbsent] at first
    obtain ⟨rfl, -⟩ := List.cons_eq_cons.mp first
    have whole : opening <+: opening ++ rest := List.prefix_append _ _
    have notHead : rest.head? ≠ some '\n' := fun head => broken (List.mem_of_head? head)
    simp [PartsReturn, whole, notHead]

/-- No newline stands in the body of a line that was cut at newlines. -/
theorem newline_not_mem_body_ofText {piece : List Char} (cut : IsEnded '\n' piece ∨ '\n' ∉ piece) :
    '\n' ∉ (ofText piece).body := by
  rcases cut with ⟨body, absent, rfl⟩ | absent
  · rw [ofText_newline]
    split
    · exact fun inside => absent (List.dropLast_subset _ inside)
    · exact absent
  · rwa [ofText_of_not_mem absent]

/-- No newline stands in the body of a line of a text. -/
theorem newline_not_mem_body {content : List Char} {number : Nat} {line : Line}
    (found : (ofChars content)[number]? = some line) : '\n' ∉ line.body := by
  obtain ⟨piece, cut, rfl⟩ := List.mem_map.mp (List.mem_of_getElem? found)
  exact newline_not_mem_body_ofText (isEnded_or_not_mem cut)

/-- A text that is not empty has a line. -/
theorem ofChars_ne_nil {characters : List Char} (nonempty : characters ≠ []) :
    ∃ line lines, ofChars characters = line :: lines := by
  refine List.exists_cons_of_ne_nil fun empty => nonempty ?_
  rw [← joined_ofChars characters, empty, joined_nil]

/-! ## Stored lines -/

/-- Only the newline has its byte among those it is written with. -/
theorem newline_mem_encodeChar_iff {character : Char} :
    newline ∈ String.utf8EncodeChar character ↔ character = '\n' :=
  Utf8.mem_encodeChar_iff (by decide)

/-- The newlines of written characters are where their own newlines are. -/
theorem stored_encodeChars (characters : List Char) :
    stored (Utf8.encodeChars characters) =
      (cutAfter '\n' characters).map Utf8.encodeChars := by
  rw [stored]
  induction characters with
  | nil => rfl
  | cons character rest inductionHypothesis =>
    rw [Utf8.encodeChars, List.flatMap_cons, ← Utf8.encodeChars, cutAfter]
    split
    · next isNewline =>
      subst isNewline
      exact congrArg _ inductionHypothesis
    · next other =>
      rw [cutAfter_append_of_not_mem (mt newline_mem_encodeChar_iff.mp other)
        String.utf8EncodeChar_ne_nil, inductionHypothesis]
      cases cutAfter '\n' rest <;> simp [Utf8.encodeChars]

/-- The lines of stored pieces are those of their characters. -/
theorem mapM_ofStored?_encoded (pieces : List (List Char)) :
    (pieces.map Utf8.encodeChars).mapM ofStored? = some (pieces.map ofText) := by
  induction pieces with
  | nil => rfl
  | cons piece others inductionHypothesis =>
    have decoded : Utf8.decodeChars? (Utf8.encodeChars piece) = some piece :=
      Utf8.decodeChars?_eq_some_iff.mpr rfl
    simp [inductionHypothesis, ofStored?, decoded]

/-- The lines of stored pieces are written as the pieces. -/
theorem encodeChars_joined {pieces : List Bytes} {lines : List Line}
    (decoded : pieces.mapM ofStored? = some lines) :
    Utf8.encodeChars (joined lines) = pieces.flatten := by
  induction pieces generalizing lines with
  | nil => simp_all [Utf8.encodeChars]
  | cons piece others inductionHypothesis =>
    simp only [List.mapM_cons, Option.pure_def, Option.bind_eq_bind,
      Option.bind_eq_some_iff] at decoded
    obtain ⟨line, first, rest, restDecoded, same⟩ := decoded
    obtain rfl := Option.some.inj same
    obtain ⟨characters, written, rfl⟩ := Option.map_eq_some_iff.mp first
    rw [joined_cons, text_ofText, Utf8.encodeChars, List.flatMap_append, List.flatten_cons,
      ← inductionHypothesis restDecoded, ← Utf8.decodeChars?_eq_some_iff.mp written]
    rfl

/-- Stored lines decode one by one exactly if the whole contents do, and to the lines
of the decoded text. -/
theorem mapM_ofStored?_stored (contents : Bytes) :
    (stored contents).mapM ofStored? = (Utf8.decodeChars? contents).map ofChars := by
  cases decoded : Utf8.decodeChars? contents with
  | some characters =>
    rw [← Utf8.decodeChars?_eq_some_iff.mp decoded, stored_encodeChars, mapM_ofStored?_encoded]
    rfl
  | none =>
    cases decodedLines : (stored contents).mapM ofStored? with
    | none => rfl
    | some lines =>
      have whole := encodeChars_joined decodedLines
      rw [stored, flatten_cutAfter] at whole
      rw [Utf8.decodeChars?_eq_some_iff.mpr whole] at decoded
      cases decoded

end ElmWorkbench.Line
