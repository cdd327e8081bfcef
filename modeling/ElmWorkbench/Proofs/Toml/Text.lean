import ElmWorkbench.Proofs.Text.Control
import ElmWorkbench.Proofs.Toml.Scanning
import ElmWorkbench.Toml.Writer
/-!
# Texts in TOML

A text without control characters is read back from each of the ways in which it is written
(`takes_writeText`): between quotation marks or apostrophes, in one line or as if it had several.
-/

namespace ElmWorkbench.Toml

open Scan (bind_of_some left_apply set_apply)
open Text (AreSolid IsControl)

variable {characters rest : List Char} {mark : Char}

/-- Every character but a control character may stand in a text. -/
theorem isTextCharacter_of_solid {character : Char} (solid : ¬ IsControl character) :
    isTextCharacter character := by
  have bounds : 0x20 ≤ character.toNat ∧ character.toNat ≠ 0x7F := by
    rw [IsControl] at solid
    omega
  simp [isTextCharacter, bounds]

/-- No character but a control character has to be escaped. -/
theorem needsEscape_of_solid {character : Char} (solid : ¬ IsControl character) :
    needsEscape character = false := by
  have bounds : ¬ character.toNat < 0x20 ∧ character.toNat ≠ 0x7F := by
    rw [IsControl] at solid
    omega
  simp [needsEscape, bounds]

/-! ## Between quotation marks -/

/-- A solid character stands for itself, unless it is a backslash. -/
theorem escaped_of_solid {character : Char} (solid : ¬ IsControl character)
    (notBackslash : character ≠ '\\') (severalLines : Bool) :
    escaped severalLines character = [character] := by
  unfold escaped
  split
  · exact absurd (by decide) solid
  · exact absurd (by decide) solid
  · exact absurd (by decide) solid
  · exact absurd (by decide) solid
  · exact absurd (by decide) solid
  · exact absurd rfl notBackslash
  · rw [needsEscape_of_solid solid]
    rfl

/-- How a solid character is written between quotation marks. -/
theorem escapedFrom_cons {character : Char} (solid : ¬ IsControl character) (run : Nat)
    (more : List Char) :
    escapedFrom false 0 run (character :: more) =
      (if character = '"' ∨ character = '\\' then ['\\', character] else [character])
        ++ escapedFrom false 0 0 more := by
  rw [escapedFrom]
  by_cases isQuote : character = '"'
  · simp [isQuote]
  · by_cases isBackslash : character = '\\'
    · simp [isBackslash, escaped]
    · rw [if_neg isQuote, escaped_of_solid solid isBackslash,
        if_neg (by simp [isQuote, isBackslash])]

/-- How a basic text goes on depends on its next character. -/
theorem basicFrom_cons (steps : Nat) (character : Char) (text : List Char) :
    basicFrom (steps + 1) (character :: text) =
      (if character = '"' then pure []
        else if character = '\\' then do
          let meant ← escape
          let others ← basicFrom steps
          pure (meant :: others)
        else if isTextCharacter character then do
          let others ← basicFrom steps
          pure (character :: others)
        else failure : Scan (List Char)) text :=
  rfl

/-- A quote ends a basic text. -/
theorem basicFrom_quote (steps : Nat) (rest : List Char) :
    basicFrom (steps + 1) ('"' :: rest) = some ([], rest) := rfl

/-- A backslash and a mark stand for the mark. -/
theorem basicFrom_escape {character : Char} (marked : character = '"' ∨ character = '\\')
    {steps : Nat} {text meant rest : List Char}
    (others : basicFrom steps text = some (meant, rest)) :
    basicFrom (steps + 1) ('\\' :: character :: text) = some (character :: meant, rest) := by
  have escaped : escape (character :: text) = some (character, text) := by
    rcases marked with rfl | rfl <;> rfl
  rw [basicFrom_cons, if_neg (by decide), if_pos rfl, bind_of_some escaped, bind_of_some others]
  rfl

/-- A character without a mark stands for itself in a basic text. -/
theorem basicFrom_character {character : Char} (solid : ¬ IsControl character)
    (unmarked : ¬ (character = '"' ∨ character = '\\')) {steps : Nat} {text meant rest : List Char}
    (others : basicFrom steps text = some (meant, rest)) :
    basicFrom (steps + 1) (character :: text) = some (character :: meant, rest) := by
  rw [not_or] at unmarked
  rw [basicFrom_cons, if_neg unmarked.1, if_neg unmarked.2,
    if_pos (isTextCharacter_of_solid solid), bind_of_some others]
  rfl

/-- Solid characters are read back from between quotation marks. -/
theorem basicFrom_escapedFrom (solid : AreSolid characters) {steps run : Nat}
    (enough : characters.length < steps) (rest : List Char) :
    basicFrom steps (escapedFrom false 0 run characters ++ '"' :: rest) =
      some (characters, rest) := by
  obtain ⟨steps, rfl⟩ := Nat.exists_eq_add_one.mpr (Nat.zero_lt_of_lt enough)
  induction characters generalizing steps run with
  | nil => exact basicFrom_quote steps rest
  | cons character others inductionHypothesis =>
    obtain ⟨here, later⟩ := List.forall_mem_cons.mp solid
    obtain ⟨fewer, rfl⟩ : ∃ fewer, steps = fewer + 1 :=
      Nat.exists_eq_add_one.mpr (by rw [List.length_cons] at enough; omega)
    have remaining := @inductionHypothesis later 0 fewer
      (by rw [List.length_cons] at enough; omega)
    rw [escapedFrom_cons here, List.append_assoc]
    split
    · next marked => exact basicFrom_escape marked remaining
    · next unmarked => exact basicFrom_character here unmarked remaining

/-! ## Marks three times -/

/-- A run of marks adds up to the longest run. -/
theorem longestRun_replicate_append (current count : Nat) {tail : List Char}
    (ends : tail.head? ≠ some mark) :
    longestRun mark current (List.replicate count mark ++ tail) =
      max (current + count) (longestRun mark 0 tail) := by
  induction count generalizing current with
  | zero =>
    cases tail with
    | nil => simp [longestRun]
    | cons character rest =>
      have other : character ≠ mark := by simpa using ends
      simp [longestRun, other]
  | succ count inductionHypothesis =>
    rw [List.replicate_succ, List.cons_append, longestRun, if_pos rfl, inductionHypothesis]
    congr 1
    omega

/-- Characters begin with a run of marks, which may be empty. -/
theorem exists_run (mark : Char) (characters : List Char) :
    ∃ count tail, characters = List.replicate count mark ++ tail ∧ tail.head? ≠ some mark := by
  induction characters with
  | nil => exact ⟨0, [], rfl, by simp⟩
  | cons character rest inductionHypothesis =>
    by_cases isMark : character = mark
    · obtain ⟨count, tail, rfl, ends⟩ := inductionHypothesis
      exact ⟨count + 1, tail, by rw [isMark, List.replicate_succ, List.cons_append], ends⟩
    · exact ⟨0, character :: rest, rfl, by simpa using isMark⟩

/-- How a text of several lines goes on depends on its next character. -/
theorem severalLinesFrom_cons (mark : Char) (escapes : Bool) (steps : Nat) (character : Char)
    (text : List Char) :
    severalLinesFrom mark escapes (steps + 1) (character :: text) =
      (if character = mark then
        let (kept, ends) := closingRun ((character :: text).takeWhile (· = mark)).length
        if ends then do
          set ((character :: text).drop (kept + 3))
          pure (List.replicate kept mark)
        else do
          set ((character :: text).drop kept)
          let others ← severalLinesFrom mark escapes steps
          pure (List.replicate kept mark ++ others)
      else if escapes && character = '\\' then do
        set text
        match ← Scan.attempt escapedLineEnd with
        | some () => severalLinesFrom mark escapes steps
        | none =>
          let meant ← escape
          let others ← severalLinesFrom mark escapes steps
          pure (meant :: others)
      else if character = '\n' || character = '\r' then do
        Scan.newline
        let others ← severalLinesFrom mark escapes steps
        pure ('\n' :: others)
      else if isTextCharacter character then do
        set text
        let others ← severalLinesFrom mark escapes steps
        pure (character :: others)
      else failure : Scan (List Char)) (character :: text) :=
  rfl

/-- A character that is no mark stands for itself in a text of several lines. -/
theorem severalLinesFrom_character {escapes : Bool} {character : Char} {steps : Nat}
    {text meant rest : List Char} (other : character ≠ mark) (solid : ¬ IsControl character)
    (plain : escapes → character ≠ '\\')
    (others : severalLinesFrom mark escapes steps text = some (meant, rest)) :
    severalLinesFrom mark escapes (steps + 1) (character :: text) =
      some (character :: meant, rest) := by
  have unescaped : (escapes && character = '\\') = false := by
    cases escapes <;> simp_all
  have sameLine : (character = '\n' || character = '\r') = false := by
    rw [Bool.or_eq_false_iff, decide_eq_false_iff_not, decide_eq_false_iff_not]
    constructor <;> rintro rfl <;> exact absurd (by decide) solid
  rw [severalLinesFrom_cons, if_neg other, unescaped, sameLine, if_neg (by decide),
    if_neg (by decide), if_pos (isTextCharacter_of_solid solid), bind_of_some (set_apply _ _),
    bind_of_some others]
  rfl

/-- How long the run of marks at the front is. -/
theorem length_takeWhile_replicate (count : Nat) {tail : List Char}
    (ends : tail.head? ≠ some mark) :
    ((List.replicate count mark ++ tail).takeWhile (· = mark)).length = count := by
  have none : tail.takeWhile (· = mark) = [] := by
    cases tail with
    | nil => rfl
    | cons character rest =>
      have other : character ≠ mark := by simpa using ends
      simp [other]
  rw [List.takeWhile_append_of_pos (by simp), none, List.append_nil, List.length_replicate]

/-- One or two marks inside of a text stand for themselves. -/
theorem severalLinesFrom_marks {escapes : Bool} {steps count : Nat} {text meant rest : List Char}
    (few : count + 1 ≤ 2) (ends : text.head? ≠ some mark)
    (others : severalLinesFrom mark escapes steps text = some (meant, rest)) :
    severalLinesFrom mark escapes (steps + 1) (List.replicate (count + 1) mark ++ text) =
      some (List.replicate (count + 1) mark ++ meant, rest) := by
  have length := length_takeWhile_replicate (count + 1) ends
  have run : closingRun (count + 1) = (count + 1, false) := if_pos (by omega)
  have dropped : (List.replicate (count + 1) mark ++ text).drop (count + 1) = text :=
    List.drop_left' List.length_replicate
  rw [List.replicate_succ, List.cons_append] at length dropped ⊢
  rw [severalLinesFrom_cons, if_pos rfl, length, run]
  dsimp only
  rw [if_neg (by decide), dropped, bind_of_some (set_apply _ _), bind_of_some others]
  rfl

/-- Up to two marks at the end of a text belong to it, and three more close it. -/
theorem severalLinesFrom_close {escapes : Bool} {steps count : Nat} {rest : List Char}
    (few : count ≤ 2) (ends : rest.head? ≠ some mark) :
    severalLinesFrom mark escapes (steps + 1) (List.replicate (count + 3) mark ++ rest) =
      some (List.replicate count mark, rest) := by
  have length := length_takeWhile_replicate (count + 3) ends
  have run : closingRun (count + 3) = (count, true) := by
    rw [closingRun, if_neg (by omega), Nat.add_sub_cancel, Nat.min_eq_left few]
  have dropped : (List.replicate (count + 3) mark ++ rest).drop (count + 3) = rest :=
    List.drop_left' List.length_replicate
  rw [List.replicate_succ, List.cons_append] at length dropped ⊢
  rw [severalLinesFrom_cons, if_pos rfl, length, run]
  dsimp only
  rw [if_pos rfl, dropped, bind_of_some (set_apply _ _)]
  rfl

/-- Solid characters without three marks in a row are read back from between three of them. -/
theorem severalLinesFrom_solid {escapes : Bool} {steps : Nat} (solid : AreSolid characters)
    (plain : escapes → '\\' ∉ characters) (few : longestRun mark 0 characters ≤ 2)
    (enough : characters.length < steps) (ends : rest.head? ≠ some mark) :
    severalLinesFrom mark escapes steps (characters ++ List.replicate 3 mark ++ rest) =
      some (characters, rest) := by
  induction steps generalizing characters with
  | zero => omega
  | succ steps inductionHypothesis =>
    obtain ⟨count, tail, rfl, tailEnds⟩ := exists_run mark characters
    rw [longestRun_replicate_append 0 count tailEnds, Nat.zero_add, Nat.max_le] at few
    cases tail with
    | nil =>
      rw [List.append_nil, List.replicate_append_replicate]
      exact severalLinesFrom_close few.1 ends
    | cons character others =>
      have other : character ≠ mark := by simpa using tailEnds
      cases count with
      | zero =>
        obtain ⟨here, later⟩ := List.forall_mem_cons.mp solid
        have shorter : longestRun mark 0 others ≤ 2 := by
          simpa [longestRun, other] using few.2
        refine severalLinesFrom_character other here (fun escaped isBackslash => ?_)
          (inductionHypothesis later (fun escaped member => ?_) shorter ?_)
        · exact plain escaped (isBackslash ▸ List.mem_cons_self)
        · exact plain escaped (List.mem_cons_of_mem _ member)
        · simpa using enough
      | succ count =>
        have tailSolid : AreSolid (character :: others) := fun each member =>
          solid each (List.mem_append_right _ member)
        rw [List.append_assoc, List.append_assoc, ← List.append_assoc (character :: others)]
        refine severalLinesFrom_marks few.1 (by simpa using other)
          (inductionHypothesis tailSolid (fun escaped member => ?_) few.2 ?_)
        · exact plain escaped (List.mem_append_right _ member)
        · rw [List.length_append, List.length_replicate] at enough
          omega

/-! ## Ways to write a text -/

/-- The longest run is at least as long as the one that has begun. -/
theorem le_longestRun (mark : Char) (current : Nat) (characters : List Char) :
    current ≤ longestRun mark current characters := by
  induction characters generalizing current with
  | nil => exact Nat.le_refl current
  | cons character rest inductionHypothesis =>
    rw [longestRun]
    split
    · exact Nat.le_trans (Nat.le_succ current) (inductionHypothesis _)
    · exact Nat.le_max_left _ _

/-- A mark without a run does not stand in a text. -/
theorem not_mem_of_longestRun (none : longestRun mark 0 characters = 0) : mark ∉ characters := by
  induction characters with
  | nil => exact List.not_mem_nil
  | cons character rest inductionHypothesis =>
    rw [longestRun] at none
    split at none
    · have positive := le_longestRun mark (0 + 1) rest
      omega
    · next other =>
      rw [Nat.zero_max] at none
      exact fun member => (List.mem_cons.mp member).elim (fun same => other same.symm)
        (inductionHypothesis none)

/-- The ways in which solid characters are written. -/
theorem styleOf_cases (solid : AreSolid characters) :
    styleOf characters = .basic ∨
      styleOf characters = .literal ∧ '\x27' ∉ characters ∨
      styleOf characters = .basicLines ∧ '\\' ∉ characters ∧ longestRun '"' 0 characters ≤ 2 ∨
      styleOf characters = .literalLines ∧ longestRun '\x27' 0 characters ≤ 2 := by
  have noControl : characters.any needsEscape = false :=
    List.any_eq_false.mpr fun character member => by
      simp [needsEscape_of_solid (solid character member)]
  have noNewline : characters.contains '\n' = false := by
    refine Bool.eq_false_iff.mpr fun contained => ?_
    exact absurd (by decide) (solid _ (List.contains_iff_mem.mp contained))
  rw [styleOf, noControl, noNewline]
  split
  · exact .inl rfl
  · split
    · next literal =>
      simp only [Bool.not_false, Bool.and_true, Bool.true_and, decide_eq_true_eq] at literal
      exact .inr (.inl ⟨rfl, not_mem_of_longestRun literal⟩)
    · split
      · next lines =>
        simp only [Bool.not_false, Bool.true_and, Bool.and_eq_true, Bool.not_eq_true',
          decide_eq_true_eq] at lines
        refine .inr (.inr (.inl ⟨rfl, fun member => ?_, lines.2⟩))
        rw [List.contains_iff_mem.mpr member] at lines
        cases lines.1
      · split
        · next lines =>
          simp only [Bool.not_false, Bool.true_and, decide_eq_true_eq] at lines
          exact .inr (.inr (.inr ⟨rfl, lines⟩))
        · exact .inl (if_neg (by decide))

/-- With few quotation marks and no backslash nothing is escaped. -/
theorem escapedFrom_lines (solid : AreSolid characters) (plain : '\\' ∉ characters) {run : Nat}
    (few : longestRun '"' run characters ≤ 2) : escapedFrom true 2 run characters = characters := by
  induction characters generalizing run with
  | nil => rfl
  | cons character rest inductionHypothesis =>
    obtain ⟨here, later⟩ := List.forall_mem_cons.mp solid
    rw [List.mem_cons, not_or] at plain
    rw [longestRun] at few
    rw [escapedFrom]
    split
    · next isQuote =>
      rw [if_pos isQuote] at few
      have room := le_longestRun '"' (run + 1) rest
      rw [if_pos (by omega), inductionHypothesis later plain.2 few, isQuote]
    · next other =>
      rw [if_neg other] at few
      rw [escaped_of_solid here (Ne.symm plain.1), inductionHypothesis later plain.2 (by omega)]
      rfl

/-! ## Whole texts -/

/-- Escapes make no text shorter. -/
theorem length_le_escapedFrom (solid : AreSolid characters) (run : Nat) :
    characters.length ≤ (escapedFrom false 0 run characters).length := by
  induction characters generalizing run with
  | nil => exact Nat.zero_le _
  | cons character rest inductionHypothesis =>
    obtain ⟨here, later⟩ := List.forall_mem_cons.mp solid
    have fewer := inductionHypothesis later 0
    rw [escapedFrom_cons here, List.length_append, List.length_cons]
    split <;> simp only [List.length_cons, List.length_nil] <;> omega

/-- A basic text is read back from its escaped form. -/
theorem takes_basicText (solid : AreSolid characters) (rest : List Char) :
    basicText.Takes ('"' :: escapedFrom false 0 0 characters ++ ['"']) (String.ofList characters)
      rest := by
  let inside := escapedFrom false 0 0 characters ++ '"' :: rest
  have whole : '"' :: escapedFrom false 0 0 characters ++ ['"'] ++ rest = ['"'] ++ inside := by
    simp [inside]
  have enough : characters.length < inside.length + 1 := by
    have fewer := length_le_escapedFrom solid 0
    rw [List.length_append]
    omega
  rw [Scan.Takes, whole, basicText, bind_of_some (Scan.takes_word ['"'] inside),
    bind_of_some (left_apply inside), bind_of_some (basicFrom_escapedFrom solid enough rest)]
  rfl

/-- A literal text is read back as it stands. -/
theorem takes_literalText (solid : AreSolid characters) (plain : '\x27' ∉ characters)
    (rest : List Char) :
    literalText.Takes ('\x27' :: characters ++ ['\x27']) (String.ofList characters) rest := by
  have run : (Scan.run fun character => isTextCharacter character && character ≠ '\x27').Takes
      characters characters (['\x27'] ++ rest) := by
    refine Scan.takes_run (fun character member => ?_) (by simp)
    have other : character ≠ '\x27' := fun same => plain (same ▸ member)
    simp [isTextCharacter_of_solid (solid character member), other]
  exact (Scan.takes_word ['\x27'] _).bind
    (run.bind ((Scan.takes_word ['\x27'] rest).tell (Scan.takes_pure _ rest)))

/-- A text without long runs of its marks is read back from between them. -/
theorem takes_severalLines {escapes : Bool} (solid : AreSolid characters)
    (plain : escapes → '\\' ∉ characters) (few : longestRun mark 0 characters ≤ 2)
    (solidMark : ¬ IsControl mark) (ends : rest.head? ≠ some mark) :
    (severalLines mark escapes).Takes ([mark, mark, mark] ++ characters ++ [mark, mark, mark])
      (String.ofList characters) rest := by
  let inside := characters ++ List.replicate 3 mark ++ rest
  have whole : [mark, mark, mark] ++ characters ++ [mark, mark, mark] ++ rest =
      [mark, mark, mark] ++ inside := by
    simp [inside, List.replicate_succ]
  have sameLine : Scan.newline inside = none := by
    refine Scan.newline_of_head fun first isFirst => ?_
    have member : first ∈ characters ++ [mark] := by
      cases characters with
      | nil => simpa [inside, List.replicate_succ] using isFirst.symm
      | cons character others =>
        obtain rfl : character = first := Option.some.inj isFirst
        exact List.mem_cons_self
    have solidFirst : ¬ IsControl first := by
      rcases List.mem_append.mp member with inText | isMark
      · exact solid first inText
      · exact List.mem_singleton.mp isMark ▸ solidMark
    constructor <;> rintro rfl <;> exact absurd (by decide) solidFirst
  have enough : characters.length < inside.length + 1 := by
    rw [List.length_append, List.length_append]
    omega
  rw [Scan.Takes, whole, severalLines, bind_of_some (Scan.takes_word [mark, mark, mark] inside),
    bind_of_some (Scan.attempt_of_none sameLine), bind_of_some (left_apply inside),
    bind_of_some (severalLinesFrom_solid solid plain few enough ends)]
  rfl

/-- Three marks do not come next. -/
theorem severalLines_of_absent {escapes : Bool} {text : List Char}
    (other : ¬ [mark, mark, mark] <+: text) : severalLines mark escapes text = none :=
  Scan.bind_of_none (Scan.word_of_absent other)

/-- A text in one line does not begin with three quotation marks. -/
theorem not_prefix_escapedFrom (solid : AreSolid characters) (rest : List Char) :
    ¬ ['"', '"', '"'] <+: '"' :: escapedFrom false 0 0 characters ++ ['"'] ++ '\n' :: rest := by
  cases characters with
  | nil => simp [escapedFrom]
  | cons character others =>
    rw [escapedFrom_cons (solid character List.mem_cons_self)]
    split
    · simp
    · next unmarked =>
      have other : '"' ≠ character := fun same => unmarked (.inl same.symm)
      simp [other]

/-- Nor does one begin with three apostrophes. -/
theorem not_prefix_literal (plain : '\x27' ∉ characters) (rest : List Char) :
    ¬ ['\x27', '\x27', '\x27'] <+: '\x27' :: characters ++ ['\x27'] ++ '\n' :: rest := by
  cases characters with
  | nil => simp
  | cons character others =>
    have other : '\x27' ≠ character := fun same => plain (same ▸ List.mem_cons_self)
    simp [other]

/-- Solid characters are read back from the text that is written for them in a line. -/
theorem takes_writeText {text : String} (solid : AreSolid text.toList) (rest : List Char) :
    anyText.Takes (writeText text) text ('\n' :: rest) := by
  have oneLine : ¬ text.toList.contains '\n' := fun contained =>
    absurd (by decide) (solid _ (List.contains_iff_mem.mp contained))
  have same : String.ofList text.toList = text := String.ofList_toList
  rw [writeText, anyText]
  rcases styleOf_cases solid with basic | ⟨literal, plain⟩ | ⟨lines, plain, few⟩ | ⟨lines, few⟩
  · have taken := takes_basicText solid ('\n' :: rest)
    rw [same] at taken
    rw [basic]
    exact .orElse_of_none (severalLines_of_absent (not_prefix_escapedFrom solid rest))
      (.orElse_of_none (severalLines_of_absent (by simp [writeStyled])) taken.orElse)
  · have taken := takes_literalText solid plain ('\n' :: rest)
    rw [same] at taken
    rw [literal]
    have noQuote : basicText ('\x27' :: text.toList ++ ['\x27'] ++ '\n' :: rest) = none :=
      Scan.bind_of_none (Scan.word_of_absent (by simp))
    exact .orElse_of_none (severalLines_of_absent (by simp [writeStyled]))
      (.orElse_of_none (severalLines_of_absent (not_prefix_literal plain rest))
        (.orElse_of_none noQuote taken))
  · have written : writeStyled .basicLines text.toList =
        ['"', '"', '"'] ++ text.toList ++ ['"', '"', '"'] := by
      rw [writeStyled, if_neg oneLine, escapedFrom_lines solid plain few]
      rfl
    have taken : (severalLines '"' true).Takes _ _ ('\n' :: rest) :=
      takes_severalLines solid (fun _ => plain) few (by decide) (by simp)
    rw [same] at taken
    rw [lines, written]
    exact taken.orElse
  · have written : writeStyled .literalLines text.toList =
        ['\x27', '\x27', '\x27'] ++ text.toList ++ ['\x27', '\x27', '\x27'] := by
      rw [writeStyled, if_neg oneLine, List.append_nil]
    have taken : (severalLines '\x27' false).Takes _ _ ('\n' :: rest) :=
      takes_severalLines solid (by simp) few (by decide) (by simp)
    rw [same] at taken
    rw [lines, written]
    exact .orElse_of_none (severalLines_of_absent (by simp)) taken.orElse

end ElmWorkbench.Toml
