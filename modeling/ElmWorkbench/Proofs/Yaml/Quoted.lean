import ElmWorkbench.Proofs.Yaml.Cursor
import ElmWorkbench.Yaml.Writer
import Mathlib.Algebra.Group.Nat.Defs
import Mathlib.Data.List.TakeWhile
/-!
# Quoted scalars in YAML

A text without control characters is read back from between quotation marks (`takes_double`), and
from between apostrophes (`takes_single`) if there are no blanks around its ends of lines.
-/

namespace ElmWorkbench.Yaml

open Text (AreSolid IsControl)

variable {character : Char} {characters rest : List Char} {gap : Gap} {indent steps count : Nat}

/-! ## Steps of a quoted scalar -/

section Steps

variable {quotation : Quotation} {front meant : List Char}

open Take (Takes)

/-- What is taken inside a line depends on the character that comes next. -/
theorem takes_step
    (taken : Takes (if isSpace character then do
        let gap ← Gap.empty.take 0
        let others ← quotedFrom quotation steps
        pure (gap.text ++ others)
      else if character = quotation.mark then
        if quotation = .single && (front ++ rest).head? = some '\x27' then do
          Take.skip 2
          let others ← quotedFrom quotation steps
          pure ('\x27' :: others)
        else do
          Take.skip 1
          pure []
      else if quotation = .double && character = '\\' then do
        Take.skip 1
        if (front ++ rest).head?.any isBreak then do
          let _ ← Take.lineBreak
          let gap ← Gap.afterLine.take 0
          let others ← quotedFrom quotation steps
          pure (gap.text ++ others)
        else do
          let meant ← escape
          let others ← quotedFrom quotation steps
          pure (meant :: others)
      else do
        Take.skip 1
        let others ← quotedFrom quotation steps
        pure (character :: others)) (character :: front) meant rest) :
    (quotedFrom quotation (steps + 1)).Takes (character :: front) meant rest := by
  refine Take.takes_get fun cursor unmarked => ?_
  rw [unmarked]
  exact (Take.takes_left _).bind taken

/-- White space stands for what its gap does. -/
theorem takes_space {space : List Char} (isSpace : isSpace character)
    (gapTaken : (Gap.empty.take 0).Takes (character :: space) gap (front ++ rest))
    (others : (quotedFrom quotation steps).Takes front meant rest) :
    (quotedFrom quotation (steps + 1)).Takes (character :: space ++ front) (gap.text ++ meant)
      rest := by
  refine takes_step ?_
  rw [if_pos isSpace]
  exact gapTaken.bind (others.tell (Take.takes_pure _ rest))

/-- The mark closes a scalar. -/
theorem takes_mark (quotation : Quotation) (steps : Nat) (ends : rest.head? ≠ some '\x27') :
    (quotedFrom quotation (steps + 1)).Takes [quotation.mark] [] rest := by
  have notSpace : isSpace quotation.mark = false := by cases quotation <;> decide
  refine takes_step ?_
  rw [notSpace, if_neg (by decide), if_pos rfl, List.nil_append, decide_eq_false ends,
    Bool.and_false, if_neg (by decide)]
  exact (Take.takes_skip _ rest).tell (Take.takes_pure _ rest)

/-- Between apostrophes, two of them stand for one. -/
theorem takes_apostrophe (others : (quotedFrom .single steps).Takes front meant rest) :
    (quotedFrom .single (steps + 1)).Takes ('\x27' :: '\x27' :: front) ('\x27' :: meant) rest := by
  refine takes_step ?_
  rw [if_neg (by decide), if_pos (by decide), if_pos (by rfl)]
  exact (Take.takes_skip ['\x27', '\x27'] _).bind (others.tell (Take.takes_pure _ rest))

/-- A character without a meaning of its own stands for itself. -/
theorem takes_character (notSpace : isSpace character = false) (other : character ≠ quotation.mark)
    (plain : quotation = .double → character ≠ '\\')
    (others : (quotedFrom quotation steps).Takes front meant rest) :
    (quotedFrom quotation (steps + 1)).Takes (character :: front) (character :: meant) rest := by
  have unescaped : (quotation = .double && character = '\\') = false := by
    rw [Bool.and_eq_false_iff, decide_eq_false_iff_not, decide_eq_false_iff_not]
    exact (Decidable.em _).elim (fun isDouble => .inr (plain isDouble)) .inl
  refine takes_step ?_
  rw [notSpace, if_neg (by decide), if_neg other, unescaped, if_neg (by decide)]
  exact (Take.takes_skip [character] _).bind (others.tell (Take.takes_pure _ rest))

/-- Between quotation marks, a backslash begins an escape sequence. -/
theorem takes_escape {coded : List Char}
    (sameLine : ∀ letter ∈ (coded ++ front ++ rest).head?, isBreak letter = false)
    (escapes : escape.Takes coded character (front ++ rest))
    (others : (quotedFrom .double steps).Takes front meant rest) :
    (quotedFrom .double (steps + 1)).Takes ('\\' :: (coded ++ front)) (character :: meant)
      rest := by
  have inLine : (coded ++ front ++ rest).head?.any isBreak = false := by
    rw [Option.any_eq_false]
    exact fun letter isFirst => by simp [sameLine letter isFirst]
  refine takes_step ?_
  rw [if_neg (by decide), if_neg (by decide), if_pos (by decide), inLine, if_neg (by decide)]
  exact (Take.takes_skip ['\\'] _).bind (escapes.bind (others.tell (Take.takes_pure _ rest)))

end Steps

/-! ## Between apostrophes -/

/-- Characters begin with those that pass a test. -/
theorem exists_span (test : Char → Bool) (characters : List Char) :
    ∃ front back, characters = front ++ back ∧ (∀ character ∈ front, test character) ∧
      ∀ character ∈ back.head?, test character = false := by
  refine ⟨characters.takeWhile test, characters.dropWhile test,
    List.takeWhile_append_dropWhile.symm, fun character => List.mem_takeWhile_imp, ?_⟩
  intro character isFirst
  have fails := List.head?_dropWhile_not test characters
  rw [Option.mem_def.mp isFirst] at fails
  exact fails

/-- Characters begin with a run of blanks, which may be empty. -/
theorem exists_blanks (characters : List Char) :
    ∃ count tail, characters = List.replicate count ' ' ++ tail ∧
      ∀ character ∈ tail.head?, character ≠ ' ' := by
  obtain ⟨front, tail, same, areBlanks, ends⟩ := exists_span (· = ' ') characters
  have blanks : front = List.replicate front.length ' ' :=
    List.eq_replicate_of_mem fun each member => of_decide_eq_true (areBlanks each member)
  exact ⟨_, tail, blanks ▸ same, fun each isFirst => of_decide_eq_false (ends each isFirst)⟩

section Neighbours

variable {first second : Char → Bool}

/-- Two neighbours are the first two characters or stand behind the first. -/
theorem hasNeighbours_cons (left : Char) (characters : List Char) :
    hasNeighbours first second (left :: characters) =
      (characters.head?.any (fun right => first left && second right)
        || hasNeighbours first second characters) := by
  cases characters with
  | nil => rfl
  | cons right more => rfl

/-- Neighbours in the back of a text are neighbours in the text. -/
theorem hasNeighbours_of_append {front back : List Char}
    (none : hasNeighbours first second (front ++ back) = false) :
    hasNeighbours first second back = false := by
  induction front with
  | nil => exact none
  | cons character others inductionHypothesis =>
    rw [List.cons_append, hasNeighbours_cons, Bool.or_eq_false_iff] at none
    exact inductionHypothesis none.2

/-- What follows a character of the first kind is not of the second. -/
theorem not_second {front back : List Char} {left : Char} (nonempty : left ∈ front.getLast?)
    (isFirst : first left) (none : hasNeighbours first second (front ++ back) = false) :
    ∀ right ∈ back.head?, second right = false := by
  obtain ⟨before, rfl⟩ := List.getLast?_eq_some_iff.mp nonempty
  rw [List.append_assoc] at none
  have here := hasNeighbours_of_append none
  rw [List.singleton_append, hasNeighbours_cons, Bool.or_eq_false_iff, Option.any_eq_false] at here
  intro right isSecond
  have apart := here.1 right isSecond
  simpa [isFirst] using apart

end Neighbours

/-- After an end of a line the inside is indented, unless the next line is empty. -/
theorem singleFrom_true (sameLine : ∀ character ∈ characters.head?, isBreak character = false) :
    singleFrom indent true characters = blanks indent ++ singleFrom indent false characters := by
  cases characters with
  | nil => simp [singleFrom]
  | cons character others =>
    rw [singleFrom, singleFrom, sameLine character rfl]
    simp

/-- Blanks are written as they are between single quotes. -/
theorem singleFrom_blanks (count : Nat) (characters : List Char) :
    singleFrom indent false (List.replicate count ' ' ++ characters) =
      List.replicate count ' ' ++ singleFrom indent false characters := by
  induction count with
  | zero => rfl
  | succ count inductionHypothesis =>
    rw [List.replicate_succ, List.cons_append, singleFrom, inductionHypothesis]
    rfl

/-- Breaks are written as they are between single quotes, and the next line is indented. -/
theorem singleFrom_breaks {breaks : List Char} (areBreaks : ∀ character ∈ breaks, isBreak character)
    (nonempty : breaks ≠ [])
    (sameLine : ∀ character ∈ characters.head?, isBreak character = false) (afterBreak : Bool) :
    singleFrom indent afterBreak (breaks ++ characters) =
      breaks ++ blanks indent ++ singleFrom indent false characters := by
  induction breaks generalizing afterBreak with
  | nil => exact absurd rfl nonempty
  | cons character others inductionHypothesis =>
    obtain ⟨here, later⟩ := List.forall_mem_cons.mp areBreaks
    rw [List.cons_append, singleFrom, if_pos here]
    cases others with
    | nil => rw [List.nil_append, singleFrom_true sameLine]; rfl
    | cons next others => rw [inductionHypothesis later (List.cons_ne_nil _ _)]; rfl

/-- A character inside a line is written as it is, but the quote is doubled. -/
theorem singleFrom_cons (sameLine : isBreak character = false) :
    singleFrom indent false (character :: characters) =
      (if character = '\x27' then ['\x27', '\x27'] else [character])
        ++ singleFrom indent false characters := by
  rw [singleFrom, sameLine]
  rfl

/-- Where no space comes next in a text, none does in what is written for it. -/
theorem head_singleFrom (indent : Nat)
    (ends : ∀ character ∈ characters.head?, isSpace character = false)
    (rest : List Char) :
    ∀ character ∈ (singleFrom indent false characters ++ ['\x27'] ++ rest).head?,
      isSpace character = false := by
  cases characters with
  | nil =>
    rintro _ ⟨⟩
    decide
  | cons character others =>
    have notSpace := ends character rfl
    rw [singleFrom_cons (Bool.or_eq_false_iff.mp notSpace).2]
    split
    · rintro _ ⟨⟩
      decide
    · rintro _ ⟨⟩
      exact notSpace

/-- Characters whose ends of lines have no blanks around them. -/
structure IsFoldable (characters : List Char) : Prop where
  solid : AreSolid characters
  noBlankAfter : hasNeighbours isBreak (· = ' ') characters = false
  noBlankBefore : hasNeighbours (· = ' ') isBreak characters = false

/-- The back of what can be folded can be folded. -/
theorem IsFoldable.back {front back : List Char} (foldable : IsFoldable (front ++ back)) :
    IsFoldable back where
  solid character member := foldable.solid character (List.mem_append_right _ member)
  noBlankAfter := hasNeighbours_of_append foldable.noBlankAfter
  noBlankBefore := hasNeighbours_of_append foldable.noBlankBefore

/-- What can be folded can be so without its first character. -/
theorem IsFoldable.tail (foldable : IsFoldable ([character] ++ characters)) :
    IsFoldable characters :=
  foldable.back

/-- No space follows a run of blanks. -/
theorem IsFoldable.after_blanks
    (foldable : IsFoldable (List.replicate (count + 1) ' ' ++ characters))
    (notBlank : ∀ character ∈ characters.head?, character ≠ ' ') :
    ∀ character ∈ characters.head?, isSpace character = false := by
  have final : ' ' ∈ (List.replicate (count + 1) ' ').getLast? := by
    simp [List.replicate_succ']
  intro character isFirst
  have solid := foldable.back.solid character (List.mem_of_mem_head? isFirst)
  exact isSpace_of_solid solid (notBlank character isFirst)
    (not_second final (by decide) foldable.noBlankBefore character isFirst)

/-- No space follows a run of ends of lines. -/
theorem IsFoldable.after_breaks {breaks : List Char} (foldable : IsFoldable (breaks ++ characters))
    (areBreaks : ∀ character ∈ breaks, isBreak character) (nonempty : breaks ≠ [])
    (sameLine : ∀ character ∈ characters.head?, isBreak character = false) :
    ∀ character ∈ characters.head?, isSpace character = false := by
  have final : breaks.getLast nonempty ∈ breaks.getLast? := List.getLast?_eq_some_getLast nonempty
  have breaks := areBreaks _ (List.getLast_mem nonempty)
  intro character isFirst
  have solid := foldable.back.solid character (List.mem_of_mem_head? isFirst)
  have notBlank := not_second final breaks foldable.noBlankAfter character isFirst
  exact isSpace_of_solid solid (of_decide_eq_false notBlank) (sameLine character isFirst)

section Single

variable {tail : List Char}

/-- A run of blanks is read back from between apostrophes. -/
theorem takes_single_blanks (foldable : IsFoldable (List.replicate (count + 1) ' ' ++ tail))
    (notBlank : ∀ character ∈ tail.head?, character ≠ ' ')
    (others : (quotedFrom .single steps).Takes
      (singleFrom indent false tail ++ ['\x27']) tail rest) :
    (quotedFrom .single (steps + 1)).Takes
      (singleFrom indent false (List.replicate (count + 1) ' ' ++ tail) ++ ['\x27'])
      (List.replicate (count + 1) ' ' ++ tail) rest := by
  have ends := head_singleFrom indent (foldable.after_blanks notBlank) rest
  rw [singleFrom_blanks, List.append_assoc]
  exact takes_space (by decide) (Gap.takes_inLine 0 (count + 1) ends) others

/-- A run of ends of lines is read back from between apostrophes. -/
theorem takes_single_breaks {breaks : List Char}
    (foldable : IsFoldable (character :: breaks ++ tail))
    (areBreaks : ∀ each ∈ character :: breaks, isBreak each)
    (sameLine : ∀ each ∈ tail.head?, isBreak each = false) (indented : 0 < indent)
    (others : (quotedFrom .single steps).Takes
      (singleFrom indent false tail ++ ['\x27']) tail rest) :
    (quotedFrom .single (steps + 1)).Takes
      (singleFrom indent false (character :: breaks ++ tail) ++ ['\x27'])
      (character :: breaks ++ tail) rest := by
  have nonempty := List.cons_ne_nil character breaks
  have separate : ∀ each ∈ character :: breaks, IsSeparator each := fun each member =>
    (isBreak_iff_of_solid (foldable.solid each (List.mem_append_left _ member))).mp
      (areBreaks each member)
  have isSpace : isSpace character := by
    rw [isSpace, areBreaks character List.mem_cons_self, Bool.or_true]
  have ends := head_singleFrom indent
    (foldable.after_breaks areBreaks nonempty sameLine) rest
  have taken := takes_space isSpace (Gap.takes_broken 0 separate indented ends) others
  rw [Gap.text_broken (separate character List.mem_cons_self)] at taken
  rw [singleFrom_breaks areBreaks nonempty sameLine, List.append_assoc]
  exact taken

/-- Foldable characters are read back from between apostrophes. -/
theorem takes_singleFrom (foldable : IsFoldable characters) (indented : 0 < indent)
    (enough : characters.length < steps) (ends : rest.head? ≠ some '\x27') :
    (quotedFrom .single steps).Takes (singleFrom indent false characters ++ ['\x27']) characters
      rest := by
  induction steps generalizing characters with
  | zero => omega
  | succ steps inductionHypothesis =>
    cases characters with
    | nil => exact takes_mark .single steps ends
    | cons character others =>
      rw [List.length_cons] at enough
      by_cases blank : character = ' '
      · subst blank
        obtain ⟨count, tail, rfl, tailEnds⟩ := exists_blanks others
        rw [← List.cons_append, ← List.replicate_succ] at foldable ⊢
        rw [List.length_append] at enough
        exact takes_single_blanks foldable tailEnds (inductionHypothesis foldable.back (by omega))
      · by_cases breaks : isBreak character
        · obtain ⟨front, tail, rfl, areBreaks, breaksEnd⟩ := exists_span isBreak others
          rw [← List.cons_append] at foldable ⊢
          rw [List.length_append] at enough
          exact takes_single_breaks foldable (List.forall_mem_cons.mpr ⟨breaks, areBreaks⟩)
            breaksEnd indented (inductionHypothesis foldable.back (by omega))
        · have sameLine := Bool.eq_false_iff.mpr breaks
          have notSpace :=
            isSpace_of_solid (foldable.solid character List.mem_cons_self) blank sameLine
          have remaining := inductionHypothesis foldable.tail (Nat.lt_of_succ_lt_succ enough)
          rw [singleFrom_cons sameLine]
          split
          · next isMark =>
            subst isMark
            exact takes_apostrophe remaining
          · next other => exact takes_character notSpace other (by simp) remaining

end Single

/-! ## Between quotation marks -/

/-- A digit is read back. -/
theorem hexDigit?_digitChar {digit : Nat} (small : digit < 16) :
    Toml.hexDigit? (Nat.digitChar digit).toUpper = some digit := by
  revert digit
  decide

/-- A code is written with as many digits as are asked for. -/
theorem length_hexDigits (count code : Nat) : (hexDigits count code).length = count := by
  rw [hexDigits, List.length_map, List.length_reverse, List.length_range]

/-- Hexadecimal digits go on from the value of the digits before them. -/
theorem foldlM_hexDigits (count code value : Nat) :
    (hexDigits count code).foldlM
        (fun value digit => (Toml.hexDigit? digit).map (value * 16 + ·)) value =
      some (value * 16 ^ count + code % 16 ^ count) := by
  induction count generalizing value with
  | zero => simp [hexDigits, Nat.mod_one]
  | succ count inductionHypothesis =>
    have first : hexDigits (count + 1) code =
        (Nat.digitChar (code / 16 ^ count % 16)).toUpper :: hexDigits count code := by
      simp [hexDigits, List.range_succ]
    rw [first, List.foldlM_cons, hexDigit?_digitChar (Nat.mod_lt _ (by decide)), Option.map_some]
    change List.foldlM _ _ _ = _
    rw [inductionHypothesis, Nat.mod_pow_succ, Nat.pow_succ]
    rw [Nat.add_mul, Nat.mul_right_comm, Nat.mul_assoc, Nat.mul_comm (_ % 16), Nat.add_assoc,
      Nat.add_comm (16 ^ count * _)]

/-- A code is read back from its digits. -/
theorem valueOfDigits_hexDigits {count code : Nat} (small : code < 16 ^ count) :
    Toml.valueOfDigits 16 (hexDigits count code) = some code := by
  rw [Toml.valueOfDigits, foldlM_hexDigits, Nat.mod_eq_of_lt small, Nat.zero_mul, Nat.zero_add]

open Take (Takes takes_left takes_lift takes_peek takes_pure takes_skip)

/-- A character is read back from the digits of its code. -/
theorem takes_numberedCharacter {count : Nat} (small : character.toNat < 16 ^ count)
    (rest : List Char) :
    (numberedCharacter count).Takes (hexDigits count character.toNat) character rest := by
  have length := length_hexDigits count character.toNat
  have meant := valueOfDigits_hexDigits small
  generalize hexDigits count character.toNat = digits at length meant ⊢
  have skipped : (Take.skip count).Takes digits () rest := length ▸ takes_skip digits rest
  have valid : Nat.isValidChar character.toNat := character.valid
  refine (takes_left _).look ?_
  rw [List.take_left' length]
  dsimp only
  rw [length, if_neg (Nat.lt_irrefl count), meant]
  refine (takes_lift _ _).look ?_
  rw [if_pos valid]
  refine skipped.tell ?_
  rw [Char.ofNat_toNat]
  exact takes_pure character rest

/-- An escape of one letter is read as what the letter means. -/
theorem takes_escape_letter {letter : Char} (noDigits : escapedDigits? letter = none)
    (means : escapedLetter? letter = some character) (rest : List Char) :
    escape.Takes [letter] character rest := by
  refine (takes_peek _).look ((takes_skip [letter] rest).tell ?_)
  rw [noDigits, means]
  exact takes_pure character rest

/-- An escape with digits is read as the character of their code. -/
theorem takes_escape_digits {letter : Char} {count : Nat}
    (digits : escapedDigits? letter = some count)
    (small : character.toNat < 16 ^ count) (rest : List Char) :
    escape.Takes (letter :: hexDigits count character.toNat) character rest := by
  refine (takes_peek _).look ((takes_skip [letter] _).bind ?_)
  rw [digits]
  exact takes_numberedCharacter small rest

/-- How a solid character is written that has no letter of its own. -/
theorem escaped_of_solid (solid : ¬ IsControl character) (notQuote : character ≠ '"')
    (notBackslash : character ≠ '\\') (notSeparator : ¬ IsSeparator character) :
    escaped character =
      if isPrintable character then [character]
      else if character.toNat ≤ 0xFFFF then '\\' :: 'u' :: hexDigits 4 character.toNat
      else '\\' :: 'U' :: hexDigits 8 character.toNat := by
  have bounds := solid
  rw [IsControl] at bounds
  rw [IsSeparator, not_or] at notSeparator
  have low : character.toNat ≤ 0xFF → isPrintable character := by
    simp only [isPrintable, Bool.or_eq_true, Bool.and_eq_true, decide_eq_true_eq]
    omega
  unfold escaped
  split
  any_goals first
    | exact absurd (by decide) solid
    | exact absurd rfl notQuote
    | exact absurd rfl notBackslash
  dsimp only
  rw [if_neg (by omega), if_neg notSeparator.1, if_neg notSeparator.2]
  split
  · rfl
  · next hidden => rw [if_neg (fun small => hidden (low small))]

/-- A solid character that is no blank stands for itself between quotation marks, or an escape
sequence stands for it. -/
theorem escaped_cases (solid : ¬ IsControl character) (notBlank : character ≠ ' ') :
    (escaped character = [character] ∧ isSpace character = false ∧ character ≠ '"' ∧
        character ≠ '\\') ∨
      ∃ letter digits, escaped character = '\\' :: letter :: digits ∧ isBreak letter = false ∧
        ∀ rest, escape.Takes (letter :: digits) character rest := by
  by_cases isQuote : character = '"'
  · subst isQuote
    exact .inr ⟨'"', [], rfl, by decide, takes_escape_letter rfl rfl⟩
  by_cases isBackslash : character = '\\'
  · subst isBackslash
    exact .inr ⟨'\\', [], rfl, by decide, takes_escape_letter rfl rfl⟩
  by_cases isLine : character.toNat = 0x2028
  · obtain rfl : character = Char.ofNat 0x2028 := Char.toNat_inj.mp isLine
    exact .inr ⟨'L', [], rfl, by decide, takes_escape_letter rfl rfl⟩
  by_cases isParagraph : character.toNat = 0x2029
  · obtain rfl : character = Char.ofNat 0x2029 := Char.toNat_inj.mp isParagraph
    exact .inr ⟨'P', [], rfl, by decide, takes_escape_letter rfl rfl⟩
  have notSeparator : ¬ IsSeparator character := not_or.mpr ⟨isLine, isParagraph⟩
  have sameLine : isBreak character = false := Bool.eq_false_iff.mpr fun breaks =>
    notSeparator ((isBreak_iff_of_solid solid).mp breaks)
  rw [escaped_of_solid solid isQuote isBackslash notSeparator]
  split_ifs with printable small
  · exact .inl ⟨rfl, isSpace_of_solid solid notBlank sameLine, isQuote, isBackslash⟩
  · exact .inr ⟨'u', _, rfl, by decide, takes_escape_digits rfl (by omega)⟩
  · have valid : Nat.isValidChar character.toNat := character.valid
    rw [Nat.isValidChar] at valid
    exact .inr ⟨'U', _, rfl, by decide, takes_escape_digits rfl (by omega)⟩

/-- Where no blank comes next in a text, no space does in what is written for it. -/
theorem head_escaped (solid : AreSolid characters)
    (notBlank : ∀ character ∈ characters.head?, character ≠ ' ') (rest : List Char) :
    ∀ character ∈ (characters.flatMap escaped ++ ['"'] ++ rest).head?,
      isSpace character = false := by
  cases characters with
  | nil =>
    rintro _ ⟨⟩
    decide
  | cons character others =>
    rw [List.flatMap_cons]
    rcases escaped_cases (solid character List.mem_cons_self) (notBlank character rfl) with
      ⟨itself, notSpace, -⟩ | ⟨letter, digits, coded, -⟩
    · rw [itself]
      rintro _ ⟨⟩
      exact notSpace
    · rw [coded]
      rintro _ ⟨⟩
      decide

/-- Blanks are not escaped. -/
theorem flatMap_escaped_blanks (count : Nat) :
    (List.replicate count ' ').flatMap escaped = List.replicate count ' ' := by
  induction count with
  | zero => rfl
  | succ count inductionHypothesis =>
    rw [List.replicate_succ, List.flatMap_cons, inductionHypothesis]
    rfl

/-- Solid characters are read back from between quotation marks. -/
theorem takes_escaped (solid : AreSolid characters) (enough : characters.length < steps)
    (ends : rest.head? ≠ some '\x27') :
    (quotedFrom .double steps).Takes (characters.flatMap escaped ++ ['"']) characters rest := by
  induction steps generalizing characters with
  | zero => omega
  | succ steps inductionHypothesis =>
    cases characters with
    | nil => exact takes_mark .double steps ends
    | cons character others =>
      rw [List.length_cons] at enough
      obtain ⟨here, later⟩ := List.forall_mem_cons.mp solid
      by_cases blank : character = ' '
      · subst blank
        obtain ⟨count, tail, rfl, tailEnds⟩ := exists_blanks others
        have tailSolid : AreSolid tail := fun each member =>
          later each (List.mem_append_right _ member)
        rw [List.length_append] at enough
        have remaining := inductionHypothesis tailSolid (by omega)
        rw [← List.cons_append, ← List.replicate_succ, List.flatMap_append, List.append_assoc,
          flatMap_escaped_blanks]
        exact takes_space (by decide)
          (Gap.takes_inLine 0 (count + 1) (head_escaped tailSolid tailEnds rest)) remaining
      · have remaining := inductionHypothesis later (Nat.lt_of_succ_lt_succ enough)
        rw [List.flatMap_cons, List.append_assoc]
        rcases escaped_cases here blank with ⟨itself, notSpace, other, plain⟩ |
          ⟨letter, digits, coded, sameLine, taken⟩
        · rw [itself]
          exact takes_character notSpace other (fun _ => plain) remaining
        · rw [coded]
          refine takes_escape ?_ (taken _) remaining
          rintro _ ⟨⟩
          exact sameLine

/-! ## Whole scalars -/

/-- Every character is written as something. -/
theorem escaped_ne_nil (character : Char) : escaped character ≠ [] := by
  unfold escaped
  split
  any_goals exact List.cons_ne_nil _ _
  dsimp only
  split_ifs <;> exact List.cons_ne_nil _ _

/-- Escapes make no text shorter. -/
theorem length_le_escaped (characters : List Char) :
    characters.length ≤ (characters.flatMap escaped).length := by
  induction characters with
  | nil => exact Nat.le_refl 0
  | cons character others inductionHypothesis =>
    have nonempty := List.length_pos_iff.mpr (escaped_ne_nil character)
    rw [List.flatMap_cons, List.length_append, List.length_cons]
    omega

/-- Single quotes make no text shorter. -/
theorem length_le_singleFrom (indent : Nat) (afterBreak : Bool) (characters : List Char) :
    characters.length ≤ (singleFrom indent afterBreak characters).length := by
  induction characters generalizing afterBreak with
  | nil => exact Nat.zero_le _
  | cons character others inductionHypothesis =>
    have fewer := inductionHypothesis false
    have fewerAfter := inductionHypothesis true
    rw [singleFrom]
    split
    · rw [List.length_cons, List.length_cons]
      omega
    · dsimp only
      rw [List.length_append, List.length_append, List.length_cons]
      split_ifs <;> simp only [List.length_cons, List.length_nil] <;> omega

/-- Foldable characters are taken from between apostrophes. -/
theorem takes_single (foldable : IsFoldable characters) (indented : 0 < indent)
    (ends : rest.head? ≠ some '\x27') :
    (quoted .single).Takes (writeStyled indent .single characters) characters rest := by
  have fewer := length_le_singleFrom indent false characters
  refine (takes_skip ['\x27'] _).bind
    ((takes_left _).look (takes_singleFrom foldable indented ?_ ends))
  rw [List.length_append, List.append_eq, List.length_append]
  omega

/-- Solid characters are taken from between quotation marks. -/
theorem takes_double (solid : AreSolid characters) (indent : Nat)
    (ends : rest.head? ≠ some '\x27') :
    (quoted .double).Takes (writeStyled indent .double characters) characters rest := by
  have fewer := length_le_escaped characters
  refine (takes_skip ['"'] _).bind ((takes_left _).look (takes_escaped solid ?_ ends))
  rw [List.length_append, List.append_eq, List.length_append]
  omega

end ElmWorkbench.Yaml
