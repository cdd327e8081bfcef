import ElmWorkbench.Proofs.Text.Control
import ElmWorkbench.Proofs.Toml.Scanning
import ElmWorkbench.Yaml.Cursor
/-!
# What is taken inside a line of YAML

`Take.Takes` tells which characters are taken from a place inside a line, and what value is given
for them. Gaps between words are taken as far as they go, blanks inside a line
(`Gap.takes_inLine`) as well as ends of lines with an indentation (`Gap.takes_broken`).
-/

namespace ElmWorkbench.Yaml

open Text (IsControl)
open Toml.Scan (bind_of_some)

/-! ## Taking characters -/

namespace Take

variable {Value Result : Type} {take : Take Value} {next : Value → Take Result}
  {value : Value} {result : Result} {front back rest : List Char}

/-- From any place inside a line, a value is taken with the characters that come first, and the
place after them is inside a line, too. -/
def Takes (take : Take Value) (front : List Char) (value : Value) (rest : List Char) : Prop :=
  ∀ cursor : Cursor, cursor.rest = front ++ rest → 0 < cursor.column →
    ∃ after, take cursor = some (value, after) ∧ after.rest = rest ∧ 0 < after.column

/-- A value is given without taking a character. -/
theorem takes_pure (value : Value) (rest : List Char) :
    (pure value : Take Value).Takes [] value rest :=
  fun cursor isLeft inside => ⟨cursor, rfl, isLeft, inside⟩

/-- Two values are taken one after the other. -/
theorem Takes.bind (first : take.Takes front value (back ++ rest))
    (second : (next value).Takes back result rest) :
    (take >>= next).Takes (front ++ back) result rest := by
  intro cursor isLeft inside
  rw [List.append_assoc] at isLeft
  obtain ⟨between, taken, betweenLeft, betweenInside⟩ := first cursor isLeft inside
  rw [bind_of_some taken]
  exact second between betweenLeft betweenInside

/-- What is done with a value once it is taken takes nothing more. -/
theorem Takes.tell (first : take.Takes front value rest)
    (told : (next value).Takes [] result rest) :
    (take >>= next).Takes front result rest := by
  rw [← List.append_nil front]
  exact first.bind told

/-- What is done with a value that is only looked at takes the characters. -/
theorem Takes.look (looked : take.Takes [] value (front ++ rest))
    (second : (next value).Takes front result rest) : (take >>= next).Takes front result rest :=
  looked.bind second

/-- A look at the next character takes none. -/
theorem takes_peek (rest : List Char) : peek.Takes [] rest.head? rest := by
  rintro cursor rfl inside
  exact ⟨cursor, rfl, rfl, inside⟩

/-- A look at what is left takes nothing. -/
theorem takes_left (rest : List Char) : left.Takes [] rest rest := by
  rintro cursor rfl inside
  exact ⟨cursor, rfl, rfl, inside⟩

/-- A value that exists needs no characters. -/
theorem takes_lift (value : Value) (rest : List Char) :
    (liftM (some value) : Take Value).Takes [] value rest :=
  fun cursor isLeft inside => ⟨cursor, rfl, isLeft, inside⟩

/-- Characters that are skipped are taken. -/
theorem takes_skip (front rest : List Char) : (skip front.length).Takes front () rest := by
  intro cursor isLeft inside
  exact ⟨_, rfl, by rw [Cursor.skip, isLeft, List.drop_left], Nat.add_pos_left inside _⟩

/-- No document marker stands inside a line. -/
theorem takes_get {next : Cursor → Take Result}
    (taken : ∀ cursor : Cursor, cursor.atMarker = false → (next cursor).Takes front result rest) :
    (get >>= next).Takes front result rest := by
  intro cursor isLeft inside
  have unmarked : cursor.atMarker = false := by
    rw [Cursor.atMarker, decide_eq_false (Nat.ne_of_gt inside)]
    rfl
  exact taken cursor unmarked cursor isLeft inside

end Take

/-- To skip twice is to skip the sum. -/
theorem Cursor.skip_skip (cursor : Cursor) (first second : Nat) :
    (cursor.skip first).skip second = cursor.skip (first + second) := by
  simp [skip, Nat.add_assoc]

/-! ## Gaps -/

variable {character : Char} {characters text rest : List Char} {cursor : Cursor} {gap : Gap}
  {indent steps count : Nat}

/-- The two characters that end a line and are no controls. -/
def IsSeparator (character : Char) : Prop :=
  character.toNat = 0x2028 ∨ character.toNat = 0x2029

instance (character : Char) : Decidable (IsSeparator character) :=
  inferInstanceAs (Decidable (_ ∨ _))

/-- A separator ends a line. -/
theorem isBreak_of_separator (separates : IsSeparator character) : isBreak character := by
  simp only [isBreak, Bool.or_eq_true, decide_eq_true_eq]
  exact separates.elim (fun isLine => .inl (.inr isLine)) .inr

/-- The breaks that are no controls are the separators. -/
theorem isBreak_iff_of_solid (solid : ¬ IsControl character) :
    isBreak character ↔ IsSeparator character := by
  rw [IsControl] at solid
  simp only [isBreak, IsSeparator, Bool.or_eq_true, decide_eq_true_eq]
  omega

/-- The only blank that is no control is the space. -/
theorem isBlank_iff_of_solid (solid : ¬ IsControl character) :
    isBlank character ↔ character = ' ' := by
  rw [isBlank, Bool.or_eq_true, decide_eq_true_eq, decide_eq_true_eq, or_iff_left]
  rintro rfl
  exact solid (by decide)

/-- A character that is neither a control nor a space, and ends no line, is none of the white
space. -/
theorem isSpace_of_solid (solid : ¬ IsControl character) (notBlank : character ≠ ' ')
    (sameLine : isBreak character = false) : isSpace character = false := by
  have noBlank : isBlank character = false :=
    Bool.eq_false_iff.mpr fun blank => notBlank ((isBlank_iff_of_solid solid).mp blank)
  rw [isSpace, noBlank, sameLine]
  rfl

namespace Gap

/-- A gap ends before a character that is no white space. -/
theorem takeFrom_end (ends : ∀ character ∈ cursor.rest.head?, isSpace character = false) :
    takeFrom indent (steps + 1) gap cursor = some (gap, cursor) := by
  rw [takeFrom, bind_of_some (show Take.peek cursor = some (cursor.rest.head?, cursor) from rfl)]
  cases isNext : cursor.rest.head? with
  | none => rfl
  | some character =>
    have other := ends character isNext
    rw [isSpace, Bool.or_eq_false_iff] at other
    dsimp only
    rw [other.1, other.2]
    rfl

/-- A blank belongs to a gap, and counts before the first break. -/
theorem takeFrom_blank (isLeft : cursor.rest = ' ' :: text) :
    takeFrom indent (steps + 1) gap cursor =
      takeFrom indent steps
        (if gap.crossesLine then gap else { gap with blanks := gap.blanks ++ [' '] })
        (cursor.skip 1) := by
  have isNext : Take.peek cursor = some (some ' ', cursor) := by
    rw [Take.peek, isLeft]
    rfl
  rw [takeFrom, bind_of_some isNext]
  obtain ⟨blanks, crossesLine, firstBreak, moreBreaks⟩ := gap
  cases crossesLine <;> rfl

/-- A break belongs to a gap. -/
theorem takeFrom_break {written : List Char} {next : Cursor}
    (isLeft : cursor.rest = character :: text) (breaks : isBreak character)
    (taken : Take.lineBreak cursor = some (written, next)) :
    takeFrom indent (steps + 1) gap cursor = takeFrom indent steps (gap.addBreak written) next := by
  have isNext : Take.peek cursor = some (some character, cursor) := by
    rw [Take.peek, isLeft]
    rfl
  have notBlank : isBlank character = false := by
    refine Bool.eq_false_iff.mpr fun blank => ?_
    rw [isBlank, Bool.or_eq_true, decide_eq_true_eq, decide_eq_true_eq] at blank
    rcases blank with rfl | rfl <;> exact absurd breaks (by decide)
  rw [takeFrom, bind_of_some isNext]
  dsimp only
  rw [notBlank, breaks]
  exact bind_of_some taken

/-- Blanks inside a line are kept. -/
theorem takes_blanks (inLine : gap.crossesLine = false)
    (ends : ∀ character ∈ rest.head?, isSpace character = false) (enough : count < steps) :
    (takeFrom indent steps gap).Takes (List.replicate count ' ')
      { gap with blanks := gap.blanks ++ List.replicate count ' ' } rest := by
  obtain ⟨steps, rfl⟩ := Nat.exists_eq_add_one.mpr (Nat.zero_lt_of_lt enough)
  induction count generalizing gap steps with
  | zero =>
    rintro cursor rfl inside
    exact ⟨cursor, by rw [takeFrom_end ends, List.replicate_zero, List.append_nil], rfl, inside⟩
  | succ count inductionHypothesis =>
    intro cursor isLeft inside
    obtain ⟨steps, rfl⟩ : ∃ fewer, steps = fewer + 1 := Nat.exists_eq_add_one.mpr (by omega)
    have more : (cursor.skip 1).rest = List.replicate count ' ' ++ rest := by
      rw [Cursor.skip, isLeft]
      rfl
    obtain ⟨after, taken, afterLeft, afterInside⟩ :=
      @inductionHypothesis { gap with blanks := gap.blanks ++ [' '] } inLine steps (by omega)
        (cursor.skip 1) more (Nat.succ_pos _)
    refine ⟨after, ?_, afterLeft, afterInside⟩
    rw [takeFrom_blank (by rw [isLeft]; rfl), if_neg (by simp [inLine]), taken]
    simp [List.replicate_succ]

/-- Blanks at the start of a line are left out. -/
theorem takeFrom_indentation (crosses : gap.crossesLine)
    (isLeft : cursor.rest = List.replicate count ' ' ++ rest)
    (ends : ∀ character ∈ rest.head?, isSpace character = false) (enough : count < steps) :
    takeFrom indent steps gap cursor = some (gap, cursor.skip count) := by
  obtain ⟨steps, rfl⟩ := Nat.exists_eq_add_one.mpr (Nat.zero_lt_of_lt enough)
  induction count generalizing cursor steps with
  | zero =>
    rw [List.replicate_zero, List.nil_append] at isLeft
    exact takeFrom_end (isLeft ▸ ends)
  | succ count inductionHypothesis =>
    obtain ⟨steps, rfl⟩ : ∃ fewer, steps = fewer + 1 := Nat.exists_eq_add_one.mpr (by omega)
    have more : (cursor.skip 1).rest = List.replicate count ' ' ++ rest := by
      rw [Cursor.skip, isLeft]
      rfl
    rw [takeFrom_blank (by rw [isLeft]; rfl), if_pos crosses,
      inductionHypothesis more steps (by omega), Cursor.skip_skip, Nat.add_comm]

/-- A separator is a break of its own. -/
theorem lineBreak_of_separator (isLeft : cursor.rest = character :: text)
    (separates : IsSeparator character) :
    Take.lineBreak cursor = some ([character], cursor.nextLine 1) := by
  rw [Take.lineBreak]
  split
  · next same =>
    obtain ⟨rfl, -⟩ := List.cons.inj (isLeft.symm.trans same)
    exact absurd separates (by decide)
  · next same =>
    obtain ⟨rfl, -⟩ := List.cons.inj (isLeft.symm.trans same)
    rw [isBreak_of_separator separates, if_neg (by decide),
      if_pos (by simpa [IsSeparator] using separates)]
  · next empty => cases isLeft.symm.trans empty

/-- Separators are kept, and the indentation after them is left out. -/
theorem takeFrom_separators {separators : List Char}
    (separate : ∀ character ∈ separators, IsSeparator character) (crosses : gap.crossesLine)
    (isLeft : cursor.rest = separators ++ List.replicate count ' ' ++ rest)
    (ends : ∀ character ∈ rest.head?, isSpace character = false)
    (enough : separators.length + count < steps) :
    ∃ after, takeFrom indent steps gap cursor =
      some ({ gap with moreBreaks := gap.moreBreaks ++ separators }, after) ∧ after.rest = rest ∧
      count ≤ after.column := by
  induction separators generalizing cursor steps gap with
  | nil =>
    refine ⟨cursor.skip count, ?_, ?_, Nat.le_add_left _ _⟩
    · rw [takeFrom_indentation crosses isLeft ends (by simpa using enough), List.append_nil]
    · rw [Cursor.skip, isLeft]
      simp
  | cons character others inductionHypothesis =>
    obtain ⟨separates, later⟩ := List.forall_mem_cons.mp separate
    rw [List.length_cons] at enough
    obtain ⟨fewer, rfl⟩ : ∃ fewer, steps = fewer + 1 := Nat.exists_eq_add_one.mpr (by omega)
    have more : (cursor.nextLine 1).rest = others ++ List.replicate count ' ' ++ rest := by
      rw [Cursor.nextLine, isLeft]
      rfl
    obtain ⟨after, taken, afterLeft, deep⟩ :=
      @inductionHypothesis (cursor.nextLine 1)
        { gap with moreBreaks := gap.moreBreaks ++ [character] } fewer later crosses more (by omega)
    refine ⟨after, ?_, afterLeft, deep⟩
    rw [takeFrom_break isLeft (isBreak_of_separator separates)
      (lineBreak_of_separator isLeft separates), addBreak, if_pos crosses, taken]
    simp

/-- A gap inside a line is its blanks. -/
def inLine (count : Nat) : Gap :=
  { empty with blanks := List.replicate count ' ' }

/-- A gap that begins with a separator. -/
def broken (first : Char) (others : List Char) : Gap :=
  { empty with crossesLine := true, firstBreak := [first], moreBreaks := others }

/-- The text of a gap with breaks is its breaks. -/
theorem text_broken {first : Char} (separates : IsSeparator first) (others : List Char) :
    (broken first others).text = first :: others := by
  have other : [first] ≠ ['\n'] := by
    intro same
    obtain rfl : first = '\n' := List.head_eq_of_cons_eq same
    exact absurd separates (by decide)
  exact if_neg other

/-- Blanks inside a line are taken as a gap. -/
theorem takes_inLine (indent count : Nat)
    (ends : ∀ character ∈ rest.head?, isSpace character = false) :
    (empty.take indent).Takes (List.replicate count ' ') (inLine count) rest := by
  refine (Take.takes_left _).bind (takes_blanks rfl ends ?_)
  rw [List.length_append, List.length_replicate]
  omega

/-- Breaks and the blanks behind them are taken as a gap. -/
theorem takes_broken {first : Char} {others : List Char} (indent : Nat)
    (separate : ∀ character ∈ first :: others, IsSeparator character) (indented : 0 < count)
    (ends : ∀ character ∈ rest.head?, isSpace character = false) :
    (empty.take indent).Takes (first :: others ++ List.replicate count ' ') (broken first others)
      rest := by
  obtain ⟨separates, later⟩ := List.forall_mem_cons.mp separate
  refine (Take.takes_left _).bind fun cursor isLeft _ => ?_
  have more : (cursor.nextLine 1).rest = others ++ List.replicate count ' ' ++ rest := by
    rw [Cursor.nextLine, isLeft]
    rfl
  rw [takeFrom_break isLeft (isBreak_of_separator separates)
    (lineBreak_of_separator isLeft separates)]
  have crosses : (empty.addBreak [first]).crossesLine := rfl
  have enough :
      others.length + count < (first :: others ++ List.replicate count ' ' ++ rest).length := by
    rw [List.length_append, List.length_append, List.length_cons, List.length_replicate]
    omega
  obtain ⟨after, taken, afterLeft, deep⟩ := takeFrom_separators later crosses more ends enough
  exact ⟨after, taken, afterLeft, Nat.lt_of_lt_of_le indented deep⟩

/-- A gap that begins with the end of a line goes on to the next line. -/
theorem take_newline (indent : Nat) (isLeft : cursor.rest = '\n' :: rest)
    (ends : ∀ character ∈ rest.head?, isSpace character = false) :
    empty.take indent cursor =
      some ({ empty with crossesLine := true, firstBreak := ['\n'] }, cursor.nextLine 1) := by
  have taken : Take.lineBreak cursor = some (['\n'], cursor.nextLine 1) := by
    rw [Take.lineBreak, isLeft]
    rfl
  have remaining : Take.left cursor = some ('\n' :: rest, cursor) := by
    rw [Take.left, isLeft]
  have nextEnds : ∀ character ∈ (cursor.nextLine 1).rest.head?, isSpace character = false := by
    rw [Cursor.nextLine, isLeft]
    exact ends
  rw [take, bind_of_some remaining, takeFrom_break isLeft (by decide) taken]
  exact takeFrom_end nextEnds

end Gap

end ElmWorkbench.Yaml
