import ElmWorkbench.Toml.Scan
/-!
# What scanners take

`Scan.Takes` tells which characters a scanner takes from the front of a text, and what value it
gives for them. It composes along sequences (`Scan.Takes.bind`), so a document is taken piece by
piece as it was written.
-/

namespace ElmWorkbench.Toml.Scan

variable {Value Result : Type} {scan other : Scan Value} {next : Value → Scan Result}
  {value : Value} {result : Result} {text front back rest : List Char}

/-- A scanner takes the front of a text and gives a value for it. -/
def Takes (scan : Scan Value) (front : List Char) (value : Value) (rest : List Char) : Prop :=
  scan (front ++ rest) = some (value, rest)

/-! ## Sequences and choices -/

section Sequence

variable {State : Type} {action : StateT State Option Value}
  {onward : Value → StateT State Option Result}
  {before after : State}

/-- What follows an action goes on from where that ended. -/
theorem bind_of_some (done : action before = some (value, after)) :
    (action >>= onward) before = onward value after := by
  change (action before).bind (fun taken => onward taken.1 taken.2) = _
  rw [done]
  rfl

/-- Nothing follows a scanner that failed. -/
theorem bind_of_none (failed : action before = none) : (action >>= onward) before = none := by
  change (action before).bind (fun taken => onward taken.1 taken.2) = _
  rw [failed]
  rfl

end Sequence

/-- A value is given without taking a character. -/
theorem takes_pure (value : Value) (rest : List Char) :
    (pure value : Scan Value).Takes [] value rest :=
  rfl

/-- A value that exists needs no characters. -/
theorem lift_some (value : Value) (text : List Char) :
    (liftM (some value) : Scan Value) text = some (value, text) :=
  rfl

/-- Two scanners take their texts one after the other. -/
theorem Takes.bind (first : scan.Takes front value (back ++ rest))
    (second : (next value).Takes back result rest) :
    (scan >>= next).Takes (front ++ back) result rest := by
  rw [Takes, List.append_assoc, bind_of_some first]
  exact second

/-- What is done with a value once it is taken takes nothing more. -/
theorem Takes.tell (first : scan.Takes front value rest)
    (told : (next value).Takes [] result rest) :
    (scan >>= next).Takes front result rest := by
  rw [← List.append_nil front]
  exact first.bind told

/-- What is made of a value takes the text of the value. -/
theorem Takes.map (taken : scan.Takes front value rest) (change : Value → Result) :
    (change <$> scan).Takes front (change value) rest := by
  change (scan >>= fun value => pure (change value)) (front ++ rest) = _
  exact bind_of_some taken

/-- The second choice does not matter if the first one takes its text. -/
theorem Takes.orElse (taken : scan.Takes front value rest) :
    (scan <|> other).Takes front value rest := by
  change (scan (front ++ rest) <|> other (front ++ rest)) = _
  rw [taken]
  rfl

/-- The second of two scanners is tried where the first fails. -/
theorem Takes.orElse_of_none (failed : scan (front ++ rest) = none)
    (taken : other.Takes front value rest) : (scan <|> other).Takes front value rest := by
  change (scan (front ++ rest) <|> other (front ++ rest)) = _
  rw [failed]
  exact taken

/-- Two choices that fail do so together. -/
theorem orElse_of_none (failed : scan text = none) (failedToo : other text = none) :
    (scan <|> other) text = none := by
  change (scan text <|> other text) = none
  rw [failed, failedToo]
  rfl

/-! ## Characters -/

/-- What is left of a text is all of it. -/
theorem left_apply (text : List Char) : left text = some (text, text) :=
  rfl

/-- What is left can be set to any text. -/
theorem set_apply (text taken : List Char) : (set text : Scan Unit) taken = some ((), text) :=
  rfl

/-- A look at the next character takes none. -/
theorem takes_peek (rest : List Char) : peek.Takes [] rest.head? rest :=
  rfl

/-- A word is taken where it stands. -/
theorem takes_word (characters rest : List Char) : (word characters).Takes characters () rest := by
  have begins : characters.isPrefixOf (characters ++ rest) :=
    List.isPrefixOf_iff_prefix.mpr (List.prefix_append _ _)
  rw [Takes, word, if_pos begins, List.drop_left]

/-- A word is not taken where it does not stand. -/
theorem word_of_absent {characters : List Char} (other : ¬ characters <+: text) :
    word characters text = none :=
  if_neg fun begins => other (List.isPrefixOf_iff_prefix.mp begins)

/-- A word that is only looked for is not found where it does not stand. -/
theorem takes_not_found {characters : List Char} (other : ¬ characters <+: rest) :
    (found characters).Takes [] false rest :=
  if_neg fun begins => other (List.isPrefixOf_iff_prefix.mp begins)

/-- A run ends where a character does not pass the test. -/
theorem takes_run {test : Char → Bool} (passes : ∀ character ∈ front, test character)
    (ends : ∀ character ∈ rest.head?, test character = false) :
    (run test).Takes front front rest := by
  have stops : rest.takeWhile test = [] ∧ rest.dropWhile test = rest := by
    cases rest with
    | nil => exact ⟨rfl, rfl⟩
    | cons character more =>
      have fails : test character = false := ends character rfl
      simp [fails]
  rw [Takes, run, List.takeWhile_append_of_pos passes, List.dropWhile_append_of_pos passes, stops.1,
    stops.2, List.append_nil]

/-- Where no blank comes next, none is skipped. -/
theorem takes_blanks (ends : ∀ character ∈ rest.head?, isBlank character = false) :
    blanks.Takes [] () rest :=
  (takes_run (List.forall_mem_nil _) ends).tell (takes_pure () rest)

/-- One blank is skipped before a character that is none. -/
theorem takes_blank (ends : ∀ character ∈ rest.head?, isBlank character = false) :
    blanks.Takes [' '] () rest :=
  (takes_run (by decide) ends).tell (takes_pure () rest)

/-- A word does not begin a text that begins with another character. -/
theorem not_prefix_of_head {characters : List Char} {character : Char}
    (other : ∀ first ∈ text.head?, first ≠ character) : ¬ character :: characters <+: text := by
  rintro ⟨more, rfl⟩
  exact other character rfl rfl

/-- No line ends where another character comes next. -/
theorem newline_of_head (other : ∀ first ∈ text.head?, first ≠ '\n' ∧ first ≠ '\r') :
    newline text = none :=
  orElse_of_none
    (word_of_absent (not_prefix_of_head fun first isFirst => (other first isFirst).1))
    (word_of_absent (not_prefix_of_head fun first isFirst => (other first isFirst).2))

/-- An attempt that fails leaves the text as it was. -/
theorem attempt_of_none (failed : scan text = none) : attempt scan text = some (none, text) := by
  rw [attempt, failed]

end ElmWorkbench.Toml.Scan
