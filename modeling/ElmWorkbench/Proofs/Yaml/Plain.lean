import ElmWorkbench.Proofs.Yaml.Quoted
/-!
# Plain scalars in YAML

A text that may stand without marks is read back from before the end of its line (`plain_of_fluent`).
-/

namespace ElmWorkbench.Yaml

open Text (AreSolid IsControl)
open Toml.Scan (bind_of_some)

variable {before character : Char} {characters word others tail rest : List Char} {cursor : Cursor}
  {gap : Gap} {indent steps : Nat}

/-- White space ends a word. -/
theorem endsWord_cons (character : Char) (rest : List Char) :
    endsWord (character :: rest) = isSpace character :=
  rfl

/-- A word goes on as long as no white space and no colon before white space comes next. -/
theorem plainWord?_append (notSpace : ∀ character ∈ word, isSpace character = false)
    (fluent : hasInnerIndicator before (word ++ others) = false) (othersEnd : endsWord others)
    (stops : plainWord? false tail = some []) : plainWord? false (word ++ tail) = some word := by
  induction word generalizing before with
  | nil => exact stops
  | cons character word inductionHypothesis =>
    obtain ⟨here, later⟩ := List.forall_mem_cons.mp notSpace
    rw [List.cons_append, hasInnerIndicator, Bool.or_eq_false_iff, Bool.or_eq_false_iff] at fluent
    have noColon : (character = ':' && endsWord (word ++ tail)) = false := by
      cases word with
      | nil =>
        rw [List.nil_append, othersEnd, Bool.and_true] at fluent
        rw [fluent.1.1, Bool.false_and]
      | cons next word =>
        rw [List.cons_append, endsWord_cons, later next List.mem_cons_self, Bool.and_false]
    rw [List.cons_append, plainWord?, here, if_neg (by decide), Bool.false_and, Bool.false_and,
      if_neg (by decide), noColon, if_neg (by decide), Bool.false_and, if_neg (by decide),
      inductionHypothesis later fluent.2]
    rfl

/-- What stands after a blank is told apart from the characters before it. -/
theorem hasInnerIndicator_of_append {front back : List Char} 
    (fluent : hasInnerIndicator before (front ++ ' ' :: back) = false) :
    hasInnerIndicator ' ' back = false := by
  induction front generalizing before with
  | nil =>
    rw [List.nil_append, hasInnerIndicator, Bool.or_eq_false_iff] at fluent
    exact fluent.2
  | cons character front inductionHypothesis =>
    rw [List.cons_append, hasInnerIndicator, Bool.or_eq_false_iff] at fluent
    exact inductionHypothesis fluent.2

/-- No comment begins where a scalar does. -/
theorem noComment_of_fluent (fluent : hasInnerIndicator ' ' (character :: characters) = false) :
    character ≠ '#' := by
  rintro rfl
  rw [hasInnerIndicator] at fluent
  simp [isSpace, isBlank] at fluent

/-- A word is taken, and what follows it decides how the scalar goes on. -/
theorem plainFrom_word {first : Char} (unmarked : cursor.atMarker = false)
    (isLeft : cursor.rest = first :: word ++ tail) (noComment : first ≠ '#')
    (isWord : plainWord? false (first :: word ++ tail) = some (first :: word)) :
    plainFrom false indent (steps + 1) gap cursor =
      (if tail.head?.any isSpace then do
          let after ← Gap.empty.take indent
          if (← get).column < indent then
            pure { text := gap.text ++ first :: word, crossesLine := after.crossesLine }
          else
            let others ← plainFrom false indent steps after
            pure { others with text := gap.text ++ first :: word ++ others.text }
        else pure { text := gap.text ++ first :: word, crossesLine := false } : Take Plain)
        (cursor.skip (first :: word).length) := by
  have here : (get : Take Cursor) cursor = some (cursor, cursor) := rfl
  have isNext : Take.peek cursor = some (some first, cursor) := by
    rw [Take.peek, isLeft]
    rfl
  have remaining : Take.left cursor = some (first :: word ++ tail, cursor) := by
    rw [Take.left, isLeft]
  have skipped : Take.skip (first :: word).length cursor =
      some ((), cursor.skip (first :: word).length) := rfl
  have after : Take.peek (cursor.skip (first :: word).length) =
      some (tail.head?, cursor.skip (first :: word).length) := by
    rw [Take.peek, Cursor.skip, isLeft, List.drop_left]
  have other : (some first = some '#') = False := by simpa using noComment
  rw [plainFrom, bind_of_some here, bind_of_some isNext, unmarked, Bool.false_or,
    if_neg (by simpa using noComment), bind_of_some remaining, isWord]
  dsimp only
  rw [bind_of_some skipped, bind_of_some after]
  simp only [Bool.not_false, Bool.true_and, decide_eq_true_eq]

/-- Characters that may stand without marks on one line. -/
structure IsFluent (characters : List Char) : Prop where
  solid : AreSolid characters
  sameLine : ∀ character ∈ characters, isBreak character = false
  noIndicator : hasInnerIndicator ' ' characters = false
  begins : ∀ character ∈ characters.head?, character ≠ ' '
  ends : characters.getLast? ≠ some ' '

/-- No marker of a document stands inside a line. -/
theorem atMarker_of_inside (inside : 0 < cursor.column) : cursor.atMarker = false := by
  rw [Cursor.atMarker, decide_eq_false (Nat.ne_of_gt inside)]
  rfl

/-- The only white space in fluent characters is the space. -/
theorem IsFluent.notSpace (fluent : IsFluent characters) :
    ∀ character ∈ characters, character ≠ ' ' → isSpace character = false :=
  fun character member notBlank => isSpace_of_solid (fluent.solid character member) notBlank
    (fluent.sameLine character member)

/-- What follows a blank in a fluent text is fluent if it does not begin with a blank. -/
theorem IsFluent.back {front back : List Char} (fluent : IsFluent (front ++ ' ' :: back))
    (begins : ∀ character ∈ back.head?, character ≠ ' ') :
    IsFluent back where
  solid character member := fluent.solid character (by simp [member])
  sameLine character member := fluent.sameLine character (by simp [member])
  noIndicator := hasInnerIndicator_of_append fluent.noIndicator
  begins := begins
  ends final := by
    refine fluent.ends ?_
    rw [List.append_cons, List.getLast?_append, final]
    rfl

/-- A fluent text is a word, or it goes on after blanks that follow its first word. -/
theorem IsFluent.split (fluent : IsFluent characters) :
    ∃ word, (∀ character ∈ word, character ≠ ' ') ∧
      (characters = word ∨ ∃ count back,
        characters = word ++ List.replicate (count + 1) ' ' ++ back ∧ back ≠ [] ∧
          ∀ character ∈ back.head?, character ≠ ' ') := by
  obtain ⟨word, gap, rfl, areWord, gapBegins⟩ := exists_span (· ≠ ' ') characters
  refine ⟨word, fun each member => of_decide_eq_true (areWord each member), ?_⟩
  obtain ⟨count, back, rfl, backBegins⟩ := exists_blanks gap
  cases count with
  | zero =>
    cases back with
    | nil => exact .inl (List.append_nil word)
    | cons character others =>
      have blank := gapBegins character rfl
      exact absurd (by simpa using blank) (backBegins character rfl)
  | succ count =>
    refine .inr ⟨count, back, by rw [List.append_assoc], ?_, backBegins⟩
    rintro rfl
    refine fluent.ends ?_
    simp [List.replicate_succ']

/-- The last word of a scalar is taken with the end of its line. -/
theorem plainFrom_last (fluent : IsFluent (character :: word))
    (areWord : ∀ each ∈ character :: word, each ≠ ' ')
    (isLeft : cursor.rest = character :: word ++ '\n' :: rest) (inside : 0 < cursor.column)
    (nextLine : ∀ each ∈ rest.head?, isSpace each = false) :
    ∃ after, plainFrom false 1 (steps + 1) gap cursor =
      some ({ text := gap.text ++ character :: word, crossesLine := true }, after) ∧
      after.rest = rest ∧ after.column = 0 := by
  have noIndicator : hasInnerIndicator ' ' (character :: word ++ []) = false := by
    rw [List.append_nil, fluent.noIndicator]
  have isWord : plainWord? false (character :: word ++ '\n' :: rest) = some (character :: word) :=
    plainWord?_append (fun each member => fluent.notSpace each member (areWord each member))
      noIndicator rfl rfl
  have lineLeft : (cursor.skip (character :: word).length).rest = '\n' :: rest := by
    rw [Cursor.skip, isLeft, List.drop_left]
  refine ⟨(cursor.skip (character :: word).length).nextLine 1, ?_, ?_, rfl⟩
  · rw [plainFrom_word (atMarker_of_inside inside) isLeft
        (noComment_of_fluent fluent.noIndicator) isWord, if_pos (by rfl),
      bind_of_some (Gap.take_newline 1 lineLeft nextLine)]
    rfl
  · rw [Cursor.nextLine, lineLeft]
    rfl

/-- A scalar is read back with its first word if it is read back from its second on. -/
theorem plainFrom_first {count : Nat} {back : List Char}
    (fluent : IsFluent (character :: word ++ List.replicate (count + 1) ' ' ++ back))
    (areWord : ∀ each ∈ character :: word, each ≠ ' ') (nonempty : back ≠ [])
    (backBegins : ∀ each ∈ back.head?, each ≠ ' ')
    (isLeft : cursor.rest =
      character :: word ++ List.replicate (count + 1) ' ' ++ back ++ '\n' :: rest)
    (inside : 0 < cursor.column)
    (others : ∀ between : Cursor, between.rest = back ++ '\n' :: rest → 0 < between.column →
      ∃ after, plainFrom false 1 steps (Gap.inLine (count + 1)) between =
        some ({ text := List.replicate (count + 1) ' ' ++ back, crossesLine := true }, after) ∧
        after.rest = rest ∧ after.column = 0) :
    ∃ after, plainFrom false 1 (steps + 1) gap cursor =
      some ({ text := gap.text ++ (character :: word ++ List.replicate (count + 1) ' ' ++ back),
              crossesLine := true }, after) ∧
      after.rest = rest ∧ after.column = 0 := by
  have wholeLeft : cursor.rest =
      character :: word ++ (List.replicate (count + 1) ' ' ++ (back ++ '\n' :: rest)) := by
    rw [isLeft, List.append_assoc, List.append_assoc]
  have wordSpaced : ∀ each ∈ character :: word, isSpace each = false := fun each member =>
    fluent.notSpace each (List.mem_append_left _ (List.mem_append_left _ member))
      (areWord each member)
  have isWord : plainWord? false
      (character :: word ++ (List.replicate (count + 1) ' ' ++ (back ++ '\n' :: rest))) =
        some (character :: word) :=
    plainWord?_append wordSpaced (List.append_assoc _ _ _ ▸ fluent.noIndicator) rfl rfl
  have backEnds : ∀ each ∈ (back ++ '\n' :: rest).head?, isSpace each = false := by
    obtain ⟨first, more, rfl⟩ := List.exists_cons_of_ne_nil nonempty
    rintro _ ⟨⟩
    exact fluent.notSpace first (by simp) (backBegins first rfl)
  have gapLeft : (cursor.skip (character :: word).length).rest =
      List.replicate (count + 1) ' ' ++ (back ++ '\n' :: rest) := by
    rw [Cursor.skip, wholeLeft, List.drop_left]
  obtain ⟨between, gapTaken, betweenLeft, betweenInside⟩ :=
    Gap.takes_inLine 1 (count + 1) backEnds _ gapLeft (Nat.add_pos_left inside _)
  obtain ⟨after, taken, afterLeft, atStart⟩ := others between betweenLeft betweenInside
  refine ⟨after, ?_, afterLeft, atStart⟩
  have here : (get : Take Cursor) between = some (between, between) := rfl
  rw [plainFrom_word (atMarker_of_inside inside) wholeLeft
      (noComment_of_fluent fluent.noIndicator) isWord,
    if_pos (by rfl), bind_of_some gapTaken, bind_of_some here, if_neg (by omega),
    bind_of_some taken]
  exact congrArg (fun text => some (Plain.mk text true, after)) (by simp)

/-- Words with blanks between them are read back from before the end of their line. -/
theorem plainFrom_of_fluent (fluent : IsFluent characters) (nonempty : characters ≠ [])
    (enough : characters.length < steps) (isLeft : cursor.rest = characters ++ '\n' :: rest)
    (inside : 0 < cursor.column) (nextLine : ∀ character ∈ rest.head?, isSpace character = false) :
    ∃ after, plainFrom false 1 steps gap cursor =
      some ({ text := gap.text ++ characters, crossesLine := true }, after) ∧
      after.rest = rest ∧ after.column = 0 := by
  induction steps generalizing characters cursor gap with
  | zero => omega
  | succ steps inductionHypothesis =>
    obtain ⟨word, areWord, rfl | ⟨count, back, rfl, backNonempty, backBegins⟩⟩ := fluent.split
    · obtain ⟨first, more, rfl⟩ := List.exists_cons_of_ne_nil nonempty
      exact plainFrom_last fluent areWord isLeft inside nextLine
    · cases word with
      | nil => exact absurd rfl (fluent.begins ' ' (by simp [List.replicate_succ]))
      | cons first more =>
        have split : first :: more ++ List.replicate (count + 1) ' ' ++ back =
            first :: more ++ List.replicate count ' ' ++ ' ' :: back := by
          simp [List.replicate_succ']
        have later : IsFluent back := (split ▸ fluent).back backBegins
        have fewer : back.length < steps := by
          simp only [List.length_append, List.length_cons] at enough
          omega
        exact plainFrom_first fluent areWord backNonempty backBegins isLeft inside
          fun between => inductionHypothesis later backNonempty fewer

/-- A fluent text is taken with the end of its line. -/
theorem plain_of_fluent (fluent : IsFluent characters) (nonempty : characters ≠ [])
    (isLeft : cursor.rest = characters ++ '\n' :: rest) (inside : 0 < cursor.column)
    (nextLine : ∀ character ∈ rest.head?, isSpace character = false) :
    ∃ after, plain false 1 cursor = some ({ text := characters, crossesLine := true }, after) ∧
      after.rest = rest ∧ after.column = 0 := by
  have remaining : Take.left cursor = some (cursor.rest, cursor) := rfl
  have enough : characters.length < cursor.rest.length + 1 := by
    rw [isLeft, List.length_append]
    omega
  rw [plain, bind_of_some remaining]
  exact plainFrom_of_fluent fluent nonempty enough isLeft inside nextLine

/-- A word before a colon and a blank is taken without them. -/
theorem plain_of_word (unmarked : cursor.atMarker = false)
    (isLeft : cursor.rest = character :: word ++ ':' :: ' ' :: rest)
    (notSpace : ∀ each ∈ character :: word, isSpace each = false)
    (fluent : hasInnerIndicator ' ' (character :: word) = false) :
    plain false indent cursor =
      some ({ text := character :: word, crossesLine := false },
        cursor.skip (character :: word).length) := by
  have noComment := noComment_of_fluent fluent
  have remaining : Take.left cursor = some (cursor.rest, cursor) := rfl
  have isWord : plainWord? false (character :: word ++ ':' :: ' ' :: rest) =
      some (character :: word) :=
    plainWord?_append notSpace ((List.append_nil (character :: word)).symm ▸ fluent) rfl rfl
  rw [plain, bind_of_some remaining, plainFrom_word unmarked isLeft noComment isWord,
    if_neg (by simp [isSpace, isBlank, isBreak])]
  rfl

end ElmWorkbench.Yaml
