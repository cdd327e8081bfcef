import ElmWorkbench.Proofs.Yaml.Plain
/-!
# Tokens of entries in YAML

A line with a key and its value is turned into the tokens of an entry, and opens a mapping if it is
the first one (`Layout.takeAll_entry`).
-/

namespace ElmWorkbench.Yaml

open Json (Value)

namespace Layout

variable {columns : List Nat} {tokens : List Token} {cursor : Cursor}
  {layout ready after : Layout} {character : Char} {word text rest : List Char} {steps : Nat}

/-- A layout outside of brackets where no key has begun. -/
def between (columns : List Nat) (tokens : List Token) (cursor : Cursor) (keyAllowed : Bool) :
    Layout where
  cursor := cursor
  tokens := tokens
  columns := columns
  keyPlace := none
  outerPlaces := []
  keyAllowed := keyAllowed

/-! ## White space -/

/-- Characters that are skipped before a token, or begin a comment. -/
def isFiller (character : Char) : Bool :=
  isSpace character || character = '#' || character.toNat = 0xFEFF

/-- Nothing is skipped before a token. -/
theorem skipFiller_of_ready
    (begins : ∀ character ∈ layout.cursor.rest.head?, isFiller character = false) (steps : Nat) :
    layout.skipFiller steps = layout := by
  cases steps with
  | zero => rfl
  | succ steps =>
    rw [skipFiller]
    split
    · rfl
    · next character more isLeft =>
      have other : isFiller character = false := begins character (by rw [isLeft]; rfl)
      simp only [isFiller, isSpace, isBlank, Bool.or_eq_false_iff, decide_eq_false_iff_not]
        at other
      simp [other]

/-- Nothing is indented deeper than what stands at the start of its lines. -/
theorem closeDeeper_of_outermost (outermost : ∀ column ∈ layout.columns, column = 0)
    (column : Nat) : layout.closeDeeper (some column) = layout := by
  obtain ⟨cursor, tokens, columns, keyPlace, outerPlaces, keyAllowed⟩ := layout
  cases columns with
  | nil => rfl
  | cons first others =>
    obtain rfl : first = 0 := outermost first List.mem_cons_self
    simp [closeDeeper]

/-- One token is taken outside of brackets, and the others are taken after it. -/
theorem takeAll_token (skipped : layout.skipFiller (layout.cursor.rest.length + 1) = ready)
    (outside : ready.outerPlaces = []) (outermost : ∀ column ∈ ready.columns, column = 0)
    (isLeft : ready.cursor.rest = character :: rest)
    (taken : ready.takeToken character rest = some after) :
    takeAll (steps + 1) layout = takeAll steps after := by
  have notInFlow : ready.inFlow = false := by
    rw [inFlow, outside]
    rfl
  rw [takeAll, skipped]
  rw [notInFlow, if_neg (by decide), closeDeeper_of_outermost outermost, isLeft]
  exact congrArg (Option.bind · (takeAll steps)) taken

/-- White space before tokens makes no difference. -/
theorem takeAll_of_skipped (skipped : layout.skipFiller (layout.cursor.rest.length + 1) = ready)
    (begins : ∀ character ∈ ready.cursor.rest.head?, isFiller character = false) :
    takeAll steps layout = takeAll steps ready := by
  cases steps with
  | zero => rfl
  | succ steps => rw [takeAll, takeAll, skipped, skipFiller_of_ready begins]

/-- A blank before a token is skipped. -/
theorem skipFiller_blank (isLeft : layout.cursor.rest = ' ' :: text)
    (begins : ∀ character ∈ text.head?, isFiller character = false) (steps : Nat) :
    layout.skipFiller (steps + 1) = { layout with cursor := layout.cursor.skip 1 } := by
  have ready : ∀ character ∈ (layout.cursor.skip 1).rest.head?, isFiller character = false := by
    rw [Cursor.skip, isLeft]
    exact begins
  rw [skipFiller, isLeft]
  exact skipFiller_of_ready ready steps

/-- After the end of a line, a key may begin. -/
theorem skipFiller_newline (isLeft : cursor.rest = '\n' :: text)
    (begins : ∀ character ∈ text.head?, isFiller character = false) (steps : Nat)
    (keyAllowed : Bool) :
    (between columns tokens cursor keyAllowed).skipFiller (steps + 1) =
      between columns tokens (cursor.nextLine 1) true := by
  have left : (between columns tokens cursor keyAllowed).cursor.rest = '\n' :: text := isLeft
  have broken : Take.lineBreak (between columns tokens cursor keyAllowed).cursor =
      some (['\n'], cursor.nextLine 1) := by
    rw [Take.lineBreak, left]
    rfl
  have ready : ∀ character ∈ (cursor.nextLine 1).rest.head?, isFiller character = false := by
    rw [Cursor.nextLine, isLeft]
    exact begins
  have allowed : (keyAllowed || !(between columns tokens cursor keyAllowed).inFlow) = true := by
    cases keyAllowed <;> rfl
  rw [skipFiller, left]
  dsimp only
  rw [if_neg (by simp), if_neg (by decide), if_pos (by decide), broken]
  change skipFiller steps { between columns tokens cursor keyAllowed with
    cursor := cursor.nextLine 1
    keyAllowed := keyAllowed || !(between columns tokens cursor keyAllowed).inFlow } = _
  rw [allowed]
  exact skipFiller_of_ready ready steps

/-! ## Keys -/

/-- A word that is written and read as a key on one line. -/
structure IsKey (key : String) : Prop where
  isShort : isShortKey key
  isPlain : Style.of key = .plain
  isBrief : key.toList.length ≤ keyLimit
  begins : ∃ first word, key.toList = first :: word ∧ first.isAlpha
  oneWord : ∀ character ∈ key.toList, isSpace character = false
  fluent : hasInnerIndicator ' ' key.toList = false
  allowed : ∀ character ∈ key.toList, isAllowed character

/-- The layout after a key that begins at a place. -/
def afterKey (columns : List Nat) (tokens : List Token) (cursor : Cursor) (key : List Char) :
    Layout where
  cursor := cursor.skip key.length
  tokens := .scalar .plain key :: tokens
  columns := columns
  keyPlace :=
    some { position := tokens.length, cursor, isRequired := columns.head? = some cursor.column }
  outerPlaces := []
  keyAllowed := false

/-- Characters that begin other tokens than plain scalars. -/
def openers : List Char :=
  ['%', '[', '\x7b', ']', '\x7d', ',', '*', '&', '!', '|', '>', '\x27', '"']

/-- Characters that begin plain scalars only inside a word. -/
def wordMarks : List Char :=
  ['-', '?', ':']

/-- A plain scalar is taken where one begins, unless its first character stands alone. -/
theorem takeToken_plain (outside : layout.outerPlaces = [])
    (unmarked : layout.cursor.atMarker = false) (notOpener : character ∉ openers)
    (inWord : ∀ mark ∈ wordMarks, ¬ (character = mark ∧ endsWord rest))
    (starts : startsPlain false (character :: rest)) :
    layout.takeToken character rest = layout.takePlain := by
  have notInFlow : layout.inFlow = false := by
    rw [inFlow, outside]
    rfl
  have noDash := inWord '-' (by decide)
  have noQuestion := inWord '?' (by decide)
  have noColon := inWord ':' (by decide)
  simp only [openers, List.mem_cons, List.not_mem_nil, or_false, not_or] at notOpener
  rw [takeToken]
  simp [notOpener, notInFlow, unmarked, starts, noDash, noQuestion, noColon]

/-- No letter has a meaning of its own. -/
theorem not_isIndicator_of_isAlpha (letter : character.isAlpha) :
    isIndicator character = false := by
  refine Bool.eq_false_iff.mpr fun indicator => ?_
  simp only [isIndicator, isFlowIndicator, List.contains_eq_mem, Bool.or_eq_true,
    decide_eq_true_eq, List.mem_cons, List.not_mem_nil, or_false, or_assoc] at indicator
  have none : ∀ mark ∈ [',', '[', ']', '\x7b', '\x7d', '-', '?', ':', '#', '&', '*', '!', '|', '>',
      '\x27', '"', '%', '@', '\x60'], mark.isAlpha = false := by decide
  rw [none character (by simpa only [List.mem_cons, List.not_mem_nil, or_false] using indicator)]
    at letter
  cases letter

/-- A word before a colon is taken as a key. -/
theorem takeToken_key (begins : character.isAlpha) (unmarked : cursor.atMarker = false)
    (isLeft : cursor.rest = character :: word ++ ':' :: ' ' :: rest)
    (notSpace : ∀ each ∈ character :: word, isSpace each = false)
    (fluent : hasInnerIndicator ' ' (character :: word) = false) :
    (between columns tokens cursor true).takeToken character (word ++ ':' :: ' ' :: rest) =
      some (afterKey columns tokens cursor (character :: word)) := by
  have notOpener : character ∉ openers := fun member => by
    have none : ∀ opener ∈ openers, opener.isAlpha = false := by decide
    rw [none character member] at begins
    cases begins
  have inWord : ∀ mark ∈ wordMarks,
      ¬ (character = mark ∧ endsWord (word ++ ':' :: ' ' :: rest)) := by
    rintro mark member ⟨rfl, -⟩
    have none : ∀ mark ∈ wordMarks, mark.isAlpha = false := by decide
    rw [none character member] at begins
    cases begins
  have starts : startsPlain false (character :: (word ++ ':' :: ' ' :: rest)) := by
    rw [startsPlain, notSpace character List.mem_cons_self, not_isIndicator_of_isAlpha begins]
    rfl
  have remembered : (between columns tokens cursor true).rememberKey =
      some { between columns tokens cursor true with
        keyPlace := some
          { position := tokens.length, cursor
            isRequired := columns.head? = some cursor.column } } :=
    rfl
  rw [takeToken_plain rfl unmarked notOpener inWord starts, takePlain, remembered]
  change Option.bind (Option.map _ (plain false _ cursor)) _ = _
  rw [plain_of_word unmarked isLeft notSpace fluent]
  rfl

/-- The token that the first key of a mapping opens it with. -/
def opening (columns : List Nat) : List Token :=
  if columns = [] then [.blockMapping] else []

/-- A colon after a word shows that the word is a key, in a mapping at the start of the lines. -/
theorem takeToken_colon {key : List Char} (outermost : columns = [] ∨ columns = [0])
    (atStart : cursor.column = 0) (nonempty : 0 < key.length) (isBrief : key.length ≤ keyLimit) :
    (afterKey columns tokens cursor key).takeToken ':' (' ' :: rest) =
      some (between [0] (.value :: .scalar .plain key :: .key :: (opening columns ++ tokens))
        ((cursor.skip key.length).skip 1) false) := by
  have inside : 0 < (cursor.skip key.length).column := Nat.add_pos_right _ nonempty
  have unmarked : (afterKey columns tokens cursor key).cursor.atMarker = false :=
    atMarker_of_inside inside
  have begun : (afterKey columns tokens cursor key).keyBegun =
      some (some
        { position := tokens.length, cursor
          isRequired := columns.head? = some cursor.column }) := by
    have near : ¬ cursor.index + keyLimit < cursor.index + key.length := by omega
    exact if_neg (by simp [near, Cursor.skip, afterKey])
  have toValue : (afterKey columns tokens cursor key).takeToken ':' (' ' :: rest) =
      (afterKey columns tokens cursor key).takeValue := by
    have wordEnds : endsWord (' ' :: rest) := rfl
    have outside : (afterKey columns tokens cursor key).inFlow = false := rfl
    rw [takeToken]
    simp [unmarked, wordEnds, outside]
  rw [toValue, takeValue, begun]
  have two : tokens.length + 1 + 1 - tokens.length = 2 := by omega
  rcases outermost with rfl | rfl <;>
    simp [addAt, openAt, between, opening, afterKey, addMark, add, allowKey, inFlow, atStart, two]

/-! ## Values -/

/-- A scalar between marks is taken where no key can begin. -/
theorem takeToken_quoted {quotation : Quotation} {characters inside : List Char}
    (notFirst : 0 < cursor.column)
    (isLeft : cursor.rest = quotation.mark :: inside ++ rest)
    (taken : (quoted quotation).Takes (quotation.mark :: inside) characters rest) :
    ∃ after, (between columns tokens cursor false).takeToken quotation.mark (inside ++ rest) =
        some (between columns (.scalar .quoted characters :: tokens) after false) ∧
      after.rest = rest := by
  obtain ⟨after, taken, afterLeft, -⟩ := taken cursor isLeft notFirst
  have unmarked : (between columns tokens cursor false).cursor.atMarker = false :=
    atMarker_of_inside notFirst
  have toWord : (between columns tokens cursor false).takeToken quotation.mark (inside ++ rest) =
      (between columns tokens cursor false).takeWord
        (Token.scalar .quoted <$> quoted quotation) := by
    cases quotation <;> rw [takeToken] <;> simp [unmarked, Quotation.mark]
  have remembered : (between columns tokens cursor false).rememberKey =
      some (between columns tokens cursor false) := rfl
  have scalarTaken : (Token.scalar .quoted <$> quoted quotation) cursor =
      some (.scalar .quoted characters, after) := by
    change (quoted quotation cursor).bind _ = _
    rw [taken]
    rfl
  refine ⟨after, ?_, afterLeft⟩
  rw [toWord, takeWord, remembered]
  change Option.bind (Option.map _ ((Token.scalar .quoted <$> quoted quotation) cursor)) _ = _
  rw [scalarTaken]
  rfl

/-- A fluent text is taken with the end of its line where no key can begin. -/
theorem takeToken_fluent (fluent : IsFluent (character :: word)) (notOpener : character ∉ openers)
    (inWord : ∀ mark ∈ wordMarks, ¬ (character = mark ∧ endsWord (word ++ '\n' :: rest)))
    (starts : startsPlain false (character :: (word ++ '\n' :: rest)))
    (notFirst : 0 < cursor.column) (isLeft : cursor.rest = character :: word ++ '\n' :: rest)
    (nextLine : ∀ each ∈ rest.head?, isSpace each = false) :
    ∃ after, (between [0] tokens cursor false).takeToken character (word ++ '\n' :: rest) =
        some (between [0] (.scalar .plain (character :: word) :: tokens) after true) ∧
      after.rest = rest ∧ after.column = 0 := by
  obtain ⟨after, taken, afterLeft, atStart⟩ :=
    plain_of_fluent fluent (List.cons_ne_nil _ _) isLeft notFirst nextLine
  have unmarked : (between [0] tokens cursor false).cursor.atMarker = false :=
    atMarker_of_inside notFirst
  have remembered : (between [0] tokens cursor false).rememberKey =
      some (between [0] tokens cursor false) := rfl
  refine ⟨after, ?_, afterLeft, atStart⟩
  rw [takeToken_plain rfl unmarked notOpener inWord starts, takePlain, remembered]
  change Option.bind (Option.map _ (plain false 1 cursor)) _ = _
  rw [taken]
  rfl

/-! ## Entries -/

/-- After a line nothing stands, or a key does. -/
def BeginsLine (rest : List Char) : Prop :=
  ∀ character ∈ rest.head?, character.isAlpha

/-- A letter is not skipped. -/
theorem isFiller_of_isAlpha (letter : character.isAlpha) : isFiller character = false := by
  have bounds : 0x41 ≤ character.toNat ∧ character.toNat ≤ 0x7A := by
    have cased : ('A'.val ≤ character.val ∧ character.val ≤ 'Z'.val) ∨
        (decide ('a'.val ≤ character.val) && decide (character.val ≤ 'z'.val)) = true :=
      (Bool.or_eq_true_iff.mp letter).imp_left of_decide_eq_true
    simp only [Bool.and_eq_true, decide_eq_true_eq, UInt32.le_iff_toNat_le] at cased
    change _ ≤ character.val.toNat ∧ character.val.toNat ≤ _
    have ends : 'A'.val.toNat = 0x41 ∧ 'Z'.val.toNat = 0x5A ∧ 'a'.val.toNat = 0x61 ∧
      'z'.val.toNat = 0x7A := by decide
    omega
  refine Bool.eq_false_iff.mpr fun filler => ?_
  simp only [isFiller, isSpace, isBlank, isBreak, Bool.or_eq_true, decide_eq_true_eq] at filler
  rcases filler with (((rfl | rfl) | breaks) | rfl) | isMark
  · exact absurd letter (by decide)
  · exact absurd letter (by decide)
  · omega
  · exact absurd letter (by decide)
  · omega

/-- What begins a line is not skipped. -/
theorem BeginsLine.isFiller (begins : BeginsLine rest) :
    ∀ character ∈ rest.head?, isFiller character = false :=
  fun character isFirst => isFiller_of_isAlpha (begins character isFirst)

/-- What begins a line is no white space. -/
theorem BeginsLine.notSpace (begins : BeginsLine rest) :
    ∀ character ∈ rest.head?, isSpace character = false := fun character isFirst =>
  (Bool.or_eq_false_iff.mp (Bool.or_eq_false_iff.mp (begins.isFiller character isFirst)).1).1

/-- A layout at the end of a line or at the start of the next one, with some tokens taken. -/
def EndsLine (layout : Layout) (tokens : List Token) (rest : List Char) : Prop :=
  ∃ next, layout.skipFiller (layout.cursor.rest.length + 1) = between [0] tokens next true ∧
    next.rest = rest ∧ next.column = 0

/-- A layout between two lines is at the end of a line. -/
theorem endsLine_of_start (begins : BeginsLine rest) (isLeft : cursor.rest = rest)
    (atStart : cursor.column = 0) : (between [0] tokens cursor true).EndsLine tokens rest :=
  ⟨cursor, skipFiller_of_ready (isLeft ▸ begins.isFiller) _, isLeft, atStart⟩

/-- A layout before a newline is at the end of a line. -/
theorem endsLine_of_newline (begins : BeginsLine rest) (isLeft : cursor.rest = '\n' :: rest) :
    (between [0] tokens cursor false).EndsLine tokens rest := by
  refine ⟨cursor.nextLine 1, skipFiller_newline isLeft begins.isFiller _ false, ?_, rfl⟩
  rw [Cursor.nextLine, isLeft]
  rfl

end Layout

open Layout (BeginsLine EndsLine between opening)

/-- A value with its characters on a line, from which a scalar is read. -/
structure Stands (value : Value) (written : List Char) (style : ScalarStyle) (text : List Char) :
    Prop where
  writes : writeValue? 0 .afterKey value = some (written ++ ['\n'])
  allowed : ∀ character ∈ written, isAllowed character
  reads : ∃ first more, written = first :: more ∧ Layout.isFiller first = false ∧
    ∀ (tokens : List Token) (cursor : Cursor) (rest : List Char), 0 < cursor.column →
      cursor.rest = written ++ '\n' :: rest → BeginsLine rest →
      ∃ after, (between [0] tokens cursor false).takeToken first (more ++ '\n' :: rest) =
          some after ∧
        after.EndsLine (.scalar style text :: tokens) rest

/-- A line with a key and what stands behind it. -/
def entryLine (key : String) (written : List Char) : List Char :=
  key.toList ++ [':', ' '] ++ written ++ ['\n']

/-- The tokens of an entry. -/
def entryTokens (key : String) (style : ScalarStyle) (text : List Char) : List Token :=
  [.key, .scalar .plain key.toList, .value, .scalar style text]

namespace Layout

variable {columns : List Nat} {tokens : List Token} {cursor : Cursor} {value : Value}
  {key : String} {written text rest : List Char} {style : ScalarStyle}

/-- No marker of a document begins with a letter. -/
theorem unmarked_of_isAlpha {first : Char} {more : List Char} (isLeft : cursor.rest = first :: more)
    (letter : first.isAlpha) : cursor.atMarker = false := by
  have noDash : ('-' == first) = false := by
    rw [beq_eq_false_iff_ne]
    rintro rfl
    exact absurd letter (by decide)
  have noDot : ('.' == first) = false := by
    rw [beq_eq_false_iff_ne]
    rintro rfl
    exact absurd letter (by decide)
  rw [Cursor.atMarker, isLeft, List.isPrefixOf, List.isPrefixOf, noDash, noDot]
  simp

/-- A key and its colon are taken. -/
theorem takeAll_key (isKey : IsKey key) (outermost : columns = [] ∨ columns = [0])
    (atStart : cursor.column = 0) (isLeft : cursor.rest = key.toList ++ ':' :: ' ' :: rest)
    (steps : Nat) :
    takeAll (steps + 2) (between columns tokens cursor true) =
      takeAll steps (between [0]
        (.value :: .scalar .plain key.toList :: .key :: (opening columns ++ tokens))
        ((cursor.skip key.toList.length).skip 1) false) := by
  obtain ⟨first, word, isWord, letter⟩ := isKey.begins
  have oneWord := isKey.oneWord
  have fluent := isKey.fluent
  have isBrief := isKey.isBrief
  rw [isWord] at isLeft oneWord fluent isBrief ⊢
  have closed : ∀ column ∈ columns, column = 0 := by
    rcases outermost with rfl | rfl <;> simp
  have keyBegins : ∀ character ∈ cursor.rest.head?, isFiller character = false := by
    rw [isLeft]
    rintro _ ⟨⟩
    exact isFiller_of_isAlpha letter
  have afterWord : (cursor.skip (first :: word).length).rest = ':' :: ' ' :: rest := by
    rw [Cursor.skip, isLeft, List.drop_left]
  have colonBegins : ∀ character ∈ (cursor.skip (first :: word).length).rest.head?,
      isFiller character = false := by
    rw [afterWord]
    rintro _ ⟨⟩
    decide
  have nonempty : 0 < (first :: word).length := Nat.succ_pos _
  rw [takeAll_token (skipFiller_of_ready keyBegins _) rfl closed isLeft
      (takeToken_key letter (unmarked_of_isAlpha isLeft letter) isLeft oneWord fluent),
    takeAll_token (skipFiller_of_ready colonBegins _) rfl closed afterWord
      (takeToken_colon outermost atStart nonempty isBrief)]

/-- The value of an entry is taken with the end of its line. -/
theorem takeAll_value (stands : Stands value written style text)
    (isLeft : cursor.rest = ' ' :: (written ++ '\n' :: rest)) (begins : BeginsLine rest)
    (steps : Nat) :
    ∃ next, takeAll (steps + 1) (between [0] tokens cursor false) =
        takeAll steps (between [0] (.scalar style text :: tokens) next true) ∧
      next.rest = rest ∧ next.column = 0 := by
  obtain ⟨first, more, rfl, notFiller, reads⟩ := stands.reads
  have afterBlank : (cursor.skip 1).rest = first :: more ++ '\n' :: rest := by
    rw [Cursor.skip, isLeft]
    rfl
  have valueBegins : ∀ character ∈ (first :: more ++ '\n' :: rest).head?,
      isFiller character = false := by
    rintro _ ⟨⟩
    exact notFiller
  obtain ⟨after, taken, next, skipped, nextLeft, nextStart⟩ :=
    reads tokens (cursor.skip 1) rest (Nat.succ_pos _) afterBlank begins
  have skippedBlank : (between [0] tokens cursor false).skipFiller (cursor.rest.length + 1) =
      between [0] tokens (cursor.skip 1) false := skipFiller_blank isLeft valueBegins _
  refine ⟨next, ?_, nextLeft, nextStart⟩
  rw [takeAll_token skippedBlank rfl (by simp [between]) afterBlank taken,
    takeAll_of_skipped skipped (nextLeft.symm ▸ begins.isFiller)]

/-- The tokens of an entry are taken from its line. -/
theorem takeAll_entry (isKey : IsKey key) (stands : Stands value written style text)
    (outermost : columns = [] ∨ columns = [0]) (atStart : cursor.column = 0)
    (isLeft : cursor.rest = entryLine key written ++ rest) (begins : BeginsLine rest)
    (steps : Nat) :
    ∃ next, takeAll (steps + 3) (between columns tokens cursor true) =
        takeAll steps (between [0]
          ((entryTokens key style text).reverse ++ (opening columns ++ tokens)) next true) ∧
      next.rest = rest ∧ next.column = 0 := by
  have whole : cursor.rest = key.toList ++ ':' :: ' ' :: (written ++ '\n' :: rest) := by
    rw [isLeft, entryLine]
    simp
  have valueLeft : ((cursor.skip key.toList.length).skip 1).rest =
      ' ' :: (written ++ '\n' :: rest) := by
    rw [Cursor.skip, Cursor.skip, whole, List.drop_left]
    rfl
  obtain ⟨next, taken, nextLeft, nextStart⟩ := takeAll_value stands valueLeft begins steps
  exact ⟨next, (takeAll_key isKey outermost atStart whole (steps + 1)).trans taken, nextLeft,
    nextStart⟩

end Layout

end ElmWorkbench.Yaml
