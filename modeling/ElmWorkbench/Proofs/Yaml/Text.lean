import ElmWorkbench.Proofs.Yaml.Document
/-!
# Texts in YAML

A text without control characters is read back from each of the ways in which it is written behind a
key: plain, between apostrophes and between quotation marks (`stands_path`).
-/

namespace ElmWorkbench.Yaml

open Json (Value)
open Layout (between wordMarks)
open Text (AreSolid IsControl)

variable {character : Char} {characters : List Char} {text : String}

/-! ## Characters that are written -/

/-- What can be printed is allowed. -/
theorem isAllowed_of_printable (printable : isPrintable character) : isAllowed character := by
  have valid : Nat.isValidChar character.toNat := character.valid
  rw [Nat.isValidChar] at valid
  simp only [isPrintable, isAllowed, Bool.or_eq_true, Bool.and_eq_true, decide_eq_true_eq]
    at printable ⊢
  omega

/-- What is written between single quotes is allowed. -/
theorem allowed_singleFrom (indent : Nat) (afterBreak : Bool)
    (printable : ∀ character ∈ characters, isPrintable character) :
    ∀ character ∈ singleFrom indent afterBreak characters, isAllowed character := by
  have blank : ∀ count, ∀ each ∈ blanks count, isAllowed each := fun count each member => by
    rw [List.eq_of_mem_replicate member]
    decide
  induction characters generalizing afterBreak with
  | nil =>
    rw [singleFrom]
    split
    · exact blank indent
    · simp
  | cons character others inductionHypothesis =>
    obtain ⟨here, later⟩ := List.forall_mem_cons.mp printable
    have allowed := isAllowed_of_printable here
    rw [singleFrom]
    split
    · exact List.forall_mem_cons.mpr ⟨allowed, inductionHypothesis true later⟩
    · refine List.forall_mem_append.mpr
        ⟨List.forall_mem_append.mpr ⟨?_, ?_⟩, inductionHypothesis false later⟩
      · split
        · exact blank indent
        · simp
      · split
        · decide
        · simpa using allowed

/-- The digits of a code are allowed. -/
theorem allowed_hexDigits (count code : Nat) :
    ∀ character ∈ hexDigits count code, isAllowed character := by
  intro character member
  obtain ⟨place, -, rfl⟩ := List.mem_map.mp member
  have all : ∀ digit < 16, isAllowed (Nat.digitChar digit).toUpper := by decide
  exact all _ (Nat.mod_lt _ (by decide))

/-- The escape of a character is allowed. -/
theorem allowed_escaped (solid : ¬ IsControl character) :
    ∀ each ∈ escaped character, isAllowed each := by
  by_cases isQuote : character = '"'
  · rw [isQuote]
    decide
  by_cases isBackslash : character = '\\'
  · rw [isBackslash]
    decide
  by_cases separates : IsSeparator character
  · rcases separates with isLine | isParagraph
    · obtain rfl : character = Char.ofNat 0x2028 := Char.toNat_inj.mp isLine
      decide
    · obtain rfl : character = Char.ofNat 0x2029 := Char.toNat_inj.mp isParagraph
      decide
  rw [escaped_of_solid solid isQuote isBackslash separates]
  split
  · next printable => simpa using isAllowed_of_printable printable
  · split
    · exact List.forall_mem_cons.mpr ⟨by decide, List.forall_mem_cons.mpr
        ⟨by decide, allowed_hexDigits 4 _⟩⟩
    · exact List.forall_mem_cons.mpr ⟨by decide, List.forall_mem_cons.mpr
        ⟨by decide, allowed_hexDigits 8 _⟩⟩

/-! ## Ways to write a text -/

/-- The ways in which solid characters are written. -/
theorem style_cases (solid : AreSolid text.toList) :
    Style.of text = .plain ∧ Meaning.of text = .text ∧ allowsPlain text.toList ∨
      Style.of text = .single ∧ allowsSingle text.toList ∨ Style.of text = .double := by
  have noNewline : text.toList.contains '\n' = false := by
    refine Bool.eq_false_iff.mpr fun contained => ?_
    exact absurd (by decide) (solid _ (List.contains_iff_mem.mp contained))
  rw [Style.of, noNewline, if_neg (by decide)]
  split
  · next plain =>
    simp only [isAmbiguous, Bool.and_eq_true, Bool.not_eq_true', Bool.or_eq_false_iff,
      decide_eq_false_iff_not, not_not] at plain
    exact .inl ⟨rfl, plain.1.1, plain.2⟩
  · split
    · next single => exact .inr (.inl ⟨rfl, single⟩)
    · exact .inr (.inr rfl)

/-- Characters that may stand between single quotes can be printed. -/
theorem printable_of_allowsSingle (allows : allowsSingle characters) :
    ∀ character ∈ characters, isPrintable character := by
  simp only [allowsSingle, Bool.and_eq_true] at allows
  exact List.all_eq_true.mp allows.1.1

/-- Characters that may stand without marks may stand between single quotes. -/
theorem allowsSingle_of_allowsPlain (allows : allowsPlain characters) :
    allowsSingle characters := by
  simp only [allowsPlain, Bool.and_eq_true] at allows
  exact allows.1.1.1.1

/-- Characters that may stand between apostrophes are foldable. -/
theorem isFoldable_of_allowsSingle (solid : AreSolid characters)
    (allows : allowsSingle characters) :
    IsFoldable characters := by
  simp only [allowsSingle, Bool.and_eq_true, Bool.not_eq_true'] at allows
  exact ⟨solid, allows.1.2, allows.2⟩

/-- A plain scalar begins where no character has a meaning of its own. -/
theorem startsPlain_of_allowed {tail : List Char} (notSpace : isSpace character = false)
    (noFlow : isFlowIndicator character = false)
    (noMark :
      ['#', '&', '*', '!', '|', '>', '\x27', '"', '%', '@', '\x60'].contains character = false)
    (inWord : character ∈ wordMarks → endsWord tail = false) :
    startsPlain false (character :: tail) := by
  by_cases isMark : character ∈ wordMarks
  · have goesOn := inWord isMark
    have noBlank : tail.head?.any isBlank = false := by
      cases tail with
      | nil => rfl
      | cons next others =>
        rw [endsWord_cons, isSpace, Bool.or_eq_false_iff] at goesOn
        exact goesOn.1
    simp only [wordMarks, List.mem_cons, List.not_mem_nil, or_false] at isMark
    rcases isMark with rfl | rfl | rfl <;> simp [startsPlain, noBlank, goesOn]
  · have noIndicator : isIndicator character = false := by
      simp only [wordMarks, List.contains_eq_mem, List.mem_cons, List.not_mem_nil, or_false,
        decide_eq_false_iff_not, not_or] at isMark noMark
      simp [isIndicator, noFlow, isMark, noMark]
    rw [startsPlain, notSpace, noIndicator]
    rfl

/-- Characters of which none has a meaning of its own begin a plain scalar. -/
theorem begins_of_allowsPlain {word : List Char} (solid : AreSolid (character :: word))
    (allows : allowsPlain (character :: word)) (rest : List Char) :
    IsFluent (character :: word) ∧ character ∉ Layout.openers ∧
      (∀ mark ∈ wordMarks, ¬ (character = mark ∧ endsWord (word ++ '\n' :: rest))) ∧
      startsPlain false (character :: (word ++ '\n' :: rest)) := by
  simp only [allowsPlain, Bool.and_eq_true, Bool.not_eq_true', decide_eq_true_eq] at allows
  obtain ⟨⟨⟨⟨-, sameLine⟩, noIndicator⟩, begins⟩, ends⟩ := allows
  simp only [hasIndicator, Bool.or_eq_false_iff] at noIndicator
  obtain ⟨⟨⟨⟨-, noFlow⟩, noMark⟩, noWordEnd⟩, noInner⟩ := noIndicator
  have wordEnds : endsWord (word ++ '\n' :: rest) = endsWord word := by
    cases word <;> rfl
  have inWord : character ∈ wordMarks → endsWord word = false := by
    simp only [wordMarks, List.mem_cons, List.not_mem_nil, or_false]
    rintro (rfl | rfl | rfl) <;> simpa using noWordEnd
  have noColon : (character = ':' && endsWord word) = false := by
    by_cases isColon : character = ':'
    · rw [inWord (by rw [isColon]; decide), Bool.and_false]
    · rw [decide_eq_false isColon, Bool.false_and]
  have notHash : character ≠ '#' := by
    rintro rfl
    exact absurd noMark (by decide)
  have notOpener : character ∉ Layout.openers := by
    have covered : ∀ opener ∈ Layout.openers, isFlowIndicator opener ||
        ['#', '&', '*', '!', '|', '>', '\x27', '"', '%', '@', '\x60'].contains opener := by decide
    intro member
    have marked := covered character member
    rw [noFlow, noMark] at marked
    cases marked
  have fluent : IsFluent (character :: word) :=
    { solid
      sameLine := fun each member => by simpa using List.any_eq_false.mp sameLine each member
      noIndicator := by
        rw [hasInnerIndicator, noColon, decide_eq_false notHash, noInner]
        rfl
      begins := fun each isFirst blank => begins (by rw [← blank]; exact isFirst)
      ends }
  have notSpace := fluent.notSpace character List.mem_cons_self (fluent.begins character rfl)
  rw [← wordEnds] at inWord
  refine ⟨fluent, notOpener, ?_, startsPlain_of_allowed notSpace noFlow noMark inWord⟩
  rintro mark isMark ⟨rfl, isEnd⟩
  rw [inWord isMark] at isEnd
  cases isEnd

/-! ## Values of entries -/

/-- How a text is written behind a key, up to the end of its line. -/
def written (text : String) : List Char :=
  writeStyled 2 (Style.of text) text.toList

/-- How the scalar is marked that is read for a text. -/
def markOf (text : String) : ScalarStyle :=
  if Style.of text = .plain then .plain else .quoted

/-- A text behind a key is written up to the end of its line. -/
theorem writeLine_of_solid (solid : AreSolid text.toList) :
    writeLine 2 text = written text ++ ['\n'] := by
  have notBlock : Style.of text ≠ .block := by
    rcases style_cases solid with ⟨same, -⟩ | ⟨same, -⟩ | same <;> simp [same]
  rw [writeLine, decide_eq_false notBlock, Bool.false_and]
  rfl

/-- A scalar between marks stands for a value. -/
theorem stands_quoted {value : Value} {quotation : Quotation} {inside : List Char}
    (writes : writeValue? 0 .afterKey value = some (quotation.mark :: inside ++ ['\n']))
    (allowed : ∀ each ∈ quotation.mark :: inside, isAllowed each)
    (taken : ∀ rest,
      (quoted quotation).Takes (quotation.mark :: inside) characters ('\n' :: rest)) :
    Stands value (quotation.mark :: inside) .quoted characters where
  writes := writes
  allowed := allowed
  reads := by
    have notFiller : Layout.isFiller quotation.mark = false := by cases quotation <;> decide
    refine ⟨quotation.mark, inside, rfl, notFiller, ?_⟩
    intro tokens cursor rest notFirst isLeft begins
    obtain ⟨after, tokenTaken, afterLeft⟩ :=
      Layout.takeToken_quoted notFirst isLeft (taken rest)
    exact ⟨_, tokenTaken, Layout.endsLine_of_newline begins afterLeft⟩

/-- A plain scalar stands for a value. -/
theorem stands_plain {value : Value} (solid : AreSolid characters)
    (allows : allowsPlain characters) (nonempty : characters ≠ [])
    (writes : writeValue? 0 .afterKey value = some (characters ++ ['\n'])) :
    Stands value characters .plain characters where
  writes := writes
  allowed each member :=
    isAllowed_of_printable
      (printable_of_allowsSingle (allowsSingle_of_allowsPlain allows) each member)
  reads := by
    obtain ⟨first, word, rfl⟩ := List.exists_cons_of_ne_nil nonempty
    have printable := printable_of_allowsSingle (allowsSingle_of_allowsPlain allows) first
      List.mem_cons_self
    have fluent := (begins_of_allowsPlain solid allows []).1
    have notSpace := fluent.notSpace first List.mem_cons_self (fluent.begins first rfl)
    have notHash := noComment_of_fluent fluent.noIndicator
    have notMark : first.toNat ≠ 0xFEFF := by
      intro same
      rw [show first = Char.ofNat 0xFEFF from Char.toNat_inj.mp same] at printable
      exact absurd printable (by decide)
    have notFiller : Layout.isFiller first = false := by
      rw [Layout.isFiller, notSpace, decide_eq_false notHash, decide_eq_false notMark]
      rfl
    refine ⟨first, word, rfl, notFiller, ?_⟩
    intro tokens cursor rest notFirst isLeft begins
    obtain ⟨-, notOpener, inWord, starts⟩ := begins_of_allowsPlain solid allows rest
    obtain ⟨after, tokenTaken, afterLeft, atStart⟩ := Layout.takeToken_fluent fluent notOpener
      inWord starts notFirst isLeft begins.notSpace
    exact ⟨_, tokenTaken, Layout.endsLine_of_start begins afterLeft atStart⟩

/-- A path is read back as the scalar with its text. -/
theorem stands_path {path : Path} (isText : path.text? = some text) (solid : AreSolid text.toList) :
    Stands (.path path) (written text) (markOf text) text.toList := by
  have writes : writeValue? 0 .afterKey (.path path) = some (written text ++ ['\n']) := by
    rw [writeValue?, isText, Option.map_some, writeLine_of_solid solid]
  rw [markOf]
  rw [written] at writes ⊢
  rcases style_cases solid with ⟨plain, isWord, allows⟩ | ⟨single, allows⟩ | double
  · have nonempty : text.toList ≠ [] := by
      intro empty
      rw [String.toList_eq_nil_iff.mp empty] at isWord
      exact absurd isWord (by decide)
    rw [plain] at writes ⊢
    exact stands_plain solid allows nonempty writes
  · rw [single] at writes ⊢
    have allowed := allowed_singleFrom 2 false (printable_of_allowsSingle allows)
    have taken : ∀ rest, (quoted .single).Takes
        (Quotation.single.mark :: (singleFrom 2 false text.toList ++ ['\x27'])) text.toList
        ('\n' :: rest) := fun rest =>
      takes_single (isFoldable_of_allowsSingle solid allows) (by decide) (by simp)
    refine stands_quoted writes (List.forall_mem_cons.mpr ⟨by decide, ?_⟩) taken
    exact List.forall_mem_append.mpr ⟨allowed, by decide⟩
  · rw [double] at writes ⊢
    have taken : ∀ rest, (quoted .double).Takes
        (Quotation.double.mark :: (text.toList.flatMap escaped ++ ['"'])) text.toList
        ('\n' :: rest) := fun rest => takes_double solid 2 (by simp)
    have allowed : ∀ each ∈ text.toList.flatMap escaped, isAllowed each := by
      intro each member
      obtain ⟨character, isIn, within⟩ := List.mem_flatMap.mp member
      exact allowed_escaped (solid character isIn) each within
    refine stands_quoted writes (List.forall_mem_cons.mpr ⟨by decide, ?_⟩) taken
    exact List.forall_mem_append.mpr ⟨allowed, by decide⟩

/-- A flag is read back from its word. -/
theorem stands_boolean (flag : Bool) :
    Stands (.boolean flag) (toString flag).toList .plain (toString flag).toList :=
  stands_plain (by cases flag <;> decide) (by cases flag <;> decide) (by cases flag <;> decide) rfl

end ElmWorkbench.Yaml
