import ElmWorkbench.Proofs.Json.Outcome
import ElmWorkbench.Proofs.Json.Skipping
import ElmWorkbench.Proofs.Json.Tree
/-!
# Single values of any form

What is in quotation marks is read as the text that it stands for, if it stands for one
(`gives_quotation`), and it is skipped in any case (`Quotation.reads_skipQuotation`), as numbers of any
size are (`Numeral.reads_skipNumeral`). A reader that looks at a value finds out what kind of value
it is (`shows_of_token`), so where another kind is wanted it gives up (`gives_none_of_token`).
-/

namespace ElmWorkbench.Json

open Reader

/-! ## Quotations -/

section Quotations

variable {decoded before rest : Bytes}

/-- Where reading stands behind the first half of a surrogate pair, or without one. -/
def TextState.behind : Option Nat → TextState
  | none => .plain
  | some leading => .pairMark leading

/-- The number that four digits mean is read where they end. -/
theorem readTextFrom_digits {first second third fourth : UInt8} {number : Nat}
    (leading : Option Nat) (known : hexValue? [first, second, third, fourth] = some number) :
    (readTextFrom (.digits [] leading) decoded before
        (first :: second :: third :: fourth :: rest)).toOption =
      (readCode leading number).toOption.bind fun next =>
        (readTextFrom next.2 (next.1.reverse ++ decoded)
          (fourth :: third :: second :: first :: before) rest).toOption := by
  have steps : readTextFrom (.digits [] leading) decoded before
      (first :: second :: third :: fourth :: rest) =
        readTextFrom (.digits [first, second, third] leading) decoded
          (third :: second :: first :: before) (fourth :: rest) := by
    simp [readTextFrom, TextState.read]
  rw [steps, readTextFrom, if_neg (by simp)]
  simp only [TextState.read, List.length_cons, List.length_nil, Nat.lt_irrefl, if_false,
    List.cons_append, List.nil_append, known]
  cases readCode leading number <;> rfl

/-- Escaped numbers are read whether or not the first half of a surrogate pair comes before. -/
theorem readTextFrom_escapedDigits {first second third fourth : UInt8} {number : Nat}
    (leading : Option Nat) (known : hexValue? [first, second, third, fourth] = some number) :
    (readTextFrom (.behind leading) decoded before
        (escapeMark :: 0x75 :: first :: second :: third :: fourth :: rest)).toOption =
      (readCode leading number).toOption.bind fun next =>
        (readTextFrom next.2 (next.1.reverse ++ decoded)
          (fourth :: third :: second :: first :: 0x75 :: escapeMark :: before) rest).toOption := by
  rw [← readTextFrom_digits leading known]
  have notQuote : escapeMark ≠ quote := by decide
  cases leading <;> simp [readTextFrom, TextState.behind, TextState.read, notQuote]

/-- Behind the first half of a surrogate pair nothing but a number is read. -/
theorem readTextFrom_unpaired (leading : Nat) {piece : Piece}
    (noCode : ∀ first second third fourth number known,
      piece ≠ .code first second third fourth number known) :
    (readTextFrom (.behind (some leading)) decoded before
      (piece.bytes ++ rest)).toOption = none := by
  cases piece with
  | plain byte itself =>
    simp [Piece.bytes, readTextFrom, TextState.behind, TextState.read, itself.notMark,
      Except.toOption]
  | escape letter meant known =>
    have notCode : letter ≠ 0x75 := by
      rintro rfl
      cases known
    simp [Piece.bytes, readTextFrom, TextState.behind, TextState.read, notCode, Except.toOption]
  | code first second third fourth number known => exact absurd rfl (noCode _ _ _ _ _ known)

/-- A number that is escaped alone is a character, or half of a surrogate pair. -/
theorem readCode_none (number : Nat) : readCode none number =
    if isLeading number then .ok ([], .behind (some number))
    else if isTrailing number then .error .surrogateUnpaired
    else .ok (String.utf8EncodeChar (Char.ofNat number), .behind none) := by
  simp only [readCode, isLeading, isTrailing, Utf8.encodeChars, List.flatMap_singleton,
    TextState.behind, Bool.and_eq_true, decide_eq_true_eq]
  split
  · split
    · omega
    · rfl
  · rfl

/-- The number behind the first half of a surrogate pair has to be the second half. -/
theorem readCode_some (leading number : Nat) : readCode (some leading) number =
    if isTrailing number then
      .ok (String.utf8EncodeChar (pairedCharacter leading number), .behind none)
    else .error .surrogateUnpaired := by
  simp only [readCode, isTrailing, pairedCharacter, Utf8.encodeChars, List.flatMap_singleton,
    TextState.behind]
  rfl

/-- Pieces are read to the end of their text, unless they stand for none. -/
theorem readTextFrom_pieces (leading : Option Nat) (pieces : List Piece)
    (decoded before rest : Bytes) :
    (readTextFrom (.behind leading) decoded before
        (pieces.flatMap Piece.bytes ++ quote :: rest)).toOption =
      ((unescape? leading pieces).bind fun meant => Utf8.decode? (decoded.reverse ++ meant)).map
        fun text => (text,
          { before := (pieces.flatMap Piece.bytes ++ [quote]).reverse ++ before, rest }) := by
  -- On the pieces, for both places at once: behind the first half of a pair only the second may
  -- follow, and after it reading stands where it did before the pair.
  induction pieces generalizing leading decoded before with
  | nil =>
    cases leading with
    | none =>
      rw [TextState.behind, List.flatMap_nil, List.nil_append, readTextFrom, if_pos (by simp),
        textOfDecoded, unescape?, Option.bind_some, List.append_nil]
      cases Utf8.decode? decoded.reverse <;> rfl
    | some number =>
      have notMark : quote ≠ escapeMark := by decide
      simp [TextState.behind, readTextFrom, unescape?, TextState.read, notMark, Except.toOption]
  | cons piece others inductionHypothesis =>
    rw [List.flatMap_cons, List.append_assoc]
    cases leading with
    | none =>
      cases piece with
      | plain byte itself =>
        have read := readTextFrom_plain (List.forall_mem_singleton.mpr itself) decoded before
          (others.flatMap Piece.bytes ++ quote :: rest)
        rw [Piece.bytes, TextState.behind, read]
        refine (inductionHypothesis none _ _).trans ?_
        simp [unescape?, Option.bind_map]
      | escape letter meant known =>
        refine (congrArg Except.toOption (readTextFrom_letter known)).trans ?_
        refine (inductionHypothesis none _ _).trans ?_
        simp [unescape?, Option.bind_map, Piece.bytes]
      | code first second third fourth number known =>
        refine (readTextFrom_escapedDigits none known).trans ?_
        rw [readCode_none, unescape?]
        split
        · refine (inductionHypothesis (some number) _ _).trans ?_
          simp [Piece.bytes]
        · split
          · rfl
          · refine (inductionHypothesis none _ _).trans ?_
            simp [Option.bind_map, Piece.bytes]
    | some leading =>
      cases piece with
      | plain byte itself => exact readTextFrom_unpaired leading (by simp)
      | escape letter meant known => exact readTextFrom_unpaired leading (by simp)
      | code first second third fourth number known =>
        refine (readTextFrom_escapedDigits (some leading) known).trans ?_
        rw [readCode_some, unescape?]
        split
        · refine (inductionHypothesis none _ _).trans ?_
          simp [Option.bind_map, Piece.bytes]
        · rfl

/-- Pieces are skipped whether or not they stand for a text. -/
theorem skipTextFrom_pieces (pieces : List Piece) (before rest : Bytes) :
    skipTextFrom .plain before (pieces.flatMap Piece.bytes ++ quote :: rest) =
      .ok ((), { before := (pieces.flatMap Piece.bytes ++ [quote]).reverse ++ before, rest }) := by
  induction pieces generalizing before with
  | nil =>
    rw [List.flatMap_nil, List.nil_append, skipTextFrom, if_pos (by simp)]
    rfl
  | cons piece others inductionHypothesis =>
    have skipped : skipTextFrom .plain before
        (piece.bytes ++ (others.flatMap Piece.bytes ++ quote :: rest)) =
          skipTextFrom .plain (piece.bytes.reverse ++ before)
            (others.flatMap Piece.bytes ++ quote :: rest) := by
      cases piece with
      | plain byte itself => exact skipTextFrom_plain (List.forall_mem_singleton.mpr itself) _ _
      | escape letter meant known => exact skipTextFrom_letter known
      | code first second third fourth number known => exact skipTextFrom_code known
    rw [List.flatMap_cons, List.append_assoc, skipped, inductionHypothesis]
    simp

end Quotations

/-! ## Numbers -/

section Numbers

variable {rest : Bytes}

/-- A number opens with a minus or a digit, and never with a blank. -/
theorem Numeral.exists_opening (numeral : Numeral) :
    ∃ lead others, numeral.bytes = lead :: others ∧ isSpace lead = false ∧
      (numeral.isNegative = true ∧ lead = 0x2D ∧ others = numeral.unsigned ∨
        numeral.isNegative = false ∧ isDigit lead) := by
  obtain ⟨lead, others, opened⟩ := List.exists_cons_of_ne_nil numeral.whole.filled
  have digit : isDigit lead := numeral.whole.each lead (opened ▸ List.mem_cons_self)
  rw [Numeral.bytes]
  cases numeral.isNegative with
  | true => exact ⟨0x2D, numeral.unsigned, rfl, rfl, .inl ⟨rfl, rfl, rfl⟩⟩
  | false =>
    rw [Numeral.unsigned, opened]
    exact ⟨lead, _, rfl, (solid_of_isDigit digit).1, .inr ⟨rfl, digit⟩⟩

/-- A number is what stands behind the blanks before it. -/
theorem Numeral.skipSpace_eq (numeral : Numeral) {gap : Bytes} (blank : IsBlank gap)
    (before rest : Bytes) :
    Cursor.skipSpace { before, rest := gap ++ numeral.bytes ++ rest } =
      { before := gap.reverse ++ before, rest := numeral.bytes ++ rest } := by
  obtain ⟨lead, others, opened, solid, -⟩ := numeral.exists_opening
  rw [opened, List.append_assoc, List.cons_append, Reader.skipSpace_eq blank solid]

/-- No exponent follows, or its letter does. -/
theorem noDigit_exponentBytes (exponent : Option Exponent) (ends : IsEnd rest) :
    ∀ byte ∈ (exponentBytes exponent ++ rest).head?, isDigit byte = false ∧ byte ≠ 0x2E := by
  cases exponent with
  | none =>
    intro byte isFirst
    obtain ⟨noDigit, noPoint, -⟩ := ends.not_digit byte isFirst
    exact ⟨noDigit, noPoint⟩
  | some exponent =>
    intro byte isFirst
    obtain rfl := Option.some.inj isFirst
    rcases exponent.isLetter with letter | letter <;> rw [letter] <;> decide

/-- No fraction follows, or its point does. -/
theorem noDigit_fractionBytes (fraction : Option Digits) {behind : Bytes}
    (noDigit : ∀ byte ∈ (behind ++ rest).head?, isDigit byte = false ∧ byte ≠ 0x2E) :
    ∀ byte ∈ (fractionBytes fraction ++ behind ++ rest).head?, isDigit byte = false := by
  cases fraction with
  | none => exact fun byte isFirst => (noDigit byte isFirst).1
  | some places =>
    rintro _ ⟨⟩
    rfl

/-- A sign is stepped over if one is there. -/
theorem exists_reads_sign (exponent : Exponent) (rest : Bytes) :
    ∃ down, sign.Reads exponent.sign down (exponent.digits.bytes ++ rest) := by
  obtain ⟨lead, others, opened⟩ := List.exists_cons_of_ne_nil exponent.digits.filled
  have digit : isDigit lead := exponent.digits.each lead (opened ▸ List.mem_cons_self)
  rw [opened]
  rcases exponent.isSign with sign | sign | sign <;> rw [sign]
  · have noPlus : lead ≠ 0x2B := by
      rintro rfl
      cases digit
    refine ⟨false, Reads.look (reads_peek _) ?_⟩
    simp only [List.nil_append, List.cons_append, List.head?_cons, (solid_of_isDigit digit).2.2.2.2,
      noPlus, if_false]
    exact reads_pure false _
  · exact ⟨false, Reads.look (reads_peek _) (reads_step.tell (reads_pure false _))⟩
  · exact ⟨true, Reads.look (reads_peek _) (reads_step.tell (reads_pure true _))⟩

/-- A fraction is stepped over if one is there. -/
theorem reads_skipFraction (fraction : Option Digits)
    (noDigit : ∀ byte ∈ rest.head?, isDigit byte = false ∧ byte ≠ 0x2E) :
    skipFraction.Reads (fractionBytes fraction) () rest := by
  cases fraction with
  | none => exact reads_noFraction fun point => (noDigit _ point).2 rfl
  | some places =>
    refine Reads.look (reads_peek _) ?_
    have isPoint : (fractionBytes (some places) ++ rest).head? = some 0x2E := rfl
    rw [if_pos isPoint]
    have read : digits.Reads places.bytes places.bytes rest :=
      reads_digits places.each fun byte isFirst => (noDigit byte isFirst).1
    refine reads_step.bind (read.tell ?_)
    rw [if_neg places.filled]
    exact reads_pure () rest

/-- An exponent is stepped over if one is there. -/
theorem reads_skipExponent (exponent : Option Exponent) (ends : IsEnd rest) :
    skipExponent.Reads (exponentBytes exponent) () rest := by
  cases exponent with
  | none => exact reads_noExponent ends
  | some exponent =>
    obtain ⟨lead, others, opened⟩ := List.exists_cons_of_ne_nil exponent.digits.filled
    have digit : isDigit lead := exponent.digits.each lead (opened ▸ List.mem_cons_self)
    have atLetter : atExponent.Reads [] true (exponentBytes (some exponent) ++ rest) := by
      refine Reads.look (reads_peek _) ?_
      rcases exponent.isLetter with letter | letter <;>
        simp only [exponentBytes, Option.elim, letter] <;> exact reads_pure true _
    refine Reads.look atLetter (reads_step.bind ?_)
    obtain ⟨down, signed⟩ := exists_reads_sign exponent rest
    refine signed.bind (Reads.get fun before => ?_)
    have read : digits.Reads (lead :: others) (lead :: others) rest :=
      reads_digits (opened ▸ exponent.digits.each) fun byte isFirst =>
        (ends.not_digit byte isFirst).1
    simp only [opened, List.cons_append, digit, if_true]
    exact read.tell (reads_pure () rest)

/-- Every number is skipped as it is written. -/
theorem Numeral.reads_skipNumeral (numeral : Numeral) (ends : IsEnd rest) :
    skipNumeral.Reads numeral.unsigned () rest := by
  have noDigit := noDigit_exponentBytes numeral.exponent ends
  have wholeEnds := noDigit_fractionBytes numeral.fraction noDigit
  exact reads_takingDigits numeral.whole.filled numeral.whole.each numeral.proper wholeEnds
    ((reads_skipFraction numeral.fraction noDigit).bind
      (reads_skipExponent numeral.exponent ends))

end Numbers

/-! ## Single values -/

section Values

variable {gap text before rest : Bytes} {tree : Tree} {found : Found} {stop : Cursor}

/-- The first byte of a value tells that a value follows, and whether it is `null`. -/
theorem Tree.exists_opening (tree : Tree) : ∃ byte others more,
    tree.tokens = (byte :: others) :: more ∧ isSpace byte = false ∧ byte ≠ 0x5D ∧
      (byte = 0x6E → tree = .null) := by
  have unlike {byte : UInt8} (different : byte ≠ 0x6E) {tree : Tree} : byte = 0x6E → tree = .null :=
    fun same => absurd same different
  cases tree with
  | null => exact ⟨_, _, _, rfl, rfl, by decide, fun _ => rfl⟩
  | boolean value => cases value <;> exact ⟨_, _, _, rfl, rfl, by decide, unlike (by decide)⟩
  | number numeral =>
    obtain ⟨lead, others, opened, solid, kind⟩ := numeral.exists_opening
    refine ⟨lead, others, [], by rw [Tree.tokens, opened], solid, ?_⟩
    rcases kind with ⟨-, rfl, -⟩ | ⟨-, digit⟩
    · exact ⟨by decide, unlike (by decide)⟩
    · refine ⟨?_, unlike (solid_of_isDigit digit).2.1⟩
      rintro rfl
      cases digit
  | text quotation => exact ⟨quote, _, [], rfl, rfl, by decide, unlike (by decide)⟩
  | list elements => exact ⟨0x5B, [], _, rfl, rfl, by decide, unlike (by decide)⟩
  | object entries => exact ⟨0x7B, [], _, rfl, rfl, by decide, unlike (by decide)⟩

/-- The first byte of a value is told from the end of a list. -/
theorem Tree.opens (tree : Tree) : Opens 0x5D tree.tokens := by
  obtain ⟨byte, others, more, tokens, solid, notEnd, -⟩ := tree.exists_opening
  exact ⟨byte, others, more, tokens, solid, notEnd⟩

/-- A quotation is read as its text, if it has one. -/
theorem gives_quotation (quotation : Quotation) (rest : Bytes) :
    Reader.quotation.Gives quotation.bytes quotation.text? rest := by
  intro before
  have read := readTextFrom_pieces none quotation.pieces [] (quote :: before) rest
  simp only [TextState.behind, List.reverse_nil, List.nil_append] at read
  simp only [Reader.quotation, Quotation.bytes, Quotation.inside, List.cons_append, Cursor.advance,
    List.append_assoc, List.nil_append]
  rw [read, Quotation.text?]
  simp

/-- Every quotation is skipped, whether or not it has a text. -/
theorem Quotation.reads_skipQuotation (quotation : Quotation) (rest : Bytes) :
    skipQuotation.Reads quotation.bytes () rest := by
  intro before
  simp only [skipQuotation, Quotation.bytes, Quotation.inside, List.cons_append, Cursor.advance,
    List.append_assoc, List.nil_append]
  rw [skipTextFrom_pieces]
  simp

/-- A quotation is told as its text, if it has one. -/
theorem gives_token_text (blank : IsBlank gap) (quotation : Quotation) (rest : Bytes) :
    token.Gives (gap ++ quotation.bytes) (quotation.text?.map Found.text) rest :=
  Gives.afterGap blank rfl ((gives_quotation quotation rest).map Found.text)

/-- What is found where a number stands is one. -/
theorem isNumber_of_token {numeral : Numeral} (blank : IsBlank gap)
    (read : token { before, rest := gap ++ numeral.bytes ++ rest } = .ok (found, stop)) :
    IsNumber found := by
  obtain ⟨lead, others, opened, -, kind⟩ := numeral.exists_opening
  obtain ⟨byte, comesNext, read⟩ := exists_solid read
  rw [numeral.skipSpace_eq blank, opened] at comesNext
  obtain rfl : lead = byte := Option.some.inj comesNext
  rcases kind with ⟨-, rfl, -⟩ | ⟨-, digit⟩
  · obtain ⟨_, _, -, read⟩ := bind_eq_ok_iff.mp read
    exact (yields_numeral true _ _ _ read).2
  · obtain ⟨-, notNull, notTrue, notFalse, notMinus⟩ := solid_of_isDigit digit
    simp only [notNull, notTrue, notFalse, notMinus, digit, if_false, if_true] at read
    exact (yields_numeral false _ _ _ read).2

/-- The opening bracket of a list is told. -/
theorem reads_token_list (blank : IsBlank gap) : token.Reads gap .list (0x5B :: rest) :=
  Reads.atGap blank rfl (reads_pure Found.list _)

/-- What a reader may tell of a value. -/
inductive Tree.Shows : Tree → Found → Prop where
  | null : Shows .null .null
  | boolean (value : Bool) : Shows (.boolean value) (.boolean value)
  | number {found : Found} (numeral : Numeral) (isNumber : IsNumber found) :
      Shows (.number numeral) found
  | text (quotation : Quotation) (text : String) : Shows (.text quotation) (.text text)
  | list (elements : List Tree) : Shows (.list elements) .list
  | object (entries : List (Quotation × Tree)) : Shows (.object entries) .object

/-- What shows a text is a quotation. -/
theorem Tree.Shows.exists_text {meant : String} (shows : tree.Shows (.text meant)) :
    ∃ quotation, tree = .text quotation := by
  cases shows with
  | number numeral isNumber => cases isNumber
  | text quotation text => exact ⟨quotation, rfl⟩

/-- What shows a list is one. -/
theorem Tree.Shows.exists_list (shows : tree.Shows .list) : ∃ elements, tree = .list elements := by
  cases shows with
  | number numeral isNumber => cases isNumber
  | list elements => exact ⟨elements, rfl⟩

/-- What shows an object is one. -/
theorem Tree.Shows.exists_object (shows : tree.Shows .object) :
    ∃ entries, tree = .object entries := by
  cases shows with
  | number numeral isNumber => cases isNumber
  | object entries => exact ⟨entries, rfl⟩

/-- What is told of a tree is what it shows. -/
theorem shows_of_token (spaced : Spaced tree.tokens text) (ends : IsEnd rest)
    (read : token { before, rest := text ++ rest } = .ok (found, stop)) : tree.Shows found := by
  have word {bytes : Bytes} {meant : Found} (tokens : tree.tokens = [bytes])
      (means : Means bytes meant) : found = meant := by
    rw [tokens] at spaced
    obtain ⟨gap, blank, rfl⟩ := spaced_singleton_iff.mp spaced
    rw [reads_token means blank ends] at read
    exact (congrArg Prod.fst (Except.ok.inj read)).symm
  cases tree with
  | null => exact word rfl .null ▸ .null
  | boolean value =>
    cases value with
    | true => exact word rfl .yes ▸ .boolean true
    | false => exact word rfl .no ▸ .boolean false
  | number numeral =>
    obtain ⟨gap, blank, rfl⟩ := spaced_singleton_iff.mp spaced
    exact .number numeral (isNumber_of_token blank read)
  | text quotation =>
    obtain ⟨gap, blank, rfl⟩ := spaced_singleton_iff.mp spaced
    have given := gives_token_text blank quotation rest before
    rw [read] at given
    obtain ⟨_, isText, same⟩ := Option.map_eq_some_iff.mp given.symm
    obtain ⟨meant, -, rfl⟩ := Option.map_eq_some_iff.mp isText
    cases same
    exact .text quotation meant
  | list elements =>
    obtain ⟨gap, inner, closing, blank, -, -, rfl⟩ := exists_of_spaced_brackets spaced
    rw [List.append_assoc, List.cons_append, List.cons_append, reads_token_list blank] at read
    cases read
    exact .list elements
  | object entries =>
    obtain ⟨gap, inner, closing, blank, -, -, rfl⟩ := exists_of_spaced_brackets spaced
    rw [List.append_assoc, List.cons_append, List.cons_append, reads_token_object blank] at read
    cases read
    exact .object entries

/-- Where no value of this kind is wanted, none is read. -/
theorem gives_none_of_token {Value : Type} {next : Found → Reader Value}
    (spaced : Spaced tree.tokens text) (ends : IsEnd rest)
    (refuses : ∀ found, tree.Shows found → (next found).Refuses) :
    (token >>= next).Gives text none rest := by
  intro before
  cases read : (token >>= next) { before, rest := text ++ rest } with
  | error problem => rfl
  | ok result =>
    obtain ⟨found, middle, told, read⟩ := bind_eq_ok_iff.mp read
    exact absurd read (refuses found (shows_of_token spaced ends told) _ _ _)

/-- A reader of a list goes on at the bracket. -/
theorem gives_list {Value : Type} {next : Found → Reader Value} {elements : List Tree}
    {outcome : Option Value} (spaced : Spaced (Tree.list elements).tokens text)
    (given : ∀ inner closing, Spaced (Tree.elementTokens true elements) inner → IsBlank closing →
      (next .list).Gives (0x5B :: (inner ++ closing) ++ [0x5D]) outcome rest) :
    (token >>= next).Gives text outcome rest := by
  obtain ⟨gap, inner, closing, blank, spacedInner, blankClosing, rfl⟩ :=
    exists_of_spaced_brackets spaced
  have opened : token.Reads gap .list (0x5B :: (inner ++ closing) ++ [0x5D] ++ rest) :=
    reads_token_list blank
  exact opened.goesOn (given inner closing spacedInner blankClosing)

/-- A reader of an object goes on at the brace. -/
theorem gives_object {Value : Type} {next : Found → Reader Value}
    {entries : List (Quotation × Tree)} {outcome : Option Value}
    (spaced : Spaced (Tree.object entries).tokens text)
    (given : ∀ inner closing, Spaced (Tree.entryTokens true entries) inner → IsBlank closing →
      (next .object).Gives (0x7B :: (inner ++ closing) ++ [0x7D]) outcome rest) :
    (token >>= next).Gives text outcome rest := by
  obtain ⟨gap, inner, closing, blank, spacedInner, blankClosing, rfl⟩ :=
    exists_of_spaced_brackets spaced
  have opened : token.Reads gap .object (0x7B :: (inner ++ closing) ++ [0x7D] ++ rest) :=
    reads_token_object blank
  exact opened.goesOn (given inner closing spacedInner blankClosing)

end Values

end ElmWorkbench.Json
