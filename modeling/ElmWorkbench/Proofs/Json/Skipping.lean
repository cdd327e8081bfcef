import ElmWorkbench.Json.Skip
import ElmWorkbench.Proofs.Json.Number
/-!
# Values that nobody uses

A value without brackets is skipped in a single step (`Reader.reads_skipValue`), and it can be read
as a value of any shape (`Reader.reads_token`).
-/

namespace ElmWorkbench.Json

open Reader

/-! ## Skipping inside a text -/

section Inside

variable {before rest : Bytes}

/-- Bytes that stand for themselves are skipped. -/
theorem skipTextFrom_plain {bytes : Bytes} (plain : ∀ byte ∈ bytes, IsPlain byte)
    (before rest : Bytes) :
    skipTextFrom .plain before (bytes ++ rest) =
      skipTextFrom .plain (bytes.reverse ++ before) rest := by
  induction bytes generalizing before with
  | nil => rfl
  | cons byte others inductionHypothesis =>
    obtain ⟨⟨notControl, notQuote, notMark⟩, later⟩ := List.forall_mem_cons.mp plain
    have read : SkipState.read .plain byte = .ok .plain := by
      rw [SkipState.read, if_neg notMark]
    rw [List.cons_append, skipTextFrom, if_neg (by simp [notQuote]),
      if_neg (by simpa using notControl), read]
    dsimp only
    rw [inductionHypothesis later]
    simp

/-- An escape of one letter is skipped. -/
theorem skipTextFrom_letter {letter meant : UInt8} (known : byteOfEscape? letter = some meant) :
    skipTextFrom .plain before (escapeMark :: letter :: rest) =
      skipTextFrom .plain (letter :: escapeMark :: before) rest := by
  have notCode : letter ≠ 0x75 := by
    rintro rfl
    cases known
  have notQuote : escapeMark ≠ quote := by decide
  have notControl : ¬ escapeMark < 0x20 := by decide
  simp [skipTextFrom, SkipState.read, notCode, notQuote, notControl, known]

/-- An escape with a code is skipped. -/
theorem skipTextFrom_code {first second third fourth : UInt8} {number : Nat}
    (read : hexValue? [first, second, third, fourth] = some number) :
    skipTextFrom .plain before ([escapeMark, 0x75, first, second, third, fourth] ++ rest) =
      skipTextFrom .plain ([escapeMark, 0x75, first, second, third, fourth].reverse ++ before)
        rest := by
  have notQuote : escapeMark ≠ quote := by decide
  have notControl : ¬ escapeMark < 0x20 := by decide
  simp [skipTextFrom, SkipState.read, read, notQuote, notControl]

/-- Written characters are stepped over. -/
theorem skipTextFrom_written (characters : List Char) (before rest : Bytes) :
    skipTextFrom .plain before (Utf8.encodeChars (characters.flatMap writeCharacter) ++ rest) =
      skipTextFrom .plain
        ((Utf8.encodeChars (characters.flatMap writeCharacter)).reverse ++ before) rest := by
  induction characters generalizing before with
  | nil => rfl
  | cons character others inductionHypothesis =>
    have first (before rest : Bytes) :
        skipTextFrom .plain before (Utf8.encodeChars (writeCharacter character) ++ rest) =
          skipTextFrom .plain ((Utf8.encodeChars (writeCharacter character)).reverse ++ before)
            rest := by
      rw [writeCharacter]
      cases escaped : letterOfEscape? character with
      | some letter =>
        obtain ⟨byte, meant, written, known, -, -⟩ := exists_of_letterOfEscape? escaped
        simp only [written]
        exact skipTextFrom_letter known
      | none =>
        by_cases control : character.toNat < 0x20
        · obtain ⟨high, low, written, read⟩ := exists_of_control control
          simp only [if_pos control, written]
          exact skipTextFrom_code read
        · simp only [if_neg control, Utf8.encodeChars, List.flatMap_singleton]
          exact skipTextFrom_plain
            (fun byte => isPlain_of_mem_encodeChar escaped (Nat.not_lt.mp control)) _ _
    rw [List.flatMap_cons, Utf8.encodeChars_append, List.append_assoc, first, inductionHypothesis]
    simp

end Inside

/-! ## Single values -/

/-- What is read in one piece and needs no more than 64 bits: a string, an integer, a truth value or
the word `null`. -/
def Value.IsScalar : Value → Prop
  | .null => True
  | .boolean _ => True
  | .integer number => number.natAbs < UInt64.size
  | .text _ => True
  | _ => False

/-- A scalar is written as one token. -/
theorem Value.IsScalar.isSingle {value : Value} (scalar : value.IsScalar) : value.IsSingle := by
  cases value with
  | list elements => cases scalar
  | object entries => cases scalar
  | _ => trivial

/-- The text of a value without brackets, and what it is read as. -/
inductive Means : Bytes → Found → Prop where
  | null : Means [0x6E, 0x75, 0x6C, 0x6C] .null
  | yes : Means [0x74, 0x72, 0x75, 0x65] (.boolean true)
  | no : Means [0x66, 0x61, 0x6C, 0x73, 0x65] (.boolean false)
  | integer {number : Nat} (small : number < UInt64.size) :
      Means (decimal number) (.integer number)
  | negative {number : Nat} (small : number < UInt64.size) :
      Means (0x2D :: decimal number) (integerOf true number)
  | text (text : String) : Means (keyBytes text) (.text text)

/-- What is read without brackets is none. -/
theorem Means.not_bracket {bytes : Bytes} {found : Found} (means : Means bytes found) :
    found ≠ .list ∧ found ≠ .object := by
  cases means with
  | negative small =>
    rw [integerOf, if_neg (by decide)]
    split <;> simp
  | _ => simp

/-- Every scalar means something. -/
theorem Value.IsScalar.exists_means {value : Value} (scalar : value.IsScalar) :
    ∃ found, Means value.bytes found := by
  cases value with
  | null => exact ⟨_, .null⟩
  | boolean value => cases value <;> exact ⟨_, by constructor⟩
  | integer number =>
    cases number with
    | ofNat number =>
      rw [Int.ofNat_eq_natCast, bytes_integer]
      exact ⟨_, .integer scalar⟩
    | negSucc number =>
      rw [bytes_negative]
      exact ⟨_, .negative scalar⟩
  | fraction bits => cases scalar
  | text text =>
    rw [bytes_text]
    exact ⟨_, .text text⟩
  | path path => cases scalar
  | list elements => cases scalar
  | object entries => cases scalar

namespace Reader

variable {gap rest : Bytes}

/-- The next byte is read. -/
theorem reads_next (byte : UInt8) (rest : Bytes) : next.Reads [byte] (some byte) rest :=
  fun _ => rfl

/-- Letters are read one by one. -/
theorem reads_letters (bytes rest : Bytes) : (letters bytes).Reads bytes () rest := by
  induction bytes with
  | nil => exact reads_pure () rest
  | cons byte others inductionHypothesis =>
    refine (reads_next byte _).bind (?_ : Reads _ others () rest)
    simpa using inductionHypothesis

/-- A word is read as what it means. -/
theorem reads_word (first : UInt8) (others : Bytes) (meaning : Found) (rest : Bytes) :
    (word others meaning).Reads (first :: others) meaning rest :=
  reads_step.bind ((reads_letters others rest).tell (reads_pure meaning rest))

/-- A text between quotes is skipped. -/
theorem reads_skipQuotation (text : String) (rest : Bytes) :
    skipQuotation.Reads (keyBytes text) () rest := by
  intro before
  rw [keyBytes, encodeChars_writeText, skipQuotation]
  simp only [List.cons_append, Cursor.advance, List.append_assoc]
  rw [skipTextFrom_written, skipTextFrom, if_pos (by simp)]
  simp

/-- A value without brackets is read to its end. -/
theorem reads_token {bytes : Bytes} {found : Found} (means : Means bytes found)
    (blank : IsBlank gap) (ends : IsEnd rest) : token.Reads (gap ++ bytes) found rest := by
  cases means with
  | null => exact Reads.afterGap blank rfl (reads_word 0x6E _ .null rest)
  | yes => exact Reads.afterGap blank rfl (reads_word 0x74 _ (.boolean true) rest)
  | no => exact Reads.afterGap blank rfl (reads_word 0x66 _ (.boolean false) rest)
  | integer small => exact reads_token_integer blank small ends
  | negative small =>
    exact Reads.afterGap blank rfl (reads_step.bind (reads_numeral true small ends))
  | text text =>
    have quoted := reads_quotation text rest
    rw [keyBytes, encodeChars_writeText]
    rw [encodeChars_writeText] at quoted
    exact Reads.afterGap blank rfl (quoted.map Found.text)

/-- A value without brackets is skipped in a single step. -/
theorem reads_skipToken {bytes : Bytes} {found : Found} (means : Means bytes found)
    (blank : IsBlank gap) (ends : IsEnd rest) : skipToken.Reads (gap ++ bytes) none rest := by
  have skipped : (pure none : Reader (Option Bracket)).Reads [] none rest := reads_pure none rest
  cases means with
  | null => exact Reads.afterGap blank rfl ((reads_word 0x6E _ .null rest).tell skipped)
  | yes => exact Reads.afterGap blank rfl ((reads_word 0x74 _ .null rest).tell skipped)
  | no => exact Reads.afterGap blank rfl ((reads_word 0x66 _ .null rest).tell skipped)
  | @integer number small =>
    obtain ⟨lead, others, opened, digit, -⟩ := exists_lead number
    obtain ⟨solid, notNull, notTrue, notFalse, notMinus⟩ := solid_of_isDigit digit
    have numeral := reads_skipNumeral number ends
    rw [opened] at numeral ⊢
    refine Reads.afterGap blank solid ?_
    simp only [notNull, notTrue, notFalse, notMinus, digit, if_false, if_true]
    exact numeral.tell skipped
  | @negative number small =>
    exact Reads.afterGap blank rfl
      ((reads_step.bind (reads_skipNumeral number ends)).tell skipped)
  | text text =>
    have quoted := reads_skipQuotation text rest
    rw [keyBytes, encodeChars_writeText] at quoted ⊢
    exact Reads.afterGap blank rfl (quoted.tell skipped)

/-- A value without brackets is skipped. -/
theorem reads_skipValue {bytes : Bytes} {found : Found} (means : Means bytes found)
    (blank : IsBlank gap) (ends : IsEnd rest) : skipValue.Reads (gap ++ bytes) () rest := by
  refine Reads.get fun before => ?_
  generalize (gap ++ bytes ++ rest).length = length
  -- The bound leaves a step for the value and one for the end of the loop.
  rw [show 2 * length + 2 = 2 * length + 1 + 1 from rfl, skipWithin]
  refine (reads_skipToken means blank ends).tell ?_
  cases length <;> exact reads_pure () rest

end Reader

end ElmWorkbench.Json
