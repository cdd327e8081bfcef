import ElmWorkbench.Proofs.Json.Damage
import ElmWorkbench.Proofs.Json.Nesting
import Mathlib.Data.List.TakeWhile
/-!
# What is taken is written as tokens

`Written` tells that tokens stand between two cursors, with nothing but blanks around them. A reader
that comes to its end has taken no other bytes. What it has stepped over as a text is a quotation
(`exists_written_of_skipQuotation`), what it has stepped over as a number is a numeral
(`exists_numeral_of_skipNumeral`), and what it has read has the same form. `Reader.Reads` goes the
other way round: it tells that a reader takes what is written in this manner.
-/

namespace ElmWorkbench.Json

open Reader

/-- Tokens stand between two cursors, with nothing but blanks around them. -/
def Written (tokens : List Bytes) : Stretch := fun start stop =>
  ∃ text gap, Spaced tokens text ∧ IsBlank gap ∧ start.rest = text ++ (gap ++ stop.rest)

section Stretches

variable {token : Bytes} {tokens front back : List Bytes} {start middle stop : Cursor}
  {byte : UInt8}

/-- No token stands where nothing is taken. -/
theorem Written.refl (start : Cursor) : Written [] start start :=
  ⟨[], [], .done, isBlank_nil, rfl⟩

/-- Tokens that are taken one after the other are written so. -/
theorem Written.trans (first : Written front start middle) (second : Written back middle stop) :
    Written (front ++ back) start stop := by
  obtain ⟨text, gap, spaced, blank, taken⟩ := first
  obtain ⟨textNext, gapNext, spacedNext, blankNext, takenNext⟩ := second
  cases back with
  | nil =>
    cases spacedNext
    refine ⟨text, gap ++ gapNext, by rwa [List.append_nil],
      List.forall_mem_append.mpr ⟨blank, blankNext⟩, ?_⟩
    rw [taken, takenNext]
    simp
  | cons token others =>
    refine ⟨text ++ (gap ++ textNext), gapNext, spaced_append_iff.mpr ⟨text, gap ++ textNext,
      spaced, spacedNext.behind (List.cons_ne_nil _ _) blank, rfl⟩, blankNext, ?_⟩
    rw [taken, takenNext]
    simp

/-- The bytes that are taken are a token. -/
theorem written_of_rest (taken : start.rest = token ++ stop.rest) : Written [token] start stop :=
  ⟨[] ++ (token ++ []), [], .token isBlank_nil .done, isBlank_nil, by simpa using taken⟩

/-- The byte that comes next is the one that is stepped over. -/
theorem Cursor.rest_advance (comesNext : start.rest.head? = some byte) :
    start.rest = byte :: start.advance.rest := by
  obtain ⟨before, rest⟩ := start
  obtain ⟨others, rfl⟩ := List.head?_eq_some_iff.mp comesNext
  rfl

/-- A byte that is stepped over is a token. -/
theorem written_advance (comesNext : start.rest.head? = some byte) :
    Written [[byte]] start start.advance :=
  written_of_rest (start.rest_advance comesNext)

/-- Bytes are skipped as long as the test holds. -/
theorem Cursor.rest_skip (start : Cursor) (test : UInt8 → Bool) :
    (start.skip test).rest = start.rest.dropWhile test := by
  obtain ⟨before, rest⟩ := start
  rw [Cursor.skip]
  dsimp only
  induction rest generalizing before with
  | nil => rfl
  | cons byte others inductionHypothesis =>
    rw [Cursor.skipFrom, List.dropWhile_cons]
    split
    · exact inductionHypothesis _
    · rfl

/-- Blanks are no token. -/
theorem written_skipSpace (start : Cursor) : Written [] start start.skipSpace := by
  refine ⟨[], start.rest.takeWhile isSpace, .done, fun byte => List.mem_takeWhile_imp, ?_⟩
  rw [Cursor.skipSpace, start.rest_skip, List.nil_append, List.takeWhile_append_dropWhile]

/-- The next byte behind blanks is a token. -/
theorem written_solid (comesNext : start.skipSpace.rest.head? = some byte) :
    Written [[byte]] start start.skipSpace.advance :=
  (written_skipSpace start).trans (written_advance comesNext)

/-- Blanks at the end of a message may stand behind the last token. -/
theorem Written.exists_of_end (written : Written tokens start stop)
    (atEnd : stop.skipSpace.rest = []) :
    ∃ text gap, Spaced tokens text ∧ IsBlank gap ∧ start.rest = text ++ gap := by
  obtain ⟨text, gap, spaced, blank, taken⟩ := written.trans (written_skipSpace stop)
  rw [List.append_nil] at spaced
  rw [atEnd, List.append_nil] at taken
  exact ⟨text, gap, spaced, blank, taken⟩

end Stretches

/-! ## Texts -/

section Texts

variable {before rest : Bytes} {byte : UInt8} {after : Cursor}

/-- The bytes of an escape sequence that has been begun. -/
def SkipState.begun : SkipState → Bytes
  | .plain => []
  | .escape => [escapeMark]
  | .digits read => escapeMark :: 0x75 :: read

/-- An escape sequence that has been begun is not longer than one that is whole. -/
def SkipState.IsShort (state : SkipState) : Prop :=
  state.begun.length < 6

instance (state : SkipState) : Decidable state.IsShort :=
  inferInstanceAs (Decidable (state.begun.length < 6))

/-- A byte goes on with a piece, or it ends one. -/
theorem SkipState.exists_pieces_of_read {state next : SkipState} (short : state.IsShort)
    (isPlain : state = .plain → byte ≠ quote ∧ 0x20 ≤ byte) (read : state.read byte = .ok next) :
    next.IsShort ∧ ∃ pieces : List Piece,
      state.begun ++ [byte] = pieces.flatMap Piece.bytes ++ next.begun := by
  cases state with
  | plain =>
    obtain ⟨notQuote, notControl⟩ := isPlain rfl
    rw [SkipState.read] at read
    split at read
    · next mark =>
      cases read
      exact ⟨by decide, [], by rw [mark]; rfl⟩
    · next notMark =>
      cases read
      exact ⟨by decide, [.plain byte ⟨notControl, notQuote, notMark⟩], rfl⟩
  | escape =>
    rw [SkipState.read] at read
    split at read
    · next letter =>
      cases read
      exact ⟨by decide, [], by rw [letter]; rfl⟩
    · split at read
      · next known =>
        cases read
        obtain ⟨meant, known⟩ := Option.isSome_iff_exists.mp known
        exact ⟨by decide, [.escape byte meant known], rfl⟩
      · cases read
  | digits digits =>
    rw [SkipState.read] at read
    split at read
    · next few =>
      cases read
      refine ⟨?_, [], rfl⟩
      simp only [IsShort, begun, List.length_cons, List.length_append, List.length_nil]
      omega
    · next enough =>
      split at read
      · next known =>
        cases read
        obtain ⟨number, known⟩ := Option.isSome_iff_exists.mp known
        simp only [IsShort, begun, List.length_cons] at short
        have three : digits.length = 3 := by omega
        obtain ⟨first, second, third, rfl⟩ := List.length_eq_three.mp three
        exact ⟨by decide, [.code first second third byte number known], rfl⟩
      · cases read

/-- What is stepped over up to a quotation mark is pieces. -/
theorem exists_pieces_of_skipTextFrom {state : SkipState} (short : state.IsShort)
    (skipped : skipTextFrom state before rest = .ok ((), after)) :
    ∃ pieces : List Piece,
      state.begun ++ rest = pieces.flatMap Piece.bytes ++ (quote :: after.rest) := by
  -- On the bytes that are left; what has been begun of a sequence is counted with them.
  induction rest generalizing state before with
  | nil => cases skipped
  | cons byte rest inductionHypothesis =>
    rw [skipTextFrom] at skipped
    split at skipped
    · next closes =>
      obtain ⟨rfl, rfl⟩ : state = .plain ∧ byte = quote := by simpa using closes
      cases skipped
      exact ⟨[], rfl⟩
    · next goesOn =>
      split at skipped
      · cases skipped
      · next noControl =>
        split at skipped
        · cases skipped
        · next next read =>
          have isPlain : state = .plain → byte ≠ quote ∧ 0x20 ≤ byte := by
            rintro rfl
            exact ⟨by simpa using goesOn, by simpa using noControl⟩
          obtain ⟨nextShort, pieces, begun⟩ := SkipState.exists_pieces_of_read short isPlain read
          obtain ⟨others, left⟩ := inductionHypothesis nextShort skipped
          refine ⟨pieces ++ others, ?_⟩
          rw [List.append_cons, begun, List.append_assoc, left, List.flatMap_append,
            List.append_assoc]

/-- What is skipped between quotes is a quotation. -/
theorem exists_written_of_skipQuotation {start stop : Cursor}
    (comesNext : start.rest.head? = some quote) (skipped : skipQuotation start = .ok ((), stop)) :
    ∃ quotation : Quotation, Written [quotation.bytes] start stop := by
  obtain ⟨pieces, inside⟩ := @exists_pieces_of_skipTextFrom _ _ _ .plain (by decide) skipped
  rw [SkipState.begun, List.nil_append] at inside
  refine ⟨⟨pieces⟩, written_of_rest ?_⟩
  rw [start.rest_advance comesNext, inside, Quotation.bytes, Quotation.inside]
  simp

/-- Where skipping stands when reading stands here. -/
def TextState.skipping : TextState → SkipState
  | .plain | .pairMark _ => .plain
  | .escape | .pairLetter _ => .escape
  | .digits read _ => .digits read

/-- A byte that is read is stepped over. -/
theorem TextState.skipping_read {state next : TextState} {completed : Bytes}
    (read : state.read byte = .ok (completed, next)) :
    state.skipping.read byte = .ok next.skipping := by
  cases goes_of_read read with
  | mark isMark | pairMark isMark => exact congrArg Except.ok (if_pos isMark)
  | plain notMark noControl => exact congrArg Except.ok (if_neg notMark)
  | opensDigits isLetter | pairLetter isLetter => exact if_pos isLetter
  | letter notDigits known =>
    exact (if_neg notDigits).trans (if_pos (Option.isSome_of_eq_some known))
  | digit few => exact if_pos few
  | opensPair enough known | character _ enough known =>
    exact (if_neg enough).trans (if_pos (Option.isSome_of_eq_some known))

/-- Where skipping stands outside of escape sequences, no control character is read, and a quotation
mark only ends a text that has been read to its end. -/
theorem TextState.solid_of_read {state next : TextState} {completed : Bytes}
    (read : state.read byte = .ok (completed, next)) (isPlain : state.skipping = .plain) :
    ¬ byte < 0x20 ∧ (byte = quote → state = .plain) := by
  have solid : ¬ escapeMark < 0x20 ∧ escapeMark ≠ quote := by decide
  cases goes_of_read read with
  | mark isMark => exact ⟨isMark ▸ solid.1, fun _ => rfl⟩
  | plain notMark noControl => exact ⟨noControl, fun _ => rfl⟩
  | pairMark isMark =>
    exact ⟨isMark ▸ solid.1, fun isQuote => absurd (isMark.symm.trans isQuote) solid.2⟩
  | opensDigits | letter | digit | opensPair | character | pairLetter => cases isPlain

/-- A text that is read is stepped over. -/
theorem skipTextFrom_of_readTextFrom {state : TextState} {decoded : Bytes} {text : String}
    (read : readTextFrom state decoded before rest = .ok (text, after)) :
    skipTextFrom state.skipping before rest = .ok ((), after) := by
  induction rest generalizing state decoded before with
  | nil => cases read
  | cons byte rest inductionHypothesis =>
    rw [readTextFrom] at read
    split at read
    · next closes =>
      obtain ⟨rfl, rfl⟩ : state = .plain ∧ byte = quote := by simpa using closes
      rw [textOfDecoded] at read
      split at read
      · cases read
        rfl
      · cases read
    · next goesOn =>
      split at read
      · cases read
      · next completed next readByte =>
        have noQuote : ¬ (state.skipping = .plain ∧ byte = quote) := by
          rintro ⟨isPlain, isQuote⟩
          have ended := (TextState.solid_of_read readByte isPlain).2 isQuote
          exact goesOn (by simp [ended, isQuote])
        have noControl : ¬ (state.skipping = .plain ∧ byte < 0x20) := by
          rintro ⟨isPlain, control⟩
          exact (TextState.solid_of_read readByte isPlain).1 control
        rw [skipTextFrom, if_neg (by simpa using noQuote), if_neg (by simpa using noControl),
          TextState.skipping_read readByte]
        exact inductionHypothesis read

/-- What is read between quotes is a quotation. -/
theorem exists_written_of_quotation {start stop : Cursor} {text : String}
    (comesNext : start.rest.head? = some quote) (read : quotation start = .ok (text, stop)) :
    ∃ quotation : Quotation, Written [quotation.bytes] start stop :=
  exists_written_of_skipQuotation comesNext (@skipTextFrom_of_readTextFrom _ _ _ .plain _ _ read)

end Texts

/-! ## Numbers -/

section Numbers

variable {start stop : Cursor}

/-- What is read as digits are digits. -/
theorem rest_of_digits {written : Bytes} (read : digits start = .ok (written, stop)) :
    start.rest = written ++ stop.rest ∧ ∀ byte ∈ written, isDigit byte := by
  cases read
  rw [start.rest_skip, List.takeWhile_append_dropWhile]
  exact ⟨rfl, fun byte => List.mem_takeWhile_imp⟩

/-- Where a digit comes next, digits are taken. -/
theorem exists_digits {written others : Bytes} {lead : UInt8} (opened : start.rest = lead :: others)
    (digit : isDigit lead) (read : digits start = .ok (written, stop)) :
    ∃ digits : Digits, digits.bytes = written ∧ written.head? = some lead ∧
      start.rest = written ++ stop.rest := by
  obtain ⟨taken, each⟩ := rest_of_digits read
  have isFirst : written.head? = some lead := by
    cases read
    simp [opened, digit]
  have filled : written ≠ [] := by
    rintro rfl
    cases isFirst
  exact ⟨⟨written, filled, each⟩, rfl, isFirst, taken⟩

/-- Digits without a needless zero in front are proper ones. -/
theorem Digits.proper_of (digits : Digits) {lead : UInt8} (isFirst : digits.bytes.head? = some lead)
    (noNeedlessZero : ¬(decide (lead = 0x30) && decide (1 < digits.bytes.length)) = true) :
    digits.bytes.head? = some 0x30 → digits.bytes.length = 1 := by
  intro isZero
  have filled := List.length_pos_iff.mpr digits.filled
  obtain rfl : lead = 0x30 := Option.some.inj (isFirst.symm.trans isZero)
  have short : ¬ 1 < digits.bytes.length := by simpa using noNeedlessZero
  omega

/-- A reader that goes on with digits has taken some, without a needless zero. -/
theorem exists_of_takingDigits {Result : Type} {absent : Fault} {next : Bytes → Reader Result}
    {result : Result} (read : takingDigits absent next start = .ok (result, stop)) :
    ∃ (whole : Digits) (behind : Cursor), digits start = .ok (whole.bytes, behind) ∧
      (whole.bytes.head? = some 0x30 → whole.bytes.length = 1) ∧
      start.rest = whole.bytes ++ behind.rest ∧ next whole.bytes behind = .ok (result, stop) := by
  obtain ⟨_, _, looked, read⟩ := bind_eq_ok_iff.mp read
  cases looked
  cases opened : start.rest with
  | nil =>
    simp only [opened] at read
    cases read
  | cons lead others =>
    simp only [opened] at read
    split at read
    · cases read
    · next digit =>
      obtain ⟨_, _, looked, read⟩ := bind_eq_ok_iff.mp read
      cases looked
      obtain ⟨written, behind, isWritten, read⟩ := bind_eq_ok_iff.mp read
      obtain ⟨whole, rfl, isFirst, taken⟩ := exists_digits opened (by simpa using digit) isWritten
      split at read
      · cases read
      · next noNeedlessZero =>
        exact ⟨whole, behind, isWritten, whole.proper_of isFirst noNeedlessZero, opened ▸ taken, read⟩

/-- What is skipped as a fraction is one, or nothing. -/
theorem exists_fraction_of_skipFraction (skipped : skipFraction start = .ok ((), stop)) :
    ∃ fraction, start.rest = fractionBytes fraction ++ stop.rest := by
  obtain ⟨_, _, looked, skipped⟩ := bind_eq_ok_iff.mp skipped
  cases looked
  split at skipped
  · next point =>
    obtain ⟨_, _, stepped, skipped⟩ := bind_eq_ok_iff.mp skipped
    cases stepped
    obtain ⟨written, behind, read, skipped⟩ := bind_eq_ok_iff.mp skipped
    obtain ⟨taken, each⟩ := rest_of_digits read
    split at skipped
    · cases skipped
    · next filled =>
      cases skipped
      exact ⟨some ⟨written, filled, each⟩, by rw [start.rest_advance point, taken]; rfl⟩
  · cases skipped
    exact ⟨none, rfl⟩

/-- What is read as a sign is one, or nothing. -/
theorem exists_sign_of_sign {down : Bool} (read : sign start = .ok (down, stop)) :
    ∃ written, (written = [] ∨ written = [0x2B] ∨ written = [0x2D]) ∧
      start.rest = written ++ stop.rest := by
  obtain ⟨_, _, looked, read⟩ := bind_eq_ok_iff.mp read
  cases looked
  cases comesNext : start.rest.head? with
  | none =>
    rw [comesNext] at read
    cases read
    exact ⟨[], .inl rfl, rfl⟩
  | some byte =>
    simp only [comesNext] at read
    split at read
    · next minus =>
      cases read
      exact ⟨[0x2D], .inr (.inr rfl), start.rest_advance (minus ▸ comesNext)⟩
    split at read
    · next plus =>
      cases read
      exact ⟨[0x2B], .inr (.inl rfl), start.rest_advance (plus ▸ comesNext)⟩
    · cases read
      exact ⟨[], .inl rfl, rfl⟩

/-- An exponent begins with its letter. -/
theorem exists_letter_of_atExponent {follows : Bool} {behind : Cursor}
    (told : atExponent start = .ok (follows, behind)) :
    start = behind ∧ (follows → ∃ letter : UInt8, (letter = 0x65 ∨ letter = 0x45) ∧
      start.rest.head? = some letter) := by
  cases told
  refine ⟨rfl, fun isLetter => ?_⟩
  simp only [Bool.or_eq_true, decide_eq_true_eq] at isLetter
  rcases isLetter with small | capital
  · exact ⟨0x65, .inl rfl, small⟩
  · exact ⟨0x45, .inr rfl, capital⟩

/-- What is skipped as an exponent is one, or nothing. -/
theorem exists_exponent_of_skipExponent (skipped : skipExponent start = .ok ((), stop)) :
    ∃ exponent, start.rest = exponentBytes exponent ++ stop.rest := by
  obtain ⟨follows, _, told, skipped⟩ := bind_eq_ok_iff.mp skipped
  obtain ⟨rfl, isLetter⟩ := exists_letter_of_atExponent told
  cases follows with
  | false =>
    cases skipped
    exact ⟨none, rfl⟩
  | true =>
    obtain ⟨letter, kind, comesNext⟩ := isLetter rfl
    obtain ⟨_, _, stepped, skipped⟩ := bind_eq_ok_iff.mp skipped
    cases stepped
    obtain ⟨down, signed, read, skipped⟩ := bind_eq_ok_iff.mp skipped
    obtain ⟨sign, isSign, takenSign⟩ := exists_sign_of_sign read
    obtain ⟨_, _, looked, skipped⟩ := bind_eq_ok_iff.mp skipped
    cases looked
    cases left : signed.rest with
    | nil =>
      simp only [left] at skipped
      cases skipped
    | cons byte others =>
      simp only [left] at skipped
      split at skipped
      · next digit =>
        obtain ⟨written, _, read, skipped⟩ := bind_eq_ok_iff.mp skipped
        cases skipped
        obtain ⟨digits, rfl, -, taken⟩ := exists_digits left digit read
        refine ⟨some ⟨letter, sign, digits, kind, isSign⟩, ?_⟩
        rw [start.rest_advance comesNext, takenSign, taken]
        simp [exponentBytes]
      · cases skipped

/-- The digits of a number without its minus. -/
theorem exists_numeral_of_skipNumeral (isNegative : Bool)
    (skipped : skipNumeral start = .ok ((), stop)) :
    ∃ numeral : Numeral, numeral.isNegative = isNegative ∧
      start.rest = numeral.unsigned ++ stop.rest := by
  obtain ⟨whole, _, -, proper, taken, skipped⟩ := exists_of_takingDigits skipped
  obtain ⟨_, _, skippedFraction, skippedExponent⟩ := bind_eq_ok_iff.mp skipped
  obtain ⟨fraction, takenFraction⟩ := exists_fraction_of_skipFraction skippedFraction
  obtain ⟨exponent, takenExponent⟩ := exists_exponent_of_skipExponent skippedExponent
  refine ⟨⟨isNegative, whole, fraction, exponent, proper⟩, rfl, ?_⟩
  rw [taken, takenFraction, takenExponent, Numeral.unsigned]
  simp

end Numbers

/-! ## Single values -/

/-- The text of a value stands between two cursors, with nothing but blanks around it. -/
def IsValue : Stretch := fun start stop =>
  ∃ tree : Tree, Written tree.tokens start stop

section Values

variable {start stop : Cursor} {found meaning : Found} {expected : Bytes} {byte : UInt8}

/-- Letters that are read are the expected ones. -/
theorem rest_of_letters (read : letters expected start = .ok ((), stop)) :
    start.rest = expected ++ stop.rest := by
  induction expected generalizing start with
  | nil =>
    cases read
    rfl
  | cons letter others inductionHypothesis =>
    obtain ⟨_, _, looked, read⟩ := bind_eq_ok_iff.mp read
    cases looked
    cases comesNext : start.rest.head? with
    | none =>
      rw [comesNext] at read
      cases read
    | some byte =>
      simp only [comesNext] at read
      split at read
      · next same =>
        rw [start.rest_advance (same ▸ comesNext), inductionHypothesis read, List.cons_append]
      · cases read

/-- A word that is read is written, and means what it should. -/
theorem written_of_word (comesNext : start.rest.head? = some byte)
    (read : word expected meaning start = .ok (found, stop)) :
    found = meaning ∧ Written [byte :: expected] start stop := by
  obtain ⟨_, _, stepped, read⟩ := bind_eq_ok_iff.mp read
  cases stepped
  obtain ⟨_, _, taken, read⟩ := bind_eq_ok_iff.mp read
  cases read
  refine ⟨rfl, written_of_rest ?_⟩
  rw [start.rest_advance comesNext, rest_of_letters taken, List.cons_append]

/-- A value without brackets is stepped over, or the bracket that opens one is. -/
theorem written_of_skipToken {bracket : Option Bracket}
    (skipped : skipToken start = .ok (bracket, stop)) :
    bracket = none ∧ IsValue start stop ∨
      ∃ opened, bracket = some opened ∧ Written [[opened.opening]] start stop := by
  have toSolid := written_skipSpace start
  obtain ⟨byte, comesNext, skipped⟩ := exists_solid skipped
  -- The branches of the reader, one test after the other.
  split at skipped
  · next same =>
    obtain ⟨_, _, read, skipped⟩ := bind_eq_ok_iff.mp skipped
    cases skipped
    exact .inl ⟨rfl, .null, toSolid.trans (written_of_word (same ▸ comesNext) read).2⟩
  split at skipped
  · next same =>
    obtain ⟨_, _, read, skipped⟩ := bind_eq_ok_iff.mp skipped
    cases skipped
    exact .inl ⟨rfl, .boolean true, toSolid.trans (written_of_word (same ▸ comesNext) read).2⟩
  split at skipped
  · next same =>
    obtain ⟨_, _, read, skipped⟩ := bind_eq_ok_iff.mp skipped
    cases skipped
    exact .inl ⟨rfl, .boolean false, toSolid.trans (written_of_word (same ▸ comesNext) read).2⟩
  split at skipped
  · next same =>
    obtain ⟨_, _, read, skipped⟩ := bind_eq_ok_iff.mp skipped
    cases skipped
    obtain ⟨_, _, stepped, read⟩ := bind_eq_ok_iff.mp read
    cases stepped
    obtain ⟨numeral, negative, taken⟩ := exists_numeral_of_skipNumeral true read
    refine .inl ⟨rfl, .number numeral, toSolid.trans (written_of_rest ?_)⟩
    rw [Cursor.rest_advance (same ▸ comesNext), taken, Numeral.bytes, if_pos negative]
    rfl
  split at skipped
  · obtain ⟨_, _, read, skipped⟩ := bind_eq_ok_iff.mp skipped
    cases skipped
    obtain ⟨numeral, positive, taken⟩ := exists_numeral_of_skipNumeral false read
    refine .inl ⟨rfl, .number numeral, toSolid.trans (written_of_rest ?_)⟩
    rw [taken, Numeral.bytes, positive, if_neg Bool.false_ne_true]
  split at skipped
  · next same =>
    obtain ⟨_, _, read, skipped⟩ := bind_eq_ok_iff.mp skipped
    cases skipped
    obtain ⟨quotation, written⟩ := exists_written_of_skipQuotation (same ▸ comesNext) read
    exact .inl ⟨rfl, .text quotation, toSolid.trans written⟩
  split at skipped
  · next same =>
    cases skipped
    exact .inr ⟨.list, rfl, written_solid (comesNext.trans (congrArg some same))⟩
  split at skipped
  · next same =>
    cases skipped
    exact .inr ⟨.object, rfl, written_solid (comesNext.trans (congrArg some same))⟩
  · cases skipped

/-- A text that is found is one. -/
theorem isValue_of_token_text {text : String} (told : token start = .ok (.text text, stop)) :
    IsValue start stop := by
  have toSolid := written_skipSpace start
  obtain ⟨byte, comesNext, read⟩ := exists_solid told
  split at read
  · cases (written_of_word comesNext read).1
  split at read
  · cases (written_of_word comesNext read).1
  split at read
  · cases (written_of_word comesNext read).1
  split at read
  · obtain ⟨_, _, -, read⟩ := bind_eq_ok_iff.mp read
    exact (yields_numeral true _ _ _ read).2.elim
  split at read
  · exact (yields_numeral false _ _ _ read).2.elim
  split at read
  · next same =>
    obtain ⟨text, quoted, -⟩ := map_eq_ok_iff.mp read
    obtain ⟨quotation, written⟩ := exists_written_of_quotation (same ▸ comesNext) quoted
    exact ⟨.text quotation, toSolid.trans written⟩
  split at read
  · cases read
  split at read
  · cases read
  · cases read

/-- A bracket that is found comes next. -/
theorem comesNext_of_token_bracket (isBracket : opening found = some byte)
    (told : token start = .ok (found, stop)) :
    Written [] start stop ∧ stop.rest.head? = some byte := by
  have noSingle : ¬ IsSingle found := by
    cases found with
    | list => exact id
    | object => exact id
    | _ => cases isBracket
  cases finds_of_token told with
  | word meaning comesNext ascii single read =>
    exact absurd ((written_of_word comesNext read).1 ▸ single) noSingle
  | negative comesNext read =>
    exact absurd (yields_numeral true _ _ _ read).2.isSingle noSingle
  | number read => exact absurd (yields_numeral false _ _ _ read).2.isSingle noSingle
  | text comesNext read => exact absurd trivial noSingle
  | bracket isFound comesNext =>
    obtain rfl := Option.some.inj (isBracket.symm.trans isFound)
    exact ⟨written_skipSpace start, comesNext⟩

end Values

end ElmWorkbench.Json
