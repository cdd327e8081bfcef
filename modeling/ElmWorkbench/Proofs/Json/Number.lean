import ElmWorkbench.Proofs.Json.Spacing
/-!
# Integers are read back

An integer is written with its decimal digits, which have no needless zero in front. If its
magnitude takes no more than 64 bits it is read back from them (`Reader.reads_numeral`), and it can
be skipped whatever its size (`Reader.reads_skipNumeral`).
-/

namespace ElmWorkbench.Json

open Reader

/-! ## Decimal digits -/

/-- The decimal digits of a number. -/
def decimal (number : Nat) : Bytes :=
  Utf8.encodeChars (Nat.toDigits 10 number)

/-- The number that digits mean behind those of another one. -/
def valueOfDigits (value : Nat) (digits : Bytes) : Nat :=
  digits.foldl (fun value digit => value * 10 + digitValue digit) value

/-- A digit is written with one byte, which means it. -/
theorem exists_of_decimalDigit {digit : Nat} (small : digit < 10) :
    ∃ byte, String.utf8EncodeChar (Nat.digitChar digit) = [byte] ∧ isDigit byte ∧
      digitValue byte = digit ∧ (byte = 0x30 → digit = 0) := by
  interval_cases digit <;> exact ⟨_, rfl, rfl, rfl, by decide⟩

/-- A digit is neither a blank nor what another value opens with. -/
theorem solid_of_isDigit {byte : UInt8} (digit : isDigit byte) :
    isSpace byte = false ∧ byte ≠ 0x6E ∧ byte ≠ 0x74 ∧ byte ≠ 0x66 ∧ byte ≠ 0x2D := by
  simp only [isDigit, Bool.and_eq_true, decide_eq_true_eq, UInt8.le_iff_toNat_le] at digit
  simp only [isSpace, Bool.or_eq_false_iff, decide_eq_false_iff_not, ne_eq, ← UInt8.toNat_inj]
  simp only [UInt8.toNat_ofNat] at digit ⊢
  omega

/-- The digits of a number are those of its tenth and one more. -/
theorem exists_decimal_eq (number : Nat) :
    ∃ last, decimal number = (if number < 10 then [] else decimal (number / 10)) ++ [last] ∧
      isDigit last ∧ digitValue last = number % 10 ∧ (last = 0x30 → number % 10 = 0) := by
  obtain ⟨last, written, digit⟩ := exists_of_decimalDigit (Nat.mod_lt number (Nat.succ_pos 9))
  refine ⟨last, ?_, digit⟩
  rw [decimal, Nat.toDigits_eq_if (by decide), ← written]
  split
  · next small => simp [Utf8.encodeChars, Nat.mod_eq_of_lt small]
  · rw [Utf8.encodeChars_append, decimal]
    simp [Utf8.encodeChars]

/-- A number is written in digits. -/
theorem isDigit_of_mem_decimal {number : Nat} {byte : UInt8} (member : byte ∈ decimal number) :
    isDigit byte := by
  induction number using Nat.strong_induction_on with
  | h number inductionHypothesis =>
    obtain ⟨last, whole, digit, -, -⟩ := exists_decimal_eq number
    rw [whole] at member
    rcases List.mem_append.mp member with earlier | isLast
    · split at earlier
      · cases earlier
      · exact inductionHypothesis (number / 10) (by omega) earlier
    · rwa [List.mem_singleton.mp isLast]

/-- A number is read back from its digits. -/
theorem valueOfDigits_decimal (number : Nat) : valueOfDigits 0 (decimal number) = number := by
  induction number using Nat.strong_induction_on with
  | h number inductionHypothesis =>
    obtain ⟨last, whole, -, means, -⟩ := exists_decimal_eq number
    rw [whole, valueOfDigits, List.foldl_append, List.foldl_cons, List.foldl_nil, means]
    split
    · rw [List.foldl_nil]
      omega
    · rw [← valueOfDigits, inductionHypothesis (number / 10) (by omega)]
      omega

/-- The first digit is zero only if that is all. -/
theorem exists_lead (number : Nat) :
    ∃ lead others, decimal number = lead :: others ∧ isDigit lead ∧
      (lead = 0x30 → number = 0 ∧ others = []) := by
  induction number using Nat.strong_induction_on with
  | h number inductionHypothesis =>
    obtain ⟨last, whole, digit, -, zero⟩ := exists_decimal_eq number
    rw [whole]
    split
    · refine ⟨last, [], rfl, digit, fun isZero => ⟨?_, rfl⟩⟩
      have := zero isZero
      omega
    · obtain ⟨lead, others, opened, leadDigit, leadZero⟩ :=
        inductionHypothesis (number / 10) (by omega)
      refine ⟨lead, others ++ [last], by rw [opened, List.cons_append], leadDigit, fun isZero => ?_⟩
      have := (leadZero isZero).1
      omega

/-- More digits make no number smaller. -/
theorem le_valueOfDigits (value : Nat) (digits : Bytes) : value ≤ valueOfDigits value digits := by
  induction digits generalizing value with
  | nil => exact Nat.le_refl value
  | cons digit rest inductionHypothesis =>
    have more := inductionHypothesis (value * 10 + digitValue digit)
    rw [valueOfDigits, List.foldl_cons, ← valueOfDigits]
    omega

/-- All digits are collected if the whole stays below the bound. -/
theorem collect_eq {bound value : Nat} {digits : Bytes}
    (small : valueOfDigits value digits < bound) :
    collect bound value digits = (valueOfDigits value digits, digits.length) := by
  induction digits generalizing value with
  | nil => rfl
  | cons digit rest inductionHypothesis =>
    rw [valueOfDigits, List.foldl_cons, ← valueOfDigits] at small
    have next := Nat.lt_of_le_of_lt (le_valueOfDigits _ rest) small
    simp only [collect, if_pos next, inductionHypothesis small]
    rfl

/-! ## Written integers -/

/-- The decimal digits of a number are those that it is shown with. -/
theorem encode_toString (number : Nat) :
    Utf8.encodeChars (toString number).toList = decimal number := by
  rw [Nat.toString_eq_repr, Nat.toList_repr, decimal]

/-- A natural number is written in its digits. -/
theorem bytes_integer (number : Nat) : (Value.integer number).bytes = decimal number := by
  rw [Value.bytes, Value.compact, Value.write, Output.text_of]
  exact encode_toString number

/-- A negative number is written in its digits behind a minus. -/
theorem bytes_negative (number : Nat) :
    (Value.integer (Int.negSucc number)).bytes = 0x2D :: decimal (number + 1) := by
  have signed : toString (Int.negSucc number) = "-" ++ toString (number + 1) := rfl
  rw [Value.bytes, Value.compact, Value.write, Output.text_of, signed, String.toList_append,
    Utf8.encodeChars_append, encode_toString]
  rfl

/-! ## Reading digits -/

/-- What may follow a value is no part of a number. -/
theorem IsEnd.not_digit {rest : Bytes} (ends : IsEnd rest) :
    ∀ byte ∈ rest.head?, isDigit byte = false ∧ byte ≠ 0x2E ∧ byte ≠ 0x65 ∧ byte ≠ 0x45 := by
  intro byte isFirst
  have cases := ends byte isFirst
  simp only [isSpace, Bool.or_eq_true, decide_eq_true_eq] at cases
  rcases cases with (((rfl | rfl) | rfl) | rfl) | rfl | rfl | rfl <;> decide

/-- Digits are told from what follows them. -/
theorem takeWhile_isDigit {written rest : Bytes} (digits : ∀ byte ∈ written, isDigit byte)
    (ends : ∀ byte ∈ rest.head?, isDigit byte = false) :
    (written ++ rest).takeWhile isDigit = written := by
  have stops : rest.takeWhile isDigit = [] := by
    cases rest with
    | nil => rfl
    | cons byte others => simp [ends byte rfl]
  rw [List.takeWhile_append_of_pos digits, stops, List.append_nil]

namespace Reader

variable {Result : Type} {result : Result} {written rest : Bytes}

/-- Digits are read up to what is none. -/
theorem reads_digits (digits : ∀ byte ∈ written, isDigit byte)
    (ends : ∀ byte ∈ rest.head?, isDigit byte = false) :
    Reader.digits.Reads written written rest := by
  intro before
  have skipped (before : Bytes) : Cursor.skipFrom isDigit before (written ++ rest) =
      { before := written.reverse ++ before, rest } := by
    induction written generalizing before with
    | nil =>
      cases rest with
      | nil => rfl
      | cons byte others => simp [Cursor.skipFrom, ends byte rfl]
    | cons byte others inductionHypothesis =>
      obtain ⟨here, later⟩ := List.forall_mem_cons.mp digits
      simp [Cursor.skipFrom, here, inductionHypothesis later]
  rw [Reader.digits, Cursor.skip, skipped, takeWhile_isDigit digits ends]

/-- A look at the next byte reads none. -/
theorem reads_peek (rest : Bytes) : peek.Reads [] rest.head? rest := fun _ => rfl

/-- No exponent stands at the end of a value. -/
theorem reads_atExponent (ends : IsEnd rest) : atExponent.Reads [] false rest := by
  refine Reads.look (reads_peek _) ?_
  have noExponent :
      (decide (rest.head? = some 0x65) || decide (rest.head? = some 0x45)) = false := by
    cases rest with
    | nil => rfl
    | cons byte others => simp [(ends.not_digit byte rfl).2.2]
  simp only [List.nil_append, noExponent]
  exact reads_pure false _

/-- No point stands at the end of a value. -/
theorem not_point (ends : IsEnd rest) : rest.head? ≠ some 0x2E := by
  intro isPoint
  exact (ends.not_digit _ isPoint).2.1 rfl

/-- There is no fraction without a point. -/
theorem reads_noFraction (noPoint : rest.head? ≠ some 0x2E) : skipFraction.Reads [] () rest := by
  refine Reads.look (reads_peek _) ?_
  rw [List.nil_append, if_neg noPoint]
  exact reads_pure () rest

/-- There is no exponent at the end of a value. -/
theorem reads_noExponent (ends : IsEnd rest) : skipExponent.Reads [] () rest :=
  Reads.look (reads_atExponent ends) (reads_pure () rest)

/-- What the two readers of numbers have in common: they take the digits that come next, refuse a
needless zero in front of others, and go on with the digits. -/
def takingDigits (absent : Fault) (next : Bytes → Reader Result) : Reader Result := do
  match (← get).rest with
  | [] => fail absent
  | lead :: _ =>
    if !isDigit lead then do
      step
      fail .numberMalformed
    else do
      let start ← get
      let written ← digits
      if lead = 0x30 && 1 < written.length then do
        set start.advance
        failNext .numberMalformed
      else next written

/-- Digits without a leading zero are read before what follows them. -/
theorem reads_takingDigits {absent : Fault} {next : Bytes → Reader Result} {digits back : Bytes}
    (filled : digits ≠ []) (each : ∀ byte ∈ digits, isDigit byte)
    (proper : digits.head? = some 0x30 → digits.length = 1)
    (ends : ∀ byte ∈ (back ++ rest).head?, isDigit byte = false)
    (taken : (next digits).Reads back result rest) :
    (takingDigits absent next).Reads (digits ++ back) result rest := by
  obtain ⟨lead, others, rfl⟩ := List.exists_cons_of_ne_nil filled
  have digit : isDigit lead := each lead List.mem_cons_self
  have noNeedlessZero : (decide (lead = 0x30) && decide (1 < (lead :: others).length)) = false := by
    by_cases zero : lead = 0x30
    · simp [proper (congrArg some zero)]
    · simp [zero]
  refine Reads.get fun before => ?_
  simp only [List.cons_append, digit, Bool.not_true, Bool.false_eq_true, if_false]
  refine Reads.get fun before => (reads_digits each ends).bind ?_
  simp only [noNeedlessZero, Bool.false_eq_true, if_false]
  exact taken

/-- The digits that a number is written with are taken. -/
theorem reads_takingDigits_decimal {absent : Fault} {next : Bytes → Reader Result} (number : Nat)
    (ends : IsEnd rest) (taken : (next (decimal number)).Reads [] result rest) :
    (takingDigits absent next).Reads (decimal number) result rest := by
  obtain ⟨lead, others, opened, -, zero⟩ := exists_lead number
  have filled : decimal number ≠ [] := opened ▸ List.cons_ne_nil lead others
  have proper : (decimal number).head? = some 0x30 → (decimal number).length = 1 := by
    rw [opened]
    intro isZero
    rw [(zero (Option.some.inj isZero)).2]
    rfl
  have whole := @reads_takingDigits _ _ rest absent next _ [] filled
    (fun _ => isDigit_of_mem_decimal) proper
    (fun byte isFirst => (ends.not_digit byte isFirst).1) taken
  rwa [List.append_nil] at whole

/-- The digits of a number are read back as an integer, if 64 bits hold its magnitude. -/
theorem reads_numeral (negative : Bool) {number : Nat} (small : number < UInt64.size)
    (ends : IsEnd rest) :
    (numeral negative).Reads (decimal number) (integerOf negative number) rest := by
  refine reads_takingDigits_decimal number ends ?_
  have collected : collect UInt64.size 0 (decimal number) = (number, (decimal number).length) := by
    rw [collect_eq (by rwa [valueOfDigits_decimal]), valueOfDigits_decimal]
  simp only [collected]
  refine Reads.look (reads_peek _) ?_
  simp only [List.nil_append, not_point ends, if_false]
  refine Reads.look (reads_atExponent ends) ?_
  simp only [decide_true, Bool.not_false, Bool.and_self, if_true]
  exact reads_pure _ _

/-- A number is skipped. -/
theorem reads_skipNumeral (number : Nat) (ends : IsEnd rest) :
    skipNumeral.Reads (decimal number) () rest :=
  reads_takingDigits_decimal number ends
    ((reads_noFraction (not_point ends)).look (reads_noExponent ends))

/-! ## Integers as single values -/

/-- A number without a sign is read as the integer that it is. -/
theorem reads_token_integer {gap : Bytes} (blank : IsBlank gap) {number : Nat}
    (small : number < UInt64.size) (ends : IsEnd rest) :
    token.Reads (gap ++ decimal number) (.integer number) rest := by
  obtain ⟨lead, others, opened, digit, -⟩ := exists_lead number
  obtain ⟨solid, notNull, notTrue, notFalse, notMinus⟩ := solid_of_isDigit digit
  have numeral := reads_numeral false small ends
  rw [opened] at numeral ⊢
  have looked : peekSolid.Reads gap (some lead) (lead :: others ++ rest) :=
    reads_peekSolid blank solid
  refine looked.bind ?_
  simp only [notNull, notTrue, notFalse, notMinus, digit, if_false, if_true]
  exact numeral

end Reader

end ElmWorkbench.Json
