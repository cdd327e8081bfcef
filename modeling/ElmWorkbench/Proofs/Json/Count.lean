import ElmWorkbench.Proofs.Json.Decoder
import ElmWorkbench.Proofs.Json.Structure
import Mathlib.Data.List.Induction
/-!
# Numbers that count

A count is read from digits alone, and only if 64 bits hold it: a number with a minus, a fraction or
an exponent is none, however it is rounded (`decodes_count`). The digits stand for one number, which
is written with the same digits again (`decimal_valueOfDigits`).
-/

namespace ElmWorkbench.Json

open Reader

/-! ## Digits and their value -/

section Digits

variable {digits others behind rest : Bytes} {first second : UInt8}

/-- The code of a digit tells its value, which is below ten. -/
theorem toNat_of_isDigit (digit : isDigit first) :
    first.toNat = digitValue first + 0x30 ∧ digitValue first < 10 := by
  simp only [isDigit, Bool.and_eq_true, decide_eq_true_eq, UInt8.le_iff_toNat_le,
    UInt8.toNat_ofNat] at digit
  rw [digitValue]
  omega

/-- Digits of one value are the same. -/
theorem eq_of_digitValue_eq (digit : isDigit first) (digitToo : isDigit second)
    (same : digitValue first = digitValue second) : first = second := by
  rw [← UInt8.toNat_inj, (toNat_of_isDigit digit).1, (toNat_of_isDigit digitToo).1, same]

/-- One more digit makes a number ten times as large and adds the value of the digit. -/
theorem valueOfDigits_concat (value : Nat) (digits : Bytes) (last : UInt8) :
    valueOfDigits value (digits ++ [last]) = valueOfDigits value digits * 10 + digitValue last := by
  simp [valueOfDigits]

/-- Digits that begin with another one than zero do not mean zero. -/
theorem valueOfDigits_pos (filled : digits ≠ []) (each : ∀ byte ∈ digits, isDigit byte)
    (notZero : digits.head? ≠ some 0x30) : 0 < valueOfDigits 0 digits := by
  obtain ⟨lead, others, rfl⟩ := List.exists_cons_of_ne_nil filled
  have digit := each lead List.mem_cons_self
  have leadPositive : 0 < digitValue lead := by
    refine Nat.pos_of_ne_zero fun zero => notZero (congrArg some ?_)
    exact eq_of_digitValue_eq digit rfl zero
  rw [valueOfDigits, List.foldl_cons, ← valueOfDigits]
  exact Nat.lt_of_lt_of_le (by omega) (le_valueOfDigits _ others)

/-- Digits are those that their value is written with, unless a needless zero stands in front. -/
theorem decimal_valueOfDigits (filled : digits ≠ []) (each : ∀ byte ∈ digits, isDigit byte)
    (proper : digits.head? = some 0x30 → digits.length = 1) :
    decimal (valueOfDigits 0 digits) = digits := by
  induction digits using List.reverseRecOn with
  | nil => exact absurd rfl filled
  | append_singleton front last inductionHypothesis =>
    obtain ⟨eachFront, isLast⟩ := List.forall_mem_append.mp each
    have lastDigit : isDigit last := isLast last List.mem_cons_self
    have small := (toNat_of_isDigit lastDigit).2
    obtain ⟨written, whole, writtenDigit, means, -⟩ :=
      exists_decimal_eq (valueOfDigits 0 (front ++ [last]))
    rw [whole]
    rw [valueOfDigits_concat] at means ⊢
    obtain rfl : written = last := eq_of_digitValue_eq writtenDigit lastDigit (by omega)
    refine congrArg (· ++ [written]) ?_
    by_cases none : front = []
    · rw [none, if_pos (by simpa [valueOfDigits] using small)]
    · have notZero : front.head? ≠ some 0x30 := by
        intro isZero
        have short := proper (by rw [List.head?_append, isZero]; rfl)
        have := List.length_pos_iff.mpr none
        simp only [List.length_append, List.length_cons, List.length_nil] at short
        omega
      have positive := valueOfDigits_pos none eachFront notZero
      have tenth : (valueOfDigits 0 front * 10 + digitValue written) / 10 =
          valueOfDigits 0 front := by
        omega
      rw [if_neg (by omega), tenth]
      exact inductionHypothesis none eachFront fun isZero => absurd isZero notZero

/-- Only one split of a text has digits in front and no digit behind them. -/
theorem eq_of_digits_append (each : ∀ byte ∈ digits, isDigit byte)
    (eachOther : ∀ byte ∈ others, isDigit byte)
    (ends : ∀ byte ∈ behind.head?, isDigit byte = false)
    (endsToo : ∀ byte ∈ rest.head?, isDigit byte = false)
    (same : digits ++ behind = others ++ rest) : digits = others ∧ behind = rest := by
  have taken := congrArg (List.takeWhile isDigit) same
  rw [takeWhile_isDigit each ends, takeWhile_isDigit eachOther endsToo] at taken
  exact ⟨taken, List.append_cancel_left (taken ▸ same)⟩

/-- Digits of which all are collected mean a number below the bound. -/
theorem valueOfDigits_lt_of_collect {bound value : Nat} (small : value < bound)
    (all : (collect bound value digits).2 = digits.length) :
    valueOfDigits value digits < bound := by
  induction digits generalizing value with
  | nil => exact small
  | cons digit more inductionHypothesis =>
    rw [collect] at all
    split at all
    · next below =>
      rw [valueOfDigits, List.foldl_cons, ← valueOfDigits]
      exact inductionHypothesis below (Nat.succ.inj all)
    · cases all

end Digits

/-! ## Integers that are found -/

section Found

variable {start stop : Cursor} {number : Int} {negative : Bool}

/-- A minus makes no count of digits, not even of zeros. -/
theorem neg_of_integerOf {significand : Nat}
    (isInteger : integerOf true significand = .integer number) : number < 0 := by
  rw [integerOf] at isInteger
  split at isInteger
  · next plus => cases plus
  · split at isInteger
    · cases isInteger
    · next notZero =>
      cases isInteger
      simp only [Bool.or_eq_true, decide_eq_true_eq, not_or] at notZero
      omega

/-- What stands behind an integer is no part of a number. -/
structure EndsInteger (rest : Bytes) : Prop where
  noDigit : ∀ byte ∈ rest.head?, isDigit byte = false
  noPoint : rest.head? ≠ some 0x2E
  noExponent : rest.head? ≠ some 0x65 ∧ rest.head? ≠ some 0x45

/-- A number that is an integer, with these bytes behind it: it is written with digits alone, and 64
bits hold what they mean. -/
structure Numeral.IsInteger (numeral : Numeral) (number : Int) (behind : Bytes) : Prop where
  noFraction : numeral.fraction = none
  noExponent : numeral.exponent = none
  ends : EndsInteger behind
  small : valueOfDigits 0 numeral.whole.bytes < UInt64.size
  means : integerOf numeral.isNegative (valueOfDigits 0 numeral.whole.bytes) = .integer number

/-- Digits are read up to what is none. -/
theorem noDigit_of_digits {written : Bytes} (read : digits start = .ok (written, stop)) :
    ∀ byte ∈ stop.rest.head?, isDigit byte = false := by
  cases read
  rw [start.rest_skip]
  intro byte isHead
  have stops := List.head?_dropWhile_not isDigit start.rest
  rwa [Option.mem_def.mp isHead] at stops

/-- An integer that is read behind its sign is written there. -/
theorem exists_digits_of_numeral (read : numeral negative start = .ok (.integer number, stop)) :
    ∃ numeral : Numeral, numeral.isNegative = negative ∧
      start.rest = numeral.unsigned ++ stop.rest ∧ numeral.IsInteger number stop.rest := by
  obtain ⟨whole, behind, isWritten, proper, taken, read⟩ := exists_of_takingDigits read
  obtain ⟨_, _, looked, read⟩ := bind_eq_ok_iff.mp read
  cases looked
  split at read
  · next point => exact ((yieldsAt_fraction (by decide) _ _ _ _ _ _ point read).2).elim
  · next noPoint =>
    obtain ⟨_, _, told, read⟩ := bind_eq_ok_iff.mp read
    cases told
    split at read
    · next all =>
      obtain ⟨isInteger, rfl⟩ := Prod.mk.inj (Except.ok.inj read)
      simp only [Bool.and_eq_true, decide_eq_true_eq, Bool.not_eq_true', Bool.or_eq_false_iff,
        decide_eq_false_iff_not] at all
      have small := valueOfDigits_lt_of_collect (by decide) all.1
      rw [collect_eq small] at isInteger
      have ends : EndsInteger behind.rest := ⟨noDigit_of_digits isWritten, noPoint, all.2⟩
      exact ⟨⟨negative, whole, none, none, proper⟩, rfl,
        by simpa [Numeral.unsigned, fractionBytes, exponentBytes] using taken,
        rfl, rfl, ends, small, isInteger⟩
    · exact (yields_tail _ _ _ _ _ _ read).2.elim

/-- An integer that is found is written with its sign and digits. -/
theorem exists_numeral_of_token (told : token start = .ok (.integer number, stop)) :
    ∃ numeral : Numeral, start.skipSpace.rest = numeral.bytes ++ stop.rest ∧
      numeral.IsInteger number stop.rest := by
  obtain ⟨byte, comesNext, read⟩ := exists_solid told
  split at read
  · cases (written_of_word comesNext read).1
  split at read
  · cases (written_of_word comesNext read).1
  split at read
  · cases (written_of_word comesNext read).1
  split at read
  · next minus =>
    obtain ⟨_, _, stepped, read⟩ := bind_eq_ok_iff.mp read
    cases stepped
    obtain ⟨numeral, isNegative, taken, isInteger⟩ := exists_digits_of_numeral read
    refine ⟨numeral, ?_, isInteger⟩
    rw [Cursor.rest_advance (minus ▸ comesNext), taken, Numeral.bytes, if_pos isNegative]
    rfl
  split at read
  · obtain ⟨numeral, isNegative, taken, isInteger⟩ := exists_digits_of_numeral read
    refine ⟨numeral, ?_, isInteger⟩
    rw [taken, Numeral.bytes, isNegative, if_neg Bool.false_ne_true]
  split at read
  · obtain ⟨_, _, same⟩ := map_eq_ok_iff.mp read
    cases same
  split at read
  · cases read
  split at read
  · cases read
  · cases read

/-- What is read as a count is a whole value. -/
theorem isValue_count : Reader.count.Crosses IsValue := by
  intro start value stop taken
  obtain ⟨found, middle, told, taken⟩ := bind_eq_ok_iff.mp taken
  cases found with
  | integer number =>
    dsimp only at taken
    split at taken
    · cases taken
    · cases taken
      obtain ⟨numeral, taken, -⟩ := exists_numeral_of_token told
      exact ⟨.number numeral, (written_skipSpace start).trans (written_of_rest taken)⟩
  | _ => cases taken

end Found

/-! ## Counts as trees -/

/-- The number that a tree is, if it is written with digits alone. -/
def Tree.natural? : Tree → Option Nat
  | .number ⟨false, whole, none, none, _⟩ => some (valueOfDigits 0 whole.bytes)
  | _ => none

/-- The count that a tree is, if 64 bits hold it. -/
def Tree.count? (tree : Tree) : Option UInt64 :=
  (tree.natural?.filter (· < UInt64.size)).map UInt64.ofNat

section Counts

variable {tree : Tree} {text gap before rest : Bytes} {stop : Cursor}

/-- A tree is a natural number if it is a numeral of digits alone. -/
theorem Tree.natural?_eq_some_iff {number : Nat} : tree.natural? = some number ↔
    ∃ whole proper, tree = .number ⟨false, whole, none, none, proper⟩ ∧
      valueOfDigits 0 whole.bytes = number := by
  constructor
  · intro isNumber
    unfold natural? at isNumber
    split at isNumber
    · next whole proper => exact ⟨whole, proper, rfl, Option.some.inj isNumber⟩
    · cases isNumber
  · rintro ⟨whole, proper, rfl, rfl⟩
    rfl

/-- A tree is a count if it is a natural number that a count can hold. -/
theorem Tree.count?_eq_some_iff {number : UInt64} :
    tree.count? = some number ↔ tree.natural? = some number.toNat := by
  rw [count?, Option.map_eq_some_iff]
  constructor
  · rintro ⟨natural, isNatural, rfl⟩
    obtain ⟨isNatural, small⟩ := Option.filter_eq_some_iff.mp isNatural
    rw [isNatural, UInt64.toNat_ofNat_of_lt' (by simpa using small)]
  · intro isNatural
    refine ⟨number.toNat, Option.filter_eq_some_iff.mpr ⟨isNatural, ?_⟩, UInt64.ofNat_toNat⟩
    simpa using number.toNat_lt

/-- A number that begins with digits, where nothing behind them is a part of it, is written with
them. -/
theorem Numeral.tree_eq_of_append {numeral : Numeral} {whole : Digits} {behind : Bytes}
    (ends : IsEnd rest) (endsInteger : EndsInteger behind)
    (same : numeral.bytes ++ rest = whole.bytes ++ behind) :
    ∃ proper, Tree.number numeral = .number ⟨false, whole, none, none, proper⟩ := by
  obtain ⟨isNegative, own, fraction, exponent, proper⟩ := numeral
  obtain ⟨lead, others, opened⟩ := List.exists_cons_of_ne_nil whole.filled
  have digit : isDigit lead := whole.each lead (opened ▸ List.mem_cons_self)
  cases isNegative with
  | true =>
    rw [opened] at same
    obtain rfl : (0x2D : UInt8) = lead := (List.cons.inj same).1
    cases digit
  | false =>
    have split : own.bytes ++ (fractionBytes fraction ++ exponentBytes exponent ++ rest) =
        whole.bytes ++ behind := by
      simpa [bytes, unsigned] using same
    obtain ⟨sameDigits, rfl⟩ := eq_of_digits_append own.each whole.each
      (noDigit_fractionBytes fraction (noDigit_exponentBytes exponent ends)) endsInteger.noDigit
      split
    obtain ⟨_, _, _⟩ := own
    cases sameDigits
    cases fraction with
    | some places => exact absurd rfl endsInteger.noPoint
    | none =>
      cases exponent with
      | none => exact ⟨proper, rfl⟩
      | some exponent =>
        rcases exponent.isLetter with letter | letter
        · exact absurd (congrArg some letter) endsInteger.noExponent.1
        · exact absurd (congrArg some letter) endsInteger.noExponent.2

/-- A number that no minus is found at is a count. -/
theorem exists_count_of_token (spaced : Spaced tree.tokens text) (ends : IsEnd rest) {number : Int}
    (natural : ¬number < 0)
    (told : token { before, rest := text ++ rest } = .ok (.integer number, stop)) :
    ∃ count, tree.count? = some count := by
  obtain ⟨numeral, rfl⟩ : ∃ numeral, tree = .number numeral := by
    cases shows_of_token spaced ends told with
    | number numeral isNumber => exact ⟨numeral, rfl⟩
  obtain ⟨gap, blank, rfl⟩ := spaced_singleton_iff.mp spaced
  obtain ⟨found, taken, noFraction, noExponent, endsInteger, small, isInteger⟩ :=
    exists_numeral_of_token told
  obtain ⟨isNegative, whole, fraction, exponent, proper⟩ := found
  obtain rfl : isNegative = false := by
    cases isNegative with
    | false => rfl
    | true => exact absurd (neg_of_integerOf isInteger) natural
  cases noFraction
  cases noExponent
  rw [numeral.skipSpace_eq blank] at taken
  have same : numeral.bytes ++ rest = whole.bytes ++ stop.rest := by
    simpa [Numeral.bytes, Numeral.unsigned, fractionBytes, exponentBytes] using taken
  obtain ⟨proper, isTree⟩ := Numeral.tree_eq_of_append ends endsInteger same
  refine ⟨.ofNat (valueOfDigits 0 whole.bytes), Tree.count?_eq_some_iff.mpr ?_⟩
  rw [isTree, UInt64.toNat_ofNat_of_lt' small, Tree.natural?]

/-- A count is read as what its tree stands for. -/
theorem decodes_count : Decodes Reader.count Tree.count? := by
  intro tree text rest spaced ends
  cases counted : tree.count? with
  | some number =>
    obtain ⟨whole, proper, rfl, means⟩ :=
      Tree.natural?_eq_some_iff.mp (Tree.count?_eq_some_iff.mp counted)
    obtain ⟨gap, blank, rfl⟩ := spaced_singleton_iff.mp spaced
    have written : decimal number.toNat = whole.bytes := by
      rw [← means]
      exact decimal_valueOfDigits whole.filled whole.each proper
    have bytes : Numeral.bytes ⟨false, whole, none, none, proper⟩ = decimal number.toNat := by
      simp [Numeral.bytes, Numeral.unsigned, fractionBytes, exponentBytes, written]
    rw [bytes]
    refine ((reads_token_integer blank number.toNat_lt ends).tell ?_).gives
    have natural : ¬(number.toNat : Int) < 0 := by omega
    simp only [natural, if_false, Int.toNat_natCast, UInt64.ofNat_toNat]
    exact reads_pure number rest
  | none =>
    intro before
    cases read : Reader.count { before, rest := text ++ rest } with
    | error problem => rfl
    | ok result =>
      obtain ⟨found, middle, told, read⟩ := bind_eq_ok_iff.mp read
      cases found with
      | integer number =>
        dsimp only at read
        split at read
        · cases read
        · next natural =>
          obtain ⟨count, isCount⟩ := exists_count_of_token spaced ends natural told
          cases counted.symm.trans isCount
      | _ => cases read

end Counts

end ElmWorkbench.Json
