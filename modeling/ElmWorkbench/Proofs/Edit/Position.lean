import ElmWorkbench.Edit.Range
import Mathlib.Data.List.DropRight
/-!
# Positions as texts

A text is read as a position exactly if what stands between the blanks around it is two counts with
a colon between them, and every other text is refused as it stands (`Position.ofText_reads_written`).
A position that is displayed is read back. The first colon of a text separates its counts. Neither of
them has a colon, so the text cannot be cut in another way.
-/

namespace ElmWorkbench

namespace Text

variable {characters kept : List Char}

/-- What is left of a text without the blanks around it. -/
structure IsTrimmed (characters kept : List Char) : Prop where
  around : ∃ front back, characters = front ++ kept ++ back ∧
    (∀ character ∈ front, isBlank character) ∧ ∀ character ∈ back, isBlank character
  opens : ∀ character ∈ kept.head?, isBlank character = false
  ends : ∀ character ∈ kept.getLast?, isBlank character = false

/-- Trimming drops the blanks before and then those behind. -/
theorem trim_eq (characters : List Char) :
    trim characters = (characters.dropWhile isBlank).rdropWhile isBlank :=
  rfl

/-- What is kept by trimming has blanks around it and none at its own ends. -/
theorem isTrimmed_trim (characters : List Char) : IsTrimmed characters (trim characters) where
  around := by
    refine ⟨characters.takeWhile isBlank, (characters.dropWhile isBlank).rtakeWhile isBlank, ?_,
      fun _ => List.mem_takeWhile_imp, fun _ => List.mem_rtakeWhile_imp⟩
    rw [trim_eq, List.append_assoc, List.rdropWhile_append_rtakeWhile,
      List.takeWhile_append_dropWhile]
  opens := by
    intro character first
    obtain ⟨back, whole⟩ := List.rdropWhile_prefix isBlank (characters.dropWhile isBlank)
    have found : (characters.dropWhile isBlank).head? = some character := by
      rw [← whole, List.head?_append, ← trim_eq, first, Option.some_or]
    have notBlank := List.head?_dropWhile_not isBlank characters
    rwa [found] at notBlank
  ends := by
    intro character last
    obtain ⟨nonempty, rfl⟩ := List.mem_getLast?_eq_getLast last
    exact eq_false_of_ne_true (List.rdropWhile_last_not _ _ nonempty)

/-- Further blanks behind a text are dropped with those that it has. -/
theorem rdropWhile_append_blanks {back : List Char} (blank : ∀ character ∈ back, isBlank character) :
    (kept ++ back).rdropWhile isBlank = kept.rdropWhile isBlank := by
  have dropped : ∀ character ∈ back.reverse, isBlank character :=
    fun character member => blank character (List.mem_reverse.mp member)
  rw [List.rdropWhile, List.reverse_append, List.dropWhile_append_of_pos dropped, List.rdropWhile]

/-- What is left does not depend on how the blanks around it are found. -/
theorem IsTrimmed.trim_eq (trimmed : IsTrimmed characters kept) : trim characters = kept := by
  obtain ⟨front, back, rfl, blankFront, blankBack⟩ := trimmed.around
  rw [Text.trim_eq, List.append_assoc, List.dropWhile_append_of_pos blankFront]
  cases kept with
  | nil => rw [List.nil_append, List.dropWhile_eq_nil_iff.mpr blankBack, List.rdropWhile_nil]
  | cons first rest =>
    have solid : ¬ isBlank first := ne_true_of_eq_false (trimmed.opens first rfl)
    rw [List.cons_append, List.dropWhile_cons_of_neg solid, ← List.cons_append,
      rdropWhile_append_blanks blankBack, List.rdropWhile_eq_self_iff]
    intro nonempty
    exact ne_true_of_eq_false (trimmed.ends _ (List.getLast?_eq_getLast_of_ne_nil nonempty))

/-- Trimming gives the one part that is without blanks at its ends and has only blanks around it. -/
theorem trim_eq_iff : trim characters = kept ↔ IsTrimmed characters kept :=
  ⟨fun equal => equal ▸ isTrimmed_trim characters, IsTrimmed.trim_eq⟩

end Text

namespace Position

variable {characters digits : List Char} {count : UInt64} {text : String} {position : Position}

/-! ## Counts -/

/-- Decimal digits of a value. -/
structure IsDigits (digits : List Char) (count : UInt64) : Prop where
  nonempty : digits ≠ []
  decimal : ∀ digit ∈ digits, digit.isDigit
  value : Nat.ofDigitChars 10 digits 0 = count.toNat

/-- How a count is written: in decimal digits, before which a plus sign may stand. -/
inductive IsCount : List Char → UInt64 → Prop where
  | unsigned {digits : List Char} {count : UInt64} (isDigits : IsDigits digits count) :
      IsCount digits count
  | signed {digits : List Char} {count : UInt64} (isDigits : IsDigits digits count) :
      IsCount ('+' :: digits) count

/-- The value of digits is the one that they have in base ten. -/
theorem valueOfDigits_eq (digits : List Char) :
    valueOfDigits digits = Nat.ofDigitChars 10 digits 0 := by
  simp only [valueOfDigits, Nat.ofDigitChars, Nat.mul_comm]

/-- Digits are read as their value if 64 bits hold it. -/
theorem readDigits?_eq_some_iff : readDigits? digits = some count ↔ IsDigits digits count := by
  have refused : (digits = [] || digits.any fun digit => !digit.isDigit) = true ↔
      ¬ (digits ≠ [] ∧ ∀ digit ∈ digits, digit.isDigit) := by
    rw [not_and_or]
    simp
  rw [readDigits?, valueOfDigits_eq]
  constructor
  · intro found
    split at found
    · cases found
    · next accepted =>
      obtain ⟨nonempty, decimal⟩ := not_not.mp (refused.not.mp accepted)
      split at found
      · next small =>
        obtain rfl := Option.some.inj found
        exact ⟨nonempty, decimal, (UInt64.toNat_ofNat_of_lt small).symm⟩
      · cases found
  · rintro ⟨nonempty, decimal, value⟩
    rw [if_neg (refused.not.mpr (not_not.mpr ⟨nonempty, decimal⟩)), value,
      if_pos count.toNat_lt_size, UInt64.ofNat_toNat]

/-- A sign is not a digit, so a sign that is written is the one that is taken. -/
theorem readCount?_eq_some_iff : readCount? characters = some count ↔ IsCount characters count := by
  rw [readCount?.eq_def]
  split
  · next digits =>
    rw [readDigits?_eq_some_iff]
    refine ⟨.signed, fun isCount => ?_⟩
    cases isCount with
    | signed isDigits => exact isDigits
    | unsigned isDigits => exact absurd (isDigits.decimal '+' List.mem_cons_self) (by decide)
  · next unsigned =>
    rw [readDigits?_eq_some_iff]
    refine ⟨.unsigned, fun isCount => ?_⟩
    cases isCount with
    | signed isDigits => exact absurd rfl (unsigned _)
    | unsigned isDigits => exact isDigits

/-- A count is written without colons and blanks. -/
theorem IsCount.solid (isCount : IsCount characters count) :
    ∀ character ∈ characters, character ≠ ':' ∧ Text.isBlank character = false := by
  have ofDigit {digit : Char} (decimal : digit.isDigit) :
      digit ≠ ':' ∧ Text.isBlank digit = false := by
    have bounds : 48 ≤ digit.toNat ∧ digit.toNat ≤ 57 := by
      simpa [Char.isDigit, UInt32.le_iff_toNat_le] using decimal
    refine ⟨fun isColon => ?_, ?_⟩
    · subst isColon
      exact absurd bounds (by decide)
    · simp only [Text.isBlank, Bool.or_eq_false_iff, Bool.and_eq_false_iff, decide_eq_false_iff_not]
      omega
  cases isCount with
  | unsigned isDigits => exact fun digit member => ofDigit (isDigits.decimal digit member)
  | signed isDigits =>
    refine List.forall_mem_cons.mpr ⟨by decide, ?_⟩
    exact fun digit member => ofDigit (isDigits.decimal digit member)

/-- A count is not written as nothing. -/
theorem IsCount.nonempty (isCount : IsCount characters count) : characters ≠ [] := by
  cases isCount with
  | unsigned isDigits => exact isDigits.nonempty
  | signed _ => exact List.cons_ne_nil _ _

/-- A count is displayed in digits of its value. -/
theorem isCount_toDigits (count : UInt64) : IsCount (Nat.toDigits 10 count.toNat) count :=
  .unsigned
    { nonempty := Nat.toDigits_ne_nil
      decimal := fun _ => Nat.isDigit_of_mem_toDigits (by decide) (by decide)
      value := Nat.ofDigitChars_toDigits (by decide) (by decide) }

/-! ## Positions -/

/-- How a position is written: as the counts of its line and its column, with a colon between
them and blanks around the whole. -/
def IsWritten (text : String) (position : Position) : Prop :=
  ∃ line column, Text.IsTrimmed text.toList (line ++ ':' :: column) ∧
    IsCount line position.line ∧ IsCount column position.column

/-- A text is parsed as a position exactly if it is one way to write it. -/
theorem parse?_eq_some_iff : parse? text = some position ↔ IsWritten text position := by
  rw [parse?]
  constructor
  · intro found
    split at found
    · cases found
    · next separator columnText behind =>
      have separates := List.head?_dropWhile_not (· ≠ ':') (Text.trim text.toList)
      rw [behind] at separates
      obtain rfl : separator = ':' := by simpa using separates
      obtain ⟨line, lineRead, found⟩ := Option.bind_eq_some_iff.mp found
      obtain ⟨column, columnRead, found⟩ := Option.bind_eq_some_iff.mp found
      obtain rfl := Option.some.inj found
      refine ⟨_, columnText, Text.trim_eq_iff.mp ?_, readCount?_eq_some_iff.mp lineRead,
        readCount?_eq_some_iff.mp columnRead⟩
      rw [← behind, List.takeWhile_append_dropWhile]
  · rintro ⟨line, column, trimmed, lineCounts, columnCounts⟩
    have before : ∀ character ∈ line, decide (character ≠ ':') := fun character member =>
      decide_eq_true (lineCounts.solid character member).1
    rw [trimmed.trim_eq, List.dropWhile_append_of_pos before, List.takeWhile_append_of_pos before]
    simp [readCount?_eq_some_iff.mpr lineCounts, readCount?_eq_some_iff.mpr columnCounts]

/-- A position is displayed without blanks around it. -/
theorem isWritten_display (position : Position) : IsWritten position.display position := by
  have line := isCount_toDigits position.line
  have column := isCount_toDigits position.column
  refine ⟨_, _, ?_, line, column⟩
  refine ⟨⟨[], [], ?_, List.forall_mem_nil _, List.forall_mem_nil _⟩, ?_, ?_⟩
  · simp [display]
  · intro character first
    rw [List.head?_append_of_ne_nil _ line.nonempty] at first
    exact (line.solid character (List.mem_of_mem_head? first)).2
  · intro character last
    rw [List.getLast?_append_of_ne_nil _ (List.cons_ne_nil _ _),
      List.getLast?_cons_of_ne_nil column.nonempty] at last
    exact (column.solid character (List.mem_of_mem_getLast? last)).2

/-- A text is read as the position that it is written as, any other is refused as it stands, and
what is displayed is read back. -/
theorem ofText_reads_written :
    (∀ text position, ofText text = .ok position ↔ IsWritten text position) ∧
      (∀ text cause, ofText text = .error cause ↔
        cause = .positionUnreadable text ∧ ∀ position, ¬ IsWritten text position) ∧
      ∀ position : Position, ofText position.display = .ok position := by
  have reads (text : String) (position : Position) :
      ofText text = .ok position ↔ IsWritten text position := by
    rw [← parse?_eq_some_iff, ofText]
    cases parse? text <;> simp
  refine ⟨reads, fun text cause => ⟨fun refused => ?_, ?_⟩, fun position => ?_⟩
  · refine ⟨?_, fun position written => ?_⟩
    · rw [ofText] at refused
      split at refused
      · cases refused
      · exact (Except.error.inj refused).symm
    · rw [(reads text position).mpr written] at refused
      cases refused
  · rintro ⟨rfl, unwritten⟩
    have unread : parse? text = none :=
      Option.eq_none_iff_forall_ne_some.mpr fun position found =>
        unwritten position (parse?_eq_some_iff.mp found)
    rw [ofText, unread]
  · exact (reads position.display position).mpr (isWritten_display position)

/-- Signs, zeros in front and blanks do not change a position, and a line past the last one is
refused. -/
example :
    ofText "\n+007:18446744073709551615\u00a0" = .ok ⟨7, 18446744073709551615⟩ ∧
      ofText "18446744073709551616:0" = .error (.positionUnreadable "18446744073709551616:0") := by
  decide +kernel

end Position

end ElmWorkbench
