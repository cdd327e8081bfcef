import ElmWorkbench.Json.Token
import ElmWorkbench.Proofs.Json.Reading
import ElmWorkbench.Proofs.Text.Utf8
import Mathlib.Tactic.IntervalCases
/-!
# Quoted texts are read back

A text between quotation marks is read back as itself, whatever characters it holds
(`Reader.reads_quotation`), and no control character is left in what is written
(`isClean_writeText`).
-/

namespace ElmWorkbench.Json

/-! ## Written characters -/

/-- A character that is escaped by a letter is written with two bytes, the second of which
stands for it. -/
theorem exists_of_letterOfEscape? {character letter : Char}
    (escaped : letterOfEscape? character = some letter) :
    ∃ byte meant, Utf8.encodeChars ['\\', letter] = [escapeMark, byte] ∧
      byteOfEscape? byte = some meant ∧ String.utf8EncodeChar character = [meant] ∧
      0x20 ≤ letter.toNat := by
  unfold letterOfEscape? at escaped
  split at escaped <;> cases escaped <;> exact ⟨_, _, rfl, rfl, rfl, by decide⟩

/-- A hexadecimal digit is written with one byte that is read as its value. -/
theorem exists_of_digit (digit : Nat) (small : digit < 16) :
    ∃ byte, String.utf8EncodeChar (Nat.digitChar digit) = [byte] ∧ hexDigit? byte = some digit ∧
      0x20 ≤ (Nat.digitChar digit).toNat := by
  interval_cases digit <;> exact ⟨_, rfl, rfl, by decide⟩

/-- The code of a control character is written with four digits that mean it. -/
theorem exists_of_control {number : Nat} (control : number < 0x20) :
    ∃ high low, Utf8.encodeChars ['\\', 'u', '0', '0', Nat.digitChar (number / 16),
        Nat.digitChar (number % 16)] = [escapeMark, 0x75, 0x30, 0x30, high, low] ∧
      hexValue? [0x30, 0x30, high, low] = some number := by
  obtain ⟨high, highWritten, highRead, -⟩ := exists_of_digit (number / 16) (by omega)
  obtain ⟨low, lowWritten, lowRead, -⟩ := exists_of_digit (number % 16) (by omega)
  have zero : hexDigit? 0x30 = some 0 := rfl
  refine ⟨high, low, ?_, ?_⟩
  · simp only [Utf8.encodeChars, List.flatMap_cons, highWritten, lowWritten]
    rfl
  · simp [hexValue?, zero, highRead, lowRead]
    omega

/-- Bytes that stand for themselves inside a text. -/
structure IsPlain (byte : UInt8) : Prop where
  notControl : 0x20 ≤ byte
  notQuote : byte ≠ quote
  notMark : byte ≠ escapeMark

/-- The bytes of a character that is not escaped stand for themselves. -/
theorem isPlain_of_mem_encodeChar {character : Char}
    (unescaped : letterOfEscape? character = none) (solid : 0x20 ≤ character.toNat) {byte : UInt8}
    (written : byte ∈ String.utf8EncodeChar character) : IsPlain byte := by
  have itself (ascii : byte < 0x80) : character = Char.ofNat byte.toNat :=
    (Utf8.mem_encodeChar_iff ascii).mp written
  refine ⟨?_, ?_, ?_⟩
  · rw [← UInt8.not_lt]
    intro control
    have small : byte.toNat < 0x20 := control
    have ascii : byte < 0x80 := UInt8.lt_trans control (by decide)
    rw [itself ascii, Char.toNat, Utf8.toNat_ofNat _ (by simp only [Nat.isValidChar]; omega)] at solid
    omega
  · rintro rfl
    rw [itself (by decide)] at unescaped
    cases unescaped
  · rintro rfl
    rw [itself (by decide)] at unescaped
    cases unescaped

/-! ## Reading inside a text -/

section Inside

variable {decoded before rest : Bytes}

/-- Bytes that stand for themselves are read as they are. -/
theorem readTextFrom_plain {bytes : Bytes} (plain : ∀ byte ∈ bytes, IsPlain byte)
    (decoded before rest : Bytes) :
    readTextFrom .plain decoded before (bytes ++ rest) =
      readTextFrom .plain (bytes.reverse ++ decoded) (bytes.reverse ++ before) rest := by
  induction bytes generalizing decoded before with
  | nil => rfl
  | cons byte others inductionHypothesis =>
    obtain ⟨notControl, notQuote, notMark⟩ := plain byte List.mem_cons_self
    have read : TextState.read .plain byte = .ok ([byte], .plain) := by
      rw [TextState.read, if_neg notMark, if_neg (UInt8.not_lt.mpr notControl)]
    rw [List.cons_append, readTextFrom, if_neg (by simp [notQuote]), read]
    simp only [List.reverse_singleton, List.singleton_append]
    rw [inductionHypothesis fun byte member => plain byte (List.mem_cons_of_mem _ member)]
    simp

/-- An escape of one letter is read as what the letter means. -/
theorem readTextFrom_letter {letter meant : UInt8} (known : byteOfEscape? letter = some meant) :
    readTextFrom .plain decoded before (escapeMark :: letter :: rest) =
      readTextFrom .plain (meant :: decoded) (letter :: escapeMark :: before) rest := by
  have notCode : letter ≠ 0x75 := by
    rintro rfl
    cases known
  have notQuote : escapeMark ≠ quote := by decide
  simp [readTextFrom, TextState.read, notCode, notQuote, known]

/-- An escape with a code is read as the character of the code. -/
theorem readTextFrom_code {high low : UInt8} {number : Nat} (small : number < 0x20)
    (read : hexValue? [0x30, 0x30, high, low] = some number) :
    readTextFrom .plain decoded before
        ([escapeMark, 0x75, 0x30, 0x30, high, low] ++ rest) =
      readTextFrom .plain ((Utf8.encodeChars [Char.ofNat number]).reverse ++ decoded)
        ([escapeMark, 0x75, 0x30, 0x30, high, low].reverse ++ before) rest := by
  have code : readCode none number = .ok (Utf8.encodeChars [Char.ofNat number], .plain) := by
    rw [readCode, if_neg (by simp; omega), if_neg (by simp; omega)]
  have notQuote : escapeMark ≠ quote := by decide
  simp [readTextFrom, TextState.read, read, code, notQuote]

/-- A written character is read as the bytes that it is encoded with. -/
theorem readTextFrom_writeCharacter (character : Char) (decoded before rest : Bytes) :
    readTextFrom .plain decoded before (Utf8.encodeChars (writeCharacter character) ++ rest) =
      readTextFrom .plain ((String.utf8EncodeChar character).reverse ++ decoded)
        ((Utf8.encodeChars (writeCharacter character)).reverse ++ before) rest := by
  rw [writeCharacter]
  cases escaped : letterOfEscape? character with
  | some letter =>
    obtain ⟨byte, meant, written, known, itself, -⟩ := exists_of_letterOfEscape? escaped
    simp only [written, itself]
    exact readTextFrom_letter known
  | none =>
    by_cases control : character.toNat < 0x20
    · obtain ⟨high, low, written, read⟩ := exists_of_control control
      simp only [if_pos control, written]
      rw [readTextFrom_code control read, Char.ofNat_toNat, Utf8.encodeChars,
        List.flatMap_singleton]
    · simp only [if_neg control, Utf8.encodeChars, List.flatMap_singleton]
      exact readTextFrom_plain
        (fun byte => isPlain_of_mem_encodeChar escaped (Nat.not_lt.mp control)) _ _ _

/-- Written characters are read as the bytes that they are encoded with. -/
theorem readTextFrom_written (characters : List Char) (decoded before rest : Bytes) :
    readTextFrom .plain decoded before
        (Utf8.encodeChars (characters.flatMap writeCharacter) ++ rest) =
      readTextFrom .plain ((Utf8.encodeChars characters).reverse ++ decoded)
        ((Utf8.encodeChars (characters.flatMap writeCharacter)).reverse ++ before) rest := by
  induction characters generalizing decoded before with
  | nil => rfl
  | cons character others inductionHypothesis =>
    rw [List.flatMap_cons, Utf8.encodeChars_append, List.append_assoc,
      readTextFrom_writeCharacter, inductionHypothesis, Utf8.encodeChars_cons]
    simp

end Inside

namespace Reader

variable {rest : Bytes}

/-- A text is written between quotes, character by character. -/
theorem encodeChars_writeText (text : String) :
    Utf8.encodeChars (writeText text) =
      quote :: Utf8.encodeChars (text.toList.flatMap writeCharacter) ++ [quote] := by
  rw [writeText, Utf8.encodeChars_append, Utf8.encodeChars_cons]
  rfl

/-- A quoted text is read back as the text that was written. -/
theorem reads_quotation (text : String) (rest : Bytes) :
    quotation.Reads (Utf8.encodeChars (writeText text)) text rest := by
  intro before
  rw [encodeChars_writeText, quotation]
  simp only [List.cons_append, Cursor.advance, List.append_assoc]
  rw [readTextFrom_written, readTextFrom, if_pos (by simp)]
  rw [textOfDecoded, List.append_nil, List.reverse_reverse, ← Utf8.encode, Utf8.decode?_encode]
  simp

end Reader

/-! ## No control characters -/

/-- A text without control characters, which so holds no line end. -/
def IsClean (text : List Char) : Prop :=
  ∀ character ∈ text, 0x20 ≤ character.toNat

instance (text : List Char) : Decidable (IsClean text) :=
  List.decidableBAll (fun character : Char => 0x20 ≤ character.toNat) text

/-- No characters are clean. -/
theorem isClean_nil : IsClean [] :=
  fun _ member => absurd member List.not_mem_nil

/-- Characters are clean if both parts of them are. -/
theorem IsClean.append {first second : List Char} (clean : IsClean first)
    (cleanSecond : IsClean second) : IsClean (first ++ second) :=
  List.forall_mem_append.mpr ⟨clean, cleanSecond⟩

/-- A character that is no control is clean before clean ones. -/
theorem IsClean.cons {first : Char} {rest : List Char} (solid : 0x20 ≤ first.toNat)
    (clean : IsClean rest) : IsClean (first :: rest) :=
  List.forall_mem_cons.mpr ⟨solid, clean⟩

/-- Every character is written in clean ones. -/
theorem isClean_writeCharacter (character : Char) : IsClean (writeCharacter character) := by
  rw [writeCharacter]
  cases escaped : letterOfEscape? character with
  | some letter =>
    obtain ⟨-, -, -, -, -, solid⟩ := exists_of_letterOfEscape? escaped
    exact .cons (by decide) (.cons solid isClean_nil)
  | none =>
    by_cases control : character.toNat < 0x20
    · obtain ⟨-, -, -, highSolid⟩ := exists_of_digit (character.toNat / 16) (by omega)
      obtain ⟨-, -, -, lowSolid⟩ := exists_of_digit (character.toNat % 16) (by omega)
      simp only [if_pos control]
      have digits := (isClean_nil.cons lowSolid).cons highSolid
      exact (((digits.cons (by decide)).cons (by decide)).cons (by decide)).cons (by decide)
    · simp only [if_neg control]
      exact .cons (Nat.not_lt.mp control) isClean_nil

/-- A written text holds no control character, whatever the text holds. -/
theorem isClean_writeText (text : String) : IsClean (writeText text) := by
  have inside : IsClean (text.toList.flatMap writeCharacter) := by
    intro written member
    obtain ⟨character, -, member⟩ := List.mem_flatMap.mp member
    exact isClean_writeCharacter character written member
  exact (inside.cons (by decide)).append (isClean_nil.cons (by decide))

end ElmWorkbench.Json
