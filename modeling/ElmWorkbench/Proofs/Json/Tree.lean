import ElmWorkbench.Proofs.Json.Spacing
/-!
# Trees of values

A tree tells how a value is written, whatever it means: numbers may have any size, texts any escape
sequences and brackets any depth. `Tree.Spells` tells the texts of a tree, which has blanks between
its tokens. What is written between quotation marks does not always stand for a text
(`Quotation.text?`): the halves of surrogate pairs may stand alone.
-/

namespace ElmWorkbench.Json

/-! ## Texts -/

instance : DecidablePred IsPlain := fun byte =>
  decidable_of_iff (0x20 ≤ byte ∧ byte ≠ quote ∧ byte ≠ escapeMark)
    ⟨fun ⟨notControl, notQuote, notMark⟩ => ⟨notControl, notQuote, notMark⟩,
      fun plain => ⟨plain.notControl, plain.notQuote, plain.notMark⟩⟩

/-- A part of a text between quotation marks. -/
inductive Piece where
  /-- A byte that stands for itself. -/
  | plain (byte : UInt8) (itself : IsPlain byte)
  | escape (letter meant : UInt8) (known : byteOfEscape? letter = some meant)
  | code (first second third fourth : UInt8) (number : Nat)
      (known : hexValue? [first, second, third, fourth] = some number)

/-- The bytes that a piece is written with. -/
def Piece.bytes : Piece → Bytes
  | .plain byte _ => [byte]
  | .escape letter _ _ => [escapeMark, letter]
  | .code first second third fourth _ _ => [escapeMark, 0x75, first, second, third, fourth]

/-- A number for the first half of a surrogate pair. -/
def isLeading (number : Nat) : Bool :=
  0xD800 ≤ number && number ≤ 0xDBFF

/-- A number for the second half of a surrogate pair. -/
def isTrailing (number : Nat) : Bool :=
  0xDC00 ≤ number && number ≤ 0xDFFF

/-- The character that a surrogate pair stands for. -/
def pairedCharacter (leading trailing : Nat) : Char :=
  Char.ofNat (0x10000 + (leading - 0xD800) * 0x400 + (trailing - 0xDC00))

/-- The bytes that pieces stand for behind the first half of a surrogate pair, or without one. No
half of a pair stands for anything alone. -/
def unescape? : Option Nat → List Piece → Option Bytes
  | none, [] => some []
  | none, .plain byte _ :: more => (unescape? none more).map (byte :: ·)
  | none, .escape _ meant _ :: more => (unescape? none more).map (meant :: ·)
  | none, .code _ _ _ _ number _ :: more =>
    if isLeading number then unescape? (some number) more
    else if isTrailing number then none
    else (unescape? none more).map (String.utf8EncodeChar (Char.ofNat number) ++ ·)
  | some leading, .code _ _ _ _ number _ :: more =>
    if isTrailing number then
      (unescape? none more).map (String.utf8EncodeChar (pairedCharacter leading number) ++ ·)
    else none
  | some _, _ => none

/-- What stands in quotation marks. -/
structure Quotation where
  pieces : List Piece

namespace Quotation

/-- The bytes between the quotation marks. -/
def inside (quotation : Quotation) : Bytes :=
  quotation.pieces.flatMap Piece.bytes

/-- The bytes with the quotation marks. -/
def bytes (quotation : Quotation) : Bytes :=
  quote :: quotation.inside ++ [quote]

/-- The text that a quotation stands for. -/
def text? (quotation : Quotation) : Option String :=
  (unescape? none quotation.pieces).bind Utf8.decode?

/-- Two keys that do not stand for the same text. -/
def IsApart (key other : Quotation) : Prop :=
  ∀ name, key.text? = some name → other.text? ≠ some name

end Quotation

/-! ## Numbers -/

/-- Digits, at least one. -/
structure Digits where
  bytes : Bytes
  filled : bytes ≠ []
  each : ∀ byte ∈ bytes, isDigit byte

/-- An exponent with its letter. -/
structure Exponent where
  letter : UInt8
  sign : Bytes
  digits : Digits
  isLetter : letter = 0x65 ∨ letter = 0x45
  isSign : sign = [] ∨ sign = [0x2B] ∨ sign = [0x2D]

/-- A number as it is written. -/
structure Numeral where
  isNegative : Bool
  whole : Digits
  fraction : Option Digits
  exponent : Option Exponent
  /-- No needless zero stands in front. -/
  proper : whole.bytes.head? = some 0x30 → whole.bytes.length = 1

/-- A fraction with its point. -/
def fractionBytes (fraction : Option Digits) : Bytes :=
  fraction.elim [] fun digits => 0x2E :: digits.bytes

def exponentBytes (exponent : Option Exponent) : Bytes :=
  exponent.elim [] fun exponent => exponent.letter :: exponent.sign ++ exponent.digits.bytes

namespace Numeral

/-- The bytes of a number without its sign. -/
def unsigned (numeral : Numeral) : Bytes :=
  numeral.whole.bytes ++ (fractionBytes numeral.fraction ++ exponentBytes numeral.exponent)

/-- The bytes of a number. -/
def bytes (numeral : Numeral) : Bytes :=
  if numeral.isNegative then 0x2D :: numeral.unsigned else numeral.unsigned

end Numeral

/-! ## Trees -/

/-- How a value is written. -/
inductive Tree where
  | null
  | boolean (value : Bool)
  | number (numeral : Numeral)
  | text (quotation : Quotation)
  | list (elements : List Tree)
  | object (entries : List (Quotation × Tree))

namespace Tree

mutual

/-- The tokens of a tree. -/
def tokens : Tree → List Bytes
  | .null => [[0x6E, 0x75, 0x6C, 0x6C]]
  | .boolean true => [[0x74, 0x72, 0x75, 0x65]]
  | .boolean false => [[0x66, 0x61, 0x6C, 0x73, 0x65]]
  | .number numeral => [numeral.bytes]
  | .text quotation => [quotation.bytes]
  | .list elements => [0x5B] :: elementTokens true elements ++ [[0x5D]]
  | .object entries => [0x7B] :: entryTokens true entries ++ [[0x7D]]

/-- The tokens of the elements of a list, of which the first may have no other before it. -/
def elementTokens (first : Bool) : List Tree → List Bytes
  | [] => []
  | element :: others => separator first ++ element.tokens ++ elementTokens false others

/-- The tokens of the entries of an object, of which the first may have no other before it. -/
def entryTokens (first : Bool) : List (Quotation × Tree) → List Bytes
  | [] => []
  | (key, value) :: others =>
    separator first ++ (key.bytes :: [0x3A] :: value.tokens ++ entryTokens false others)

end

/-- The tokens of elements are those of each with commas between them. -/
theorem elementTokens_eq (first : Bool) (elements : List Tree) :
    elementTokens first elements = commaTokens first (elements.map tokens) := by
  induction elements generalizing first with
  | nil => rfl
  | cons element others inductionHypothesis =>
    rw [elementTokens, inductionHypothesis, List.append_assoc]
    rfl

/-- What an entry is written with. -/
def pair (entry : Quotation × Tree) : Bytes × List Bytes :=
  (entry.1.bytes, entry.2.tokens)

/-- The tokens of entries are those of each pair with commas between them. -/
theorem entryTokens_eq (first : Bool) (entries : List (Quotation × Tree)) :
    entryTokens first entries = commaTokens first ((entries.map pair).map pairTokens) := by
  induction entries generalizing first with
  | nil => rfl
  | cons entry others inductionHypothesis =>
    rw [entryTokens, inductionHypothesis]
    rfl

/-- A text of a tree, with blanks around its tokens. -/
def Spells (tree : Tree) (bytes : Bytes) : Prop :=
  ∃ text gap, Spaced tree.tokens text ∧ IsBlank gap ∧ bytes = text ++ gap

/-- A tree without brackets. -/
def IsSingle : Tree → Prop
  | .list _ => False
  | .object _ => False
  | _ => True

/-- The text that a tree is, if it is one. -/
def text? : Tree → Option String
  | .text quotation => quotation.text?
  | _ => none

/-- No object in a tree has a key twice. -/
inductive IsDistinct : Tree → Prop where
  | single {tree : Tree} (single : tree.IsSingle) : IsDistinct tree
  | list {elements : List Tree} (each : ∀ element ∈ elements, IsDistinct element) :
      IsDistinct (.list elements)
  | object {entries : List (Quotation × Tree)}
      (once : (entries.map Prod.fst).Pairwise Quotation.IsApart)
      (each : ∀ entry ∈ entries, IsDistinct entry.2) : IsDistinct (.object entries)

/-- The same tree, but for the order in which the entries of its objects stand. -/
inductive Rearranged : Tree → Tree → Prop where
  | single {tree : Tree} (single : tree.IsSingle) : Rearranged tree tree
  | list {elements varied : List Tree} (same : elements.length = varied.length)
      (each : ∀ {first second : Tree}, (first, second) ∈ elements.zip varied →
        Rearranged first second) : Rearranged (.list elements) (.list varied)
  | object {entries varied arranged : List (Quotation × Tree)}
      (keys : entries.map Prod.fst = varied.map Prod.fst)
      (each : ∀ {first second : Quotation × Tree}, (first, second) ∈ entries.zip varied →
        Rearranged first.2 second.2)
      (order : varied.Perm arranged) : Rearranged (.object entries) (.object arranged)

/-- An object whose values vary and whose entries stand in another order, where further entries
stand among them, under texts that are not `known`. -/
inductive Extended (known : List String) (varies : Quotation → Tree → Tree → Prop) :
    Tree → Tree → Prop where
  | object {entries varied further arranged : List (Quotation × Tree)}
      (keys : entries.map Prod.fst = varied.map Prod.fst)
      (each : ∀ {first second : Quotation × Tree}, (first, second) ∈ entries.zip varied →
        varies first.1 first.2 second.2)
      (strange : ∀ entry ∈ further, ∃ name, entry.1.text? = some name ∧ name ∉ known)
      (order : (varied ++ further).Perm arranged) :
      Extended known varies (.object entries) (.object arranged)

end Tree

end ElmWorkbench.Json
