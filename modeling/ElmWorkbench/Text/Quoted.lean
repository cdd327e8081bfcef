import ElmWorkbench.Text.Invisible
import ElmWorkbench.Text.Utf8
/-!
# Quoted texts

A text between double quotes, as messages show it. Quotes and backslashes are
written after a backslash, a few controls by a letter, and every other invisible
character by its number. A byte string is shown the same way, with apostrophes
escaped too and with every damaged byte by its value.
-/

namespace ElmWorkbench

namespace Text

/-- The number of a character between braces, in hexadecimal digits. -/
def numbered (character : Char) : List Char :=
  ['\\', 'u', '\x7b'] ++ Nat.toDigits 16 character.toNat ++ ['\x7d']

/-- A character as it stands in a quoted text. -/
def escaped (character : Char) : List Char :=
  match character with
  | '\x00' => ['\\', '0']
  | '\t' => ['\\', 't']
  | '\n' => ['\\', 'n']
  | '\r' => ['\\', 'r']
  | '"' => ['\\', '"']
  | '\\' => ['\\', '\\']
  | _ => if isInvisible character then numbered character else [character]

/-- A text between double quotes. -/
def quoted (text : String) : String :=
  String.ofList ('"' :: text.toList.flatMap escaped ++ ['"'])

/-- A byte as two capital hexadecimal digits. -/
def escapedByte (byte : UInt8) : List Char :=
  let digit := fun (value : Nat) => ((Nat.toDigits 16 value).map Char.toUpper)
  ['\\', 'x'] ++ digit (byte.toNat / 16) ++ digit (byte.toNat % 16)

/-- A piece of a byte string as it stands in a quoted one. -/
def escapedPiece : Utf8.Piece → List Char
  | .character value => if value = '\x27' then ['\\', '\x27'] else escaped value
  | .damaged bytes => bytes.flatMap escapedByte

/-- A byte string between double quotes. -/
def quotedBytes (bytes : Bytes) : String :=
  String.ofList ('"' :: (Utf8.pieces bytes).flatMap escapedPiece ++ ['"'])

end Text

end ElmWorkbench
