import ElmWorkbench.Json.Cursor
/-!
# Quoted texts in messages

How a text is written between quotation marks, and how it is read back. Reading
goes byte by byte through the states of an escape sequence. A text that is used
must be Unicode: surrogates come in pairs and the decoded bytes are UTF-8. A text
that is skipped only has to be closed and to hold known escapes.
-/

namespace ElmWorkbench.Json

/-- The byte that opens and closes a text. -/
def quote : UInt8 := 0x22

/-- The byte that opens an escape sequence. -/
def escapeMark : UInt8 := 0x5C

/-- The letter of a character that is escaped by a letter. -/
def letterOfEscape? : Char → Option Char
  | '"' => some '"'
  | '\\' => some '\\'
  | '\x08' => some 'b'
  | '\x0c' => some 'f'
  | '\n' => some 'n'
  | '\r' => some 'r'
  | '\t' => some 't'
  | _ => none

/-- A character as it is written inside a text. -/
def writeCharacter (character : Char) : List Char :=
  match letterOfEscape? character with
  | some letter => ['\\', letter]
  | none =>
    if character.toNat < 0x20 then
      ['\\', 'u', '0', '0', Nat.digitChar (character.toNat / 16),
        Nat.digitChar (character.toNat % 16)]
    else [character]

/-- Write a text between quotation marks. -/
def writeText (text : String) : List Char :=
  '"' :: text.toList.flatMap writeCharacter ++ ['"']

/-- The byte that an escape by a letter stands for. -/
def byteOfEscape? (letter : UInt8) : Option UInt8 :=
  if letter = 0x22 || letter = 0x5C || letter = 0x2F then some letter
  else if letter = 0x62 then some 0x08
  else if letter = 0x66 then some 0x0C
  else if letter = 0x6E then some 0x0A
  else if letter = 0x72 then some 0x0D
  else if letter = 0x74 then some 0x09
  else none

/-- The value of a hexadecimal digit. -/
def hexDigit? (byte : UInt8) : Option Nat :=
  if 0x30 ≤ byte && byte ≤ 0x39 then some (byte.toNat - 0x30)
  else if 0x41 ≤ byte && byte ≤ 0x46 then some (byte.toNat - 0x41 + 10)
  else if 0x61 ≤ byte && byte ≤ 0x66 then some (byte.toNat - 0x61 + 10)
  else none

/-- The value of hexadecimal digits, the most significant first. -/
def hexValue? (digits : Bytes) : Option Nat :=
  digits.foldlM (fun value digit => (hexDigit? digit).map (value * 16 + ·)) 0

/-- Where reading stands between two bytes of a text that is used. -/
inductive TextState where
  | plain
  /-- After the mark of an escape sequence. -/
  | escape
  /-- After the mark and `u`, with the digits read so far, and the first half of a
  surrogate pair if one has been read. -/
  | digits (read : Bytes) (leading : Option Nat)
  /-- After the first half of a surrogate pair. -/
  | pairMark (leading : Nat)
  /-- After the first half of a surrogate pair and the mark of an escape sequence. -/
  | pairLetter (leading : Nat)
  deriving DecidableEq, Repr

/-- What a number written in hexadecimal digits means. -/
def readCode (leading : Option Nat) (code : Nat) : Except Fault (Bytes × TextState) :=
  match leading with
  | none =>
    if 0xDC00 ≤ code && code ≤ 0xDFFF then .error .surrogateUnpaired
    else if 0xD800 ≤ code && code ≤ 0xDBFF then .ok ([], .pairMark code)
    else .ok (Utf8.encodeChars [Char.ofNat code], .plain)
  | some first =>
    if 0xDC00 ≤ code && code ≤ 0xDFFF then
      .ok (Utf8.encodeChars
        [Char.ofNat (0x10000 + (first - 0xD800) * 0x400 + (code - 0xDC00))], .plain)
    else .error .surrogateUnpaired

/-- Read one byte inside a text that is used: the bytes it completes and the next
state. -/
def TextState.read (state : TextState) (byte : UInt8) : Except Fault (Bytes × TextState) :=
  match state with
  | .plain =>
    if byte = escapeMark then .ok ([], .escape)
    else if byte < 0x20 then .error .controlCharacter
    else .ok ([byte], .plain)
  | .escape =>
    if byte = 0x75 then .ok ([], .digits [] none)
    else match byteOfEscape? byte with
      | some meant => .ok ([meant], .plain)
      | none => .error .escapeUnknown
  | .digits read leading =>
    if read.length < 3 then .ok ([], .digits (read ++ [byte]) leading)
    else match hexValue? (read ++ [byte]) with
      | some code => readCode leading code
      | none => .error .escapeUnknown
  | .pairMark leading =>
    if byte = escapeMark then .ok ([], .pairLetter leading) else .error .surrogateCutShort
  | .pairLetter leading =>
    if byte = 0x75 then .ok ([], .digits [] (some leading)) else .error .surrogateCutShort

/-- The text of decoded bytes. Damage is told by counting back from the end of the
text. -/
def textOfDecoded (decoded : Bytes) (after : Cursor) : Except Problem (String × Cursor) :=
  match Utf8.decode? decoded with
  | some text => .ok (text, after)
  | none =>
    let mark := after.mark
    let back := decoded.length - Utf8.soundLength decoded
    .error (.placed { fault := .notUnicode, mark := { mark with column := mark.column - back } })

/-- Read a used text after its opening quotation mark; `decoded` holds the bytes
decoded so far, the latest first. -/
def readTextFrom (state : TextState) (decoded before : Bytes) :
    Bytes → Except Problem (String × Cursor)
  | [] => .error (.placed { fault := .endInText, mark := Cursor.mark { before, rest := [] } })
  | byte :: rest =>
    let after : Cursor := { before := byte :: before, rest }
    if state = .plain && byte = quote then textOfDecoded decoded.reverse after
    else match state.read byte with
      | .error fault => .error (.placed { fault, mark := after.mark })
      | .ok (completed, next) =>
        readTextFrom next (completed.reverse ++ decoded) (byte :: before) rest

/-- Where reading stands between two bytes of a text that is skipped. -/
inductive SkipState where
  | plain
  | escape
  | digits (read : Bytes)
  deriving DecidableEq, Repr

/-- Skip one byte inside a text. -/
def SkipState.read (state : SkipState) (byte : UInt8) : Except Fault SkipState :=
  match state with
  | .plain => .ok (if byte = escapeMark then .escape else .plain)
  | .escape =>
    if byte = 0x75 then .ok (.digits [])
    else if (byteOfEscape? byte).isSome then .ok .plain
    else .error .escapeUnknown
  | .digits read =>
    if read.length < 3 then .ok (.digits (read ++ [byte]))
    else if (hexValue? (read ++ [byte])).isSome then .ok .plain
    else .error .escapeUnknown

/-- Skip a text after its opening quotation mark. A control character is told from
the place before it. -/
def skipTextFrom (state : SkipState) (before : Bytes) : Bytes → Except Problem (Unit × Cursor)
  | [] => .error (.placed { fault := .endInText, mark := Cursor.mark { before, rest := [] } })
  | byte :: rest =>
    let after : Cursor := { before := byte :: before, rest }
    if state = .plain && byte = quote then .ok ((), after)
    else if state = .plain && byte < 0x20 then
      .error (.placed { fault := .controlCharacter, mark := Cursor.mark { before, rest } })
    else match state.read byte with
      | .error fault => .error (.placed { fault, mark := after.mark })
      | .ok next => skipTextFrom next (byte :: before) rest

namespace Reader

/-- Read a text whose opening quotation mark comes next. -/
def quotation : Reader String :=
  fun cursor => readTextFrom .plain [] cursor.advance.before cursor.advance.rest

/-- Skip a text whose opening quotation mark comes next. -/
def skipQuotation : Reader Unit :=
  fun cursor => skipTextFrom .plain cursor.advance.before cursor.advance.rest

end Reader

end ElmWorkbench.Json
