import ElmWorkbench.Yaml.Meaning
/-!
# Writing YAML

A mapping is written as one entry a line and a list as one element a line after a dash.
A text is plain unless that would read as something else; then it stands between
apostrophes, or between quotation marks if a character of it has to be escaped. A text
of several lines is a block below a mark.
-/

namespace ElmWorkbench.Yaml

open Json (Value)

/-- Characters that may stand in any scalar as they are. -/
def isPrintable (character : Char) : Bool :=
  let code := character.toNat
  code = 0x0A || (0x20 ≤ code && code ≤ 0x7E)
    || (0xA0 ≤ code && code ≤ 0xFFFD && code ≠ 0xFEFF)

/-- Whether a text read as a plain scalar would be something else than that text. -/
def isAmbiguous (text : String) : Bool :=
  Meaning.of text ≠ .text || hasLeadingZero text.toList

/-- Whether the pattern of two neighbours occurs. -/
def hasNeighbours (first second : Char → Bool) : List Char → Bool
  | left :: right :: rest =>
    (first left && second right) || hasNeighbours first second (right :: rest)
  | _ => false

/-- Whether a character after the first has a meaning of its own, given the one before
it. -/
def hasInnerIndicator : Char → List Char → Bool
  | _, [] => false
  | before, character :: rest =>
    (character = ':' && endsWord rest) || (character = '#' && isSpace before)
      || hasInnerIndicator character rest

/-- Whether a scalar would be read as something else because of a character with a
meaning of its own. -/
def hasIndicator (characters : List Char) : Bool :=
  match characters with
  | [] => false
  | first :: rest =>
    ['-', '-', '-'].isPrefixOf characters || ['.', '.', '.'].isPrefixOf characters
      || isFlowIndicator first
      || ['#', '&', '*', '!', '|', '>', '\x27', '"', '%', '@', '\x60'].contains first
      || ((first = '?' || first = ':' || first = '-') && endsWord rest)
      || hasInnerIndicator first rest

/-- The ways to write a text. -/
inductive Style where
  | plain
  | single
  | double
  | block
  deriving DecidableEq, Repr

/-- Whether a text can stand between apostrophes. -/
def allowsSingle (characters : List Char) : Bool :=
  characters.all isPrintable
    && !hasNeighbours isBreak (· = ' ') characters
    && !hasNeighbours (· = ' ') isBreak characters

/-- Whether a text can be a plain scalar. -/
def allowsPlain (characters : List Char) : Bool :=
  allowsSingle characters && !characters.any isBreak && !hasIndicator characters
    && characters.head? ≠ some ' ' && characters.getLast? ≠ some ' '

/-- Whether a text can be a block. -/
def allowsBlock (characters : List Char) : Bool :=
  characters ≠ [] && characters.all isPrintable
    && !hasNeighbours (· = ' ') isBreak characters
    && characters.getLast? ≠ some ' '

/-- The way a text is written. -/
def Style.of (text : String) : Style :=
  let characters := text.toList
  if characters.contains '\n' then
    if allowsBlock characters then .block else .double
  else if !isAmbiguous text && allowsPlain characters then .plain
  else if allowsSingle characters then .single
  else .double

/-- A number in capital hexadecimal digits. -/
def hexDigits (count code : Nat) : List Char :=
  (List.range count).reverse.map fun place => (Nat.digitChar (code / Nat.pow 16 place % 16)).toUpper

/-- A character between quotation marks, as an escape sequence if it needs one. -/
def escaped (character : Char) : List Char :=
  match character with
  | '\x00' => ['\\', '0']
  | '\x07' => ['\\', 'a']
  | '\x08' => ['\\', 'b']
  | '\t' => ['\\', 't']
  | '\n' => ['\\', 'n']
  | '\x0b' => ['\\', 'v']
  | '\x0c' => ['\\', 'f']
  | '\r' => ['\\', 'r']
  | '\x1b' => ['\\', 'e']
  | '"' => ['\\', '"']
  | '\\' => ['\\', '\\']
  | _ =>
    let code := character.toNat
    if code = 0x85 then ['\\', 'N']
    else if code = 0x2028 then ['\\', 'L']
    else if code = 0x2029 then ['\\', 'P']
    else if isPrintable character then [character]
    else if code ≤ 0xFF then '\\' :: 'x' :: hexDigits 2 code
    else if code ≤ 0xFFFF then '\\' :: 'u' :: hexDigits 4 code
    else '\\' :: 'U' :: hexDigits 8 code

/-- Blanks of an indentation. -/
def blanks (count : Nat) : List Char :=
  List.replicate count ' '

/-- The inside of a text between apostrophes. The part after an end of a line is
indented. -/
def singleFrom (indent : Nat) (afterBreak : Bool) : List Char → List Char
  | [] => if afterBreak then blanks indent else []
  | character :: rest =>
    if isBreak character then character :: singleFrom indent true rest
    else
      let lead := if afterBreak then blanks indent else []
      let written := if character = '\x27' then ['\x27', '\x27'] else [character]
      lead ++ written ++ singleFrom indent false rest

/-- The lines of a block. Lines that are not empty are indented. -/
def indentedFrom (indent : Nat) (afterBreak : Bool) : List Char → List Char
  | [] => []
  | character :: rest =>
    if isBreak character then character :: indentedFrom indent true rest
    else (if afterBreak then blanks indent else []) ++ character :: indentedFrom indent false rest

/-- What follows the mark of a block: its indentation if its first line does not show
that, and how its last line ends. -/
def blockHints (characters : List Char) : List Char :=
  let start := if characters.head?.any fun first => first = ' ' || isBreak first then ['2'] else []
  let ending := match characters.reverse with
    | [] => ['-']
    | last :: [] => if isBreak last then ['+'] else ['-']
    | last :: before :: _ =>
      if !isBreak last then ['-'] else if isBreak before then ['+'] else []
  start ++ ending

/-- A text in a given way, without the end of its last line; blocks and other parts of
several lines are indented. -/
def writeStyled (indent : Nat) (style : Style) (characters : List Char) : List Char :=
  match style with
  | .plain => characters
  | .single => '\x27' :: singleFrom indent false characters ++ ['\x27']
  | .double => '"' :: characters.flatMap escaped ++ ['"']
  | .block => '|' :: blockHints characters ++ '\n' :: indentedFrom indent true characters

/-- A text and the end of its line. A block that ends with a line end needs no other. -/
def writeLine (indent : Nat) (text : String) : List Char :=
  let style := Style.of text
  let written := writeStyled indent style text.toList
  if style = .block && text.toList.getLast?.any isBreak then written else written ++ ['\n']

/-- The longest key that is written before its colon, in bytes. -/
def shortKeyLimit : Nat := 128

/-- Whether a key is written before its colon, on one line. -/
def isShortKey (key : String) : Bool :=
  key.utf8ByteSize ≤ shortKeyLimit && !key.toList.any isBreak

/-- Where a value stands. -/
inductive Place where
  /-- After the colon of a short key. -/
  | afterKey
  /-- After a dash or another mark at the start of its line. -/
  | afterMark
  deriving DecidableEq, Repr

mutual

/-- A value up to the end of its last line, in a list or mapping that is indented to
`indent`. -/
def writeValue? (indent : Nat) (place : Place) : Value → Option (List Char)
  | .text value => some (writeLine (indent + 2) value)
  | .path value => value.text?.map (writeLine (indent + 2))
  | .list (first :: rest) =>
    match place with
    | .afterKey => (writeElements? indent (first :: rest)).map fun lines =>
        '\n' :: blanks indent ++ lines
    | .afterMark => writeElements? (indent + 2) (first :: rest)
  | .object (first :: rest) =>
    match place with
    | .afterKey => (writeEntries? (indent + 2) (first :: rest)).map fun lines =>
        '\n' :: blanks (indent + 2) ++ lines
    | .afterMark => writeEntries? (indent + 2) (first :: rest)
  | .null => some "null\n".toList
  | .boolean value => some ((toString value).toList ++ ['\n'])
  | .integer value => some ((toString value).toList ++ ['\n'])
  | .fraction bits => some ((Json.doubleText bits).toList ++ ['\n'])
  | .list [] => some ['[', ']', '\n']
  | .object [] => some ['\x7b', '\x7d', '\n']

/-- The elements of a list whose dashes stand at column `indent`; the first line is not
indented. -/
def writeElements? (indent : Nat) : List Value → Option (List Char)
  | [] => some []
  | element :: rest => do
    let first ← writeValue? indent .afterMark element
    let others ← writeElements? indent rest
    pure ('-' :: ' ' :: first ++ (if rest.isEmpty then [] else blanks indent ++ others))

/-- The entries of a mapping whose keys stand at column `indent`; the first line is not
indented. -/
def writeEntries? (indent : Nat) : List (String × Value) → Option (List Char)
  | [] => some []
  | (key, value) :: rest => do
    let isShort := isShortKey key
    let written ← writeValue? indent (if isShort then .afterKey else .afterMark) value
    let entry :=
      if isShort then
        let lead := if written.head? = some '\n' then [':'] else [':', ' ']
        writeStyled (indent + 2) (Style.of key) key.toList ++ lead ++ written
      else '?' :: ' ' :: writeLine (indent + 2) key ++ blanks indent ++ ':' :: ' ' :: written
    let others ← writeEntries? indent rest
    pure (entry ++ (if rest.isEmpty then [] else blanks indent ++ others))

end

/-- The document of a value; none if a path in it is not UTF-8. -/
def write? (value : Value) : Option String :=
  let written := match value with
    | .list (first :: rest) => writeElements? 0 (first :: rest)
    | .object (first :: rest) => writeEntries? 0 (first :: rest)
    | _ => writeValue? 0 .afterKey value
  written.map String.ofList

end ElmWorkbench.Yaml
