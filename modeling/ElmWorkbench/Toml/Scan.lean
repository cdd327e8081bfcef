import ElmWorkbench.Json.Value
/-!
# Scanning TOML

A scanner takes characters from the front of a text and gives a value, or fails.
This module holds the pieces that values and documents are scanned with, and the
four kinds of quoted texts.
-/

namespace ElmWorkbench.Toml

/-- A scanner of a value from the front of a text. -/
abbrev Scan := StateT (List Char) Option

/-- Blanks inside a line. -/
def isBlank (character : Char) : Bool :=
  character = ' ' || character = '\t'

/-- Characters that may stand in texts and comments as they are. -/
def isTextCharacter (character : Char) : Bool :=
  character = '\t' || (0x20 ≤ character.toNat && character.toNat ≠ 0x7F)

namespace Scan

/-- The characters that are left. -/
def left : Scan (List Char) :=
  get

/-- The next character, which is not taken yet. -/
def peek : Scan (Option Char) :=
  fun rest => some (rest.head?, rest)

/-- Take characters as long as they pass a test. -/
def run (test : Char → Bool) : Scan (List Char) :=
  fun rest => some (rest.takeWhile test, rest.dropWhile test)

/-- Take the given characters. -/
def word (characters : List Char) : Scan Unit :=
  fun rest => if characters.isPrefixOf rest then some ((), rest.drop characters.length) else none

/-- Take the given characters if they come next, and tell whether they did. -/
def found (characters : List Char) : Scan Bool :=
  fun rest =>
    if characters.isPrefixOf rest then some (true, rest.drop characters.length)
    else some (false, rest)

/-- Scan a value if it comes next. -/
def attempt {Value : Type} (scan : Scan Value) : Scan (Option Value) :=
  fun rest =>
    match scan rest with
    | some (value, after) => some (some value, after)
    | none => some (none, rest)

/-- Skip blanks inside a line. -/
def blanks : Scan Unit := do
  let _ ← run isBlank

/-- Take the end of a line. -/
def newline : Scan Unit :=
  word ['\n'] <|> word ['\r', '\n']

/-- Take a comment, up to the end of its line. -/
def comment : Scan Unit := do
  word ['#']
  let _ ← run isTextCharacter

/-- Take the end of a line, or be at the end of the text. -/
def lineEnd : Scan Unit := do
  if (← left) = [] then pure () else newline

/-- Skip blanks, comments and ends of lines; the number bounds how many. -/
def fillerFor : Nat → Scan Unit
  | 0 => pure ()
  | steps + 1 => do
    blanks
    match ← peek with
    | some '#' => do
      comment
      newline
      fillerFor steps
    | some '\n' => do
      newline
      fillerFor steps
    | some '\r' => do
      newline
      fillerFor steps
    | _ => pure ()

/-- Skip blanks, comments and ends of lines. -/
def filler : Scan Unit := do
  fillerFor ((← left).length + 1)

end Scan

/-- The value of a hexadecimal digit. -/
def hexDigit? (character : Char) : Option Nat :=
  let code := character.toNat
  if character.isDigit then some (code - 0x30)
  else if 'A' ≤ character && character ≤ 'F' then some (code - 0x41 + 10)
  else if 'a' ≤ character && character ≤ 'f' then some (code - 0x61 + 10)
  else none

/-- The value of digits to a base, the most significant first. -/
def valueOfDigits (base : Nat) (digits : List Char) : Option Nat :=
  digits.foldlM (fun value digit => (hexDigit? digit).map (value * base + ·)) 0

/-- The character with a number that is written in `count` hexadecimal digits. -/
def numberedCharacter (count : Nat) : Scan Char := do
  let rest ← Scan.left
  let digits := rest.take count
  if digits.length < count then failure
  let code ← (valueOfDigits 16 digits : Option Nat)
  if Nat.isValidChar code then
    set (rest.drop count)
    pure (Char.ofNat code)
  else failure

/-- The rest of an escape sequence after its backslash. -/
def escape : Scan Char := do
  match ← Scan.left with
  | [] => failure
  | letter :: rest =>
    set rest
    match letter with
    | 'b' => pure '\x08'
    | 't' => pure '\t'
    | 'n' => pure '\n'
    | 'f' => pure '\x0c'
    | 'r' => pure '\r'
    | '"' => pure '"'
    | '\\' => pure '\\'
    | 'u' => numberedCharacter 4
    | 'U' => numberedCharacter 8
    | _ => failure

/-- The rest of a text of one line after its opening quotation mark. -/
def basicFrom : Nat → Scan (List Char)
  | 0 => failure
  | steps + 1 => do
    match ← Scan.left with
    | [] => failure
    | character :: rest =>
      set rest
      if character = '"' then pure []
      else if character = '\\' then
        let meant ← escape
        let others ← basicFrom steps
        pure (meant :: others)
      else if isTextCharacter character then
        let others ← basicFrom steps
        pure (character :: others)
      else failure

/-- A text of one line between quotation marks. -/
def basicText : Scan String := do
  Scan.word ['"']
  let characters ← basicFrom ((← Scan.left).length + 1)
  pure (String.ofList characters)

/-- A text of one line between apostrophes, without escape sequences. -/
def literalText : Scan String := do
  Scan.word ['\x27']
  let characters ← Scan.run fun character =>
    isTextCharacter character && character ≠ '\x27'
  Scan.word ['\x27']
  pure (String.ofList characters)

/-- Skip blanks and ends of lines; the number bounds how many. -/
def blankLinesFor : Nat → Scan Unit
  | 0 => pure ()
  | steps + 1 => do
    Scan.blanks
    match ← Scan.attempt Scan.newline with
    | some () => blankLinesFor steps
    | none => pure ()

/-- Skip an end of a line that is escaped, with all blanks after it. -/
def escapedLineEnd : Scan Unit := do
  Scan.blanks
  Scan.newline
  blankLinesFor ((← Scan.left).length + 1)

/-- How many marks of a run belong to a text of several lines, and whether the text
ends after them. Three marks end it, and up to two more before those belong to it. -/
def closingRun (length : Nat) : Nat × Bool :=
  if length < 3 then (length, false) else (min (length - 3) 2, true)

/-- The rest of a text of several lines after its opening marks. Ends of lines are
newlines; `escapes` tells whether backslashes escape. -/
def severalLinesFrom (mark : Char) (escapes : Bool) : Nat → Scan (List Char)
  | 0 => failure
  | steps + 1 => do
    match ← Scan.left with
    | [] => failure
    | character :: rest =>
      if character = mark then
        let (kept, ends) := closingRun ((character :: rest).takeWhile (· = mark)).length
        if ends then
          set ((character :: rest).drop (kept + 3))
          pure (List.replicate kept mark)
        else
          set ((character :: rest).drop kept)
          let others ← severalLinesFrom mark escapes steps
          pure (List.replicate kept mark ++ others)
      else if escapes && character = '\\' then
        set rest
        match ← Scan.attempt escapedLineEnd with
        | some () => severalLinesFrom mark escapes steps
        | none =>
          let meant ← escape
          let others ← severalLinesFrom mark escapes steps
          pure (meant :: others)
      else if character = '\n' || character = '\r' then
        Scan.newline
        let others ← severalLinesFrom mark escapes steps
        pure ('\n' :: others)
      else if isTextCharacter character then
        set rest
        let others ← severalLinesFrom mark escapes steps
        pure (character :: others)
      else failure

/-- A text of several lines; an end of a line right after the opening marks does not
belong to it. -/
def severalLines (mark : Char) (escapes : Bool) : Scan String := do
  Scan.word [mark, mark, mark]
  let _ ← Scan.attempt Scan.newline
  let characters ← severalLinesFrom mark escapes ((← Scan.left).length + 1)
  pure (String.ofList characters)

/-- A quoted text of any kind. -/
def anyText : Scan String :=
  severalLines '"' true <|> severalLines '\x27' false <|> basicText <|> literalText

end ElmWorkbench.Toml
