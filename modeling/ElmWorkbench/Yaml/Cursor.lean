/-!
# Places in YAML texts

A cursor stands in a text and knows its line and column, because indentation has a
meaning in YAML. This module holds the classes of characters and the steps that move
a cursor: over characters of one line, and over the end of a line.
-/

namespace ElmWorkbench.Yaml

/-- Characters that a text may consist of. -/
def isAllowed (character : Char) : Bool :=
  let code := character.toNat
  code = 0x09 || code = 0x0A || code = 0x0D || (0x20 ≤ code && code ≤ 0x7E) || code = 0x85
    || (0xA0 ≤ code && code ≤ 0xD7FF) || (0xE000 ≤ code && code ≤ 0xFFFD) || 0x10000 ≤ code

/-- Characters that end a line. -/
def isBreak (character : Char) : Bool :=
  let code := character.toNat
  code = 0x0A || code = 0x0D || code = 0x85 || code = 0x2028 || code = 0x2029

/-- Blanks inside a line. -/
def isBlank (character : Char) : Bool :=
  character = ' ' || character = '\t'

/-- Characters between words. -/
def isSpace (character : Char) : Bool :=
  isBlank character || isBreak character

/-- Characters of names. -/
def isNameCharacter (character : Char) : Bool :=
  character.isAlphanum || character = '_' || character = '-'

/-- Whether a word ends before the given characters. -/
def endsWord (rest : List Char) : Bool :=
  rest.head?.all isSpace

/-- A place in a text. -/
structure Cursor where
  rest : List Char
  /-- The number of characters before the place. -/
  index : Nat
  line : Nat
  column : Nat
  deriving Repr

namespace Cursor

/-- The place before a text. -/
def start (text : List Char) : Cursor :=
  { rest := text, index := 0, line := 0, column := 0 }

/-- The place after some more characters of the line. -/
def skip (cursor : Cursor) (count : Nat) : Cursor :=
  { cursor with
    rest := cursor.rest.drop count
    index := cursor.index + count
    column := cursor.column + count }

/-- The place at the start of the next line, after a break of `count` characters. -/
def nextLine (cursor : Cursor) (count : Nat) : Cursor :=
  { rest := cursor.rest.drop count
    index := cursor.index + count
    line := cursor.line + 1
    column := 0 }

/-- Whether a document marker stands at the place. -/
def atMarker (cursor : Cursor) : Bool :=
  cursor.column = 0
    && (['-', '-', '-'].isPrefixOf cursor.rest || ['.', '.', '.'].isPrefixOf cursor.rest)
    && endsWord (cursor.rest.drop 3)

end Cursor

/-- Taking a value from a text at a place. -/
abbrev Take := StateT Cursor Option

namespace Take

/-- The characters that are left. -/
def left : Take (List Char) :=
  fun cursor => some (cursor.rest, cursor)

/-- The next character, which is not taken yet. -/
def peek : Take (Option Char) :=
  fun cursor => some (cursor.rest.head?, cursor)

/-- Step over characters of the line. -/
def skip (count : Nat) : Take Unit :=
  fun cursor => some ((), cursor.skip count)

/-- Take characters of the line as long as they pass a test. -/
def run (test : Char → Bool) : Take (List Char) :=
  fun cursor =>
    let taken := cursor.rest.takeWhile test
    some (taken, cursor.skip taken.length)

/-- Take the end of a line, as what it stands for in a scalar; nothing if the line
does not end here. -/
def lineBreak : Take (List Char) :=
  fun cursor =>
    match cursor.rest with
    | '\r' :: '\n' :: _ => some (['\n'], cursor.nextLine 2)
    | character :: _ =>
      if !isBreak character then some ([], cursor)
      else if character.toNat = 0x2028 || character.toNat = 0x2029 then
        some ([character], cursor.nextLine 1)
      else some (['\n'], cursor.nextLine 1)
    | [] => some ([], cursor)

/-- Skip blanks, and a comment if one comes next. -/
def commentLine : Take Unit := do
  let _ ← run isBlank
  if (← peek) = some '#' then
    let _ ← run fun character => !isBreak character

/-- Skip the rest of a line, which holds nothing but perhaps a comment. -/
def lineRest : Take Unit := do
  commentLine
  if (← peek).all isBreak then
    let _ ← lineBreak
  else failure

end Take

/-- The white space between two parts of a scalar. -/
structure Gap where
  /-- The blanks of a gap inside a line. -/
  blanks : List Char
  crossesLine : Bool
  firstBreak : List Char
  moreBreaks : List Char
  deriving Repr

namespace Gap

/-- A gap that has not begun. -/
def empty : Gap :=
  { blanks := [], crossesLine := false, firstBreak := [], moreBreaks := [] }

/-- A gap that begins after an end of a line that does not count. -/
def afterLine : Gap :=
  { empty with crossesLine := true }

/-- What a gap stands for in a scalar: a single end of a line is folded to a blank,
and of several the first does not count. -/
def text (gap : Gap) : List Char :=
  if !gap.crossesLine then gap.blanks
  else if gap.firstBreak = ['\n'] then
    if gap.moreBreaks = [] then [' '] else gap.moreBreaks
  else gap.firstBreak ++ gap.moreBreaks

/-- Add an end of a line. -/
def addBreak (gap : Gap) (written : List Char) : Gap :=
  if gap.crossesLine then { gap with moreBreaks := gap.moreBreaks ++ written }
  else { gap with blanks := [], crossesLine := true, firstBreak := written }

/-- Take the rest of a gap. A tab left of column `indent` on a new line is refused;
the number of steps bounds the length of the gap. -/
def takeFrom (indent : Nat) : Nat → Gap → Take Gap
  | 0, _ => failure
  | steps + 1, gap => do
    match ← Take.peek with
    | none => pure gap
    | some character =>
      if isBlank character then
        if gap.crossesLine && character = '\t' && (← get).column < indent then failure
        Take.skip 1
        takeFrom indent steps
          (if gap.crossesLine then gap else { gap with blanks := gap.blanks ++ [character] })
      else if isBreak character then
        let written ← Take.lineBreak
        takeFrom indent steps (gap.addBreak written)
      else pure gap

/-- Take the rest of a gap. -/
def take (indent : Nat) (gap : Gap) : Take Gap := do
  takeFrom indent ((← Take.left).length + 1) gap

end Gap

end ElmWorkbench.Yaml
