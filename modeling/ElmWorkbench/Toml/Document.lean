import ElmWorkbench.Toml.Scalar
import ElmWorkbench.Toml.Table
/-!
# TOML documents

A document is a sequence of lines, each with a key and its value, with the header of
a table, or with nothing. Arrays and tables inside values nest to a bounded depth.
-/

namespace ElmWorkbench.Toml

open Json (Value)

/-- How deep arrays, tables and dotted keys nest at most, plus one. -/
def nestingBound : Nat := 80

/-- Characters of keys without quotation marks. -/
def isBareKey (character : Char) : Bool :=
  character.isAlphanum || character = '-' || character = '_'

/-- One part of a key. -/
def keyPart : Scan String :=
  basicText <|> literalText <|> do
    let characters ← Scan.run isBareKey
    if characters = [] then failure
    pure (String.ofList characters)

/-- The parts of a key that follow its first. -/
def keyRest : Nat → Scan (List String)
  | 0 => failure
  | steps + 1 => do
    Scan.blanks
    if ← Scan.found ['.'] then
      Scan.blanks
      let part ← keyPart
      let others ← keyRest steps
      pure (part :: others)
    else pure []

/-- A key, with the blanks around its parts. -/
def key : Scan (List String) := do
  Scan.blanks
  let first ← keyPart
  let others ← keyRest nestingBound
  if nestingBound ≤ others.length + 1 then failure
  pure (first :: others)

/-- A key and its value, given a scanner of values. -/
def keyAndValue (value : Scan Value) : Scan (List String × Value) := do
  let path ← key
  Scan.word ['=']
  Scan.blanks
  let meant ← value
  pure (path, meant)

/-- The elements of an array after its opening bracket. -/
def arrayFrom (value : Scan Value) : Nat → Scan (List Value)
  | 0 => failure
  | steps + 1 => do
    Scan.filler
    if ← Scan.found [']'] then pure []
    else
      let element ← value
      Scan.filler
      if ← Scan.found [','] then
        let others ← arrayFrom value steps
        pure (element :: others)
      else
        Scan.word [']']
        pure [element]

/-- The entries of a table inside a value, after the first of them. -/
def inlineFrom (value : Scan Value) : Nat → Table → Scan Table
  | 0, _ => failure
  | steps + 1, table => do
    let (path, meant) ← keyAndValue value
    let grown ← (table.add path meant : Option Table)
    Scan.blanks
    if ← Scan.found [','] then inlineFrom value steps grown
    else
      Scan.word ['\x7d']
      pure grown

/-- A table inside a value, after its opening brace. -/
def inlineTable (value : Scan Value) : Scan Value := do
  Scan.blanks
  if ← Scan.found ['\x7d'] then pure (.object [])
  else
    let table ← inlineFrom value ((← Scan.left).length + 1) (Table.empty .header)
    pure table.toValue

/-- A value in which brackets nest less deep than the bound. -/
def value : Nat → Scan Value
  | 0 => failure
  | depth + 1 => do
    match ← Scan.peek with
    | some '[' => do
      if depth = 0 then failure
      Scan.word ['[']
      let elements ← arrayFrom (value depth) ((← Scan.left).length + 1)
      pure (.list elements)
    | some '\x7b' => do
      if depth = 0 then failure
      Scan.word ['\x7b']
      inlineTable (value depth)
    | _ => scalar

/-- What a line of a document says. -/
inductive Line where
  | nothing
  | entry (path : List String) (value : Value)
  | header (isOneOfSeveral : Bool) (path : List String)

/-- Skip blanks, perhaps a comment, and the end of a line. -/
def lineRest : Scan Unit := do
  Scan.blanks
  if (← Scan.peek) = some '#' then Scan.comment
  Scan.lineEnd

/-- A header between its brackets. -/
def header (isOneOfSeveral : Bool) : Scan Line := do
  Scan.word (if isOneOfSeveral then ['[', '['] else ['['])
  let path ← key
  Scan.word (if isOneOfSeveral then [']', ']'] else [']'])
  pure (.header isOneOfSeveral path)

/-- One line of a document. -/
def line : Scan Line := do
  Scan.blanks
  let said ← match ← Scan.left with
    | '[' :: '[' :: _ => header true
    | '[' :: _ => header false
    | '#' :: _ => pure .nothing
    | '\n' :: _ => pure .nothing
    | '\r' :: _ => pure .nothing
    | [] => pure .nothing
    | _ => do
      let (path, meant) ← keyAndValue (value nestingBound)
      pure (.entry path meant)
  lineRest
  pure said

/-- A document that is being read. -/
structure Document where
  root : Table
  /-- The table that the last header opened. -/
  current : List String

namespace Document

/-- A document without lines. -/
def empty : Document :=
  { root := Table.empty .header, current := [] }

/-- Take what a line says into a document. -/
def take (document : Document) : Line → Option Document
  | .nothing => some document
  | .entry path value => do
    let root ← Table.changeAt false (Table.add path value) document.current document.root
    pure { document with root }
  | .header isOneOfSeveral path => do
    let root ← Table.openAt isOneOfSeveral path document.root
    pure { root, current := path }

/-- Read lines up to the end of the text. -/
def linesFrom : Nat → Document → Scan Document
  | 0, _ => failure
  | steps + 1, document => do
    if (← Scan.left) = [] then pure document
    else
      let said ← line
      let grown ← (document.take said : Option Document)
      linesFrom steps grown

end Document

/-- The value of a document; none if it is not well formed. A byte order mark at its
start does not belong to it. -/
def read? (text : String) : Option Value :=
  let characters := match text.toList with
    | first :: rest => if first.toNat = 0xFEFF then rest else first :: rest
    | [] => []
  match Document.linesFrom (characters.length + 1) Document.empty characters with
  | some (document, _) => some document.root.toValue
  | none => none

end ElmWorkbench.Toml
