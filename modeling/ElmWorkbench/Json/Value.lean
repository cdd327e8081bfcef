import ElmWorkbench.Json.Element
/-!
# JSON values

Values of any shape, how they are read and how they are written. Reading bounds
how deep brackets may nest. Writing is compact, or in lines with two blanks for
every bracket around. A path is written as a text; one that is not UTF-8 cannot
be written, and what stands before it in the output stays.
-/

namespace ElmWorkbench.Json

/-- A JSON value. -/
inductive Value where
  | null
  | boolean (value : Bool)
  | integer (value : Int)
  /-- A number that is no integer, by its bits. -/
  | fraction (bits : UInt64)
  | text (value : String)
  /-- A path, which is written as a text and never read. -/
  | path (value : Path)
  | list (elements : List Value)
  | object (entries : List (String × Value))
  deriving Repr

/-- How many brackets may be open at once, plus one. -/
def nestingBound : Nat := 128

namespace Reader

/-- Read a value whose brackets nest less deep than the bound. -/
def value : Nat → Reader Value
  | 0 => failNext .tooDeep
  | depth + 1 => do
    match ← token with
    | .null => pure .null
    | .boolean value => pure (.boolean value)
    | .integer value => pure (.integer value)
    | .fraction bits => pure (.fraction bits)
    | .text value => pure (.text value)
    | .list =>
      if depth = 0 then failNext .tooDeep
      else .list <$> inList (elements (value depth))
    | .object =>
      if depth = 0 then failNext .tooDeep
      else .object <$> inObject (entries (fun found key => do
        colon
        let member ← value depth
        pure (found ++ [(key, member)])) [])

end Reader

/-- Text that has been written, and whether all of it could be. -/
structure Output where
  text : List Char
  complete : Bool
  deriving DecidableEq, Repr

namespace Output

/-- A text that can be written. -/
def of (text : String) : Output :=
  { text := text.toList, complete := true }

/-- Write one output after another; nothing follows one that is not complete. -/
def append (first second : Output) : Output :=
  if first.complete then { text := first.text ++ second.text, complete := second.complete }
  else first

instance : Append Output := ⟨append⟩

/-- Write outputs with a separator between them. -/
def separated (separator : String) : List Output → Output
  | [] => of ""
  | [only] => only
  | first :: rest => first ++ of separator ++ separated separator rest

end Output

/-- How lists and objects are laid out. -/
inductive Layout where
  | compact
  /-- One element a line, at the given depth. -/
  | lines (depth : Nat)
  deriving DecidableEq, Repr

namespace Layout

/-- The layout inside one more bracket. -/
def inner : Layout → Layout
  | .compact => .compact
  | .lines depth => .lines (depth + 1)

/-- What stands before an element, and before the closing bracket. -/
def lineStart : Layout → String
  | .compact => ""
  | .lines depth => String.ofList ('\n' :: List.replicate (2 * depth) ' ')

/-- What stands between a key and its value. -/
def afterKey : Layout → String
  | .compact => ":"
  | .lines _ => ": "

/-- Put elements between brackets. -/
def enclose (layout : Layout) (opening closing : String) (elements : List Output) : Output :=
  if elements = [] then Output.of (opening ++ closing)
  else Output.of opening
    ++ Output.separated "," (elements.map (Output.of layout.inner.lineStart ++ ·))
    ++ Output.of (layout.lineStart ++ closing)

end Layout

namespace Value

/-- Write a text with its quotation marks. -/
def writeString (text : String) : Output :=
  { text := writeText text, complete := true }

mutual

/-- Write a value. -/
def write (layout : Layout) : Value → Output
  | .null => Output.of "null"
  | .boolean value => Output.of (toString value)
  | .integer value => Output.of (toString value)
  | .fraction bits => Output.of (doubleText bits)
  | .text value => writeString value
  | .path value =>
    match value.text? with
    | some written => writeString written
    | none => { text := [], complete := false }
  | .list elements => layout.enclose "[" "]" (writeElements layout.inner elements)
  | .object entries => layout.enclose "\x7b" "\x7d" (writeEntries layout.inner entries)

/-- Write the elements of a list. -/
def writeElements (layout : Layout) : List Value → List Output
  | [] => []
  | element :: rest => element.write layout :: writeElements layout rest

/-- Write the entries of an object. -/
def writeEntries (layout : Layout) : List (String × Value) → List Output
  | [] => []
  | (key, value) :: rest =>
    (writeString key ++ Output.of layout.afterKey ++ value.write layout)
      :: writeEntries layout rest

end

/-- The compact text of a value. -/
def compact (value : Value) : Output :=
  value.write .compact

/-- The text of a value in lines. -/
def pretty (value : Value) : Output :=
  value.write (.lines 0)

end Value

/-- The fault of a value that holds a path which is not UTF-8. -/
def pathNotText : String :=
  "path contains invalid UTF-8 characters"

end ElmWorkbench.Json
