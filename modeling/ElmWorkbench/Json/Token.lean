import ElmWorkbench.Json.Numeral
import ElmWorkbench.Json.Quotation
/-!
# Single values in messages

Reading the value that comes next as far as it is a single one: a word, a number
or a text is read to its end, a bracket is told and left in place. The readers of
texts, counts, truth values and optional values are built on this.
-/

namespace ElmWorkbench.Json

namespace Reader

/-- Read the letters of a word. -/
def letters : Bytes → Reader Unit
  | [] => pure ()
  | letter :: rest => do
    match ← next with
    | none => fail .endInValue
    | some byte => if byte = letter then letters rest else fail .wordExpected

/-- Read a word whose first letter comes next, given the letters after that. -/
def word (rest : Bytes) (meaning : Found) : Reader Found := do
  step
  letters rest
  pure meaning

/-- Read a single value, or tell which bracket comes next. -/
def token : Reader Found := do
  match ← peekSolid with
  | none => failNext .endInValue
  | some byte =>
    if byte = 0x6E then word [0x75, 0x6C, 0x6C] .null
    else if byte = 0x74 then word [0x72, 0x75, 0x65] (.boolean true)
    else if byte = 0x66 then word [0x61, 0x6C, 0x73, 0x65] (.boolean false)
    else if byte = 0x2D then step *> numeral true
    else if isDigit byte then numeral false
    else if byte = quote then .text <$> quotation
    else if byte = 0x5B then pure .list
    else if byte = 0x7B then pure .object
    else failNext .valueExpected

/-- Read a text; `expected` says what it is for. -/
def textFor (expected : String) : Reader String := do
  match ← token with
  | .text value => pure value
  | found => fail (.wrongKind found expected)

/-- Read a text. -/
def text : Reader String :=
  textFor "a string"

/-- Read a path. -/
def path : Reader Path :=
  Path.ofString <$> textFor "path string"

/-- Read a truth value. -/
def boolean : Reader Bool := do
  match ← token with
  | .boolean value => pure value
  | found => fail (.wrongKind found "a boolean")

/-- Read a number that counts something. -/
def count : Reader UInt64 := do
  match ← token with
  | .integer value =>
    if value < 0 then fail (.wrongValue (Found.integer value).describe "usize")
    else pure (UInt64.ofNat value.toNat)
  | found => fail (.wrongKind found "usize")

/-- Read a value or the word `null`. -/
def optional {Value : Type} (reader : Reader Value) : Reader (Option Value) := do
  if (← peekSolid) = some 0x6E then
    let _ ← word [0x75, 0x6C, 0x6C] .null
    pure none
  else some <$> reader

/-- Read the word `null` where nothing else may stand. -/
def nothing (expected : String) : Reader Unit := do
  match ← token with
  | .null => pure ()
  | found => fail (.wrongKind found expected)

end Reader

end ElmWorkbench.Json
