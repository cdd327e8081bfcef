import ElmWorkbench.Json.Record
import ElmWorkbench.Json.Value
/-!
# Variants in messages

A name out of a fixed list, and a message that holds such a name under `tag` and
contents that depend on it under `data`. The two may stand in either order, other
keys are skipped, and a list of both is read too. Contents that come before the
tag are read as a value of any shape first, and once more when the tag is known; a
fault found then concerns the whole message.
-/

namespace ElmWorkbench.Json

/-- One kind of message: its name, how its contents are read, and what it is
without contents. -/
structure Variant (Message : Type) where
  name : String
  read : Passage → Reader Message
  withoutData : Except Fault Message

/-- The key of the name of a message. -/
def tagKey : String := "tag"

/-- The key of the contents of a message. -/
def dataKey : String := "data"

namespace Reader

/-- Look a name up among known ones. -/
def knownName {Value : Type} (known : List (String × Value)) (name : String) : Reader Value :=
  match known.find? fun entry => entry.1 = name with
  | some (_, value) => pure value
  | none => fail (.variantUnknown name (known.map Prod.fst))

/-- Read a name out of a list of known ones where nothing but a text may stand. -/
def plainNameAmong {Value : Type} (known : List (String × Value)) : Reader Value := do
  let name ← textFor "variant identifier"
  knownName known name

/-- Read the value beside a name in an object that holds nothing else. -/
def besideName (passage : Passage) : Reader Unit := do
  match passage, ← token with
  | _, .null => pure ()
  | .buffered, .object =>
    inObject do
      if ← anotherKey true then failWhole (.wrongKind .object "unit")
  | _, found => fail (.wrongKind found "unit")

/-- Read a name out of a list of known ones: a text, or an object that holds the
name as its only key and `null` beside it. -/
def nameAmong {Value : Type} (known : List (String × Value)) : Reader Value := do
  match ← peekSolid with
  | none => failNext .endInValue
  | some byte =>
    if byte = 0x7B then
      step
      let value ← plainNameAmong known
      colon
      besideName .direct
      match ← peekSolid with
      | none => fail .endInObject
      | some closing =>
        if closing = 0x7D then
          step
          pure value
        else fail .valueExpected
    else if byte = quote then quotation >>= knownName known
    else failNext .valueExpected

/-- Read a buffered name out of a list of known ones. -/
def bufferedNameAmong {Value : Type} (known : List (String × Value)) : Reader Value := do
  match ← token with
  | .text name => knownName known name
  | .object =>
    let start ← get
    let count ← inObject (entries (fun count _ => do
      colon
      skipValue
      pure (count + 1)) 0)
    if count ≠ 1 then
      failWhole (.wrongValue Found.object.describe "map with a single key")
    else
      set start
      inObject do
        let _ ← anotherKey true
        let value ← quotation >>= knownName known
        colon
        besideName .buffered
        pure value
  | found => fail (.wrongKind found "string or map")

/-- Read a name out of a list of known ones. -/
def name {Value : Type} (known : List (String × Value)) : Passage → Reader Value
  | .direct => nameAmong known
  | .buffered => bufferedNameAmong known

/-- Refuse the bracket that comes next. What is wrong with it shows once it is
open. -/
def refuseBracket {Value : Type} (found : Found) (expected : String) : Reader Value :=
  match found with
  | .list => inList (failWhole (.wrongKind .list expected))
  | .object => inObject (failWhole (.wrongKind .object expected))
  | other => fail (.wrongKind other expected)

/-- Read contents that are fields and always stand in an object. -/
def fields {Draft Value : Type} (shape : Shape Draft Value) : Reader Value := do
  match ← token with
  | .object => inObject (recordInObject shape)
  | found => refuseBracket found shape.title

/-- Read contents that say nothing. -/
def noContents (expected : String) : Reader Unit := do
  match ← token with
  | .null => pure ()
  | found => refuseBracket found expected

/-- Read again what stands at an earlier place, without moving. A fault concerns
the whole that is being read. -/
def again {Value : Type} (start : Cursor) (reader : Reader Value) : Reader Value :=
  fun cursor =>
    match reader start with
    | .error (.placed failure) => .error (.pending failure.fault cursor)
    | .error (.pending fault _) => .error (.pending fault cursor)
    | .ok (value, _) => .ok (value, cursor)

/-- Step to the next key that matters, skipping entries with other keys; tells
whether it is the tag. -/
def relevantKey : Nat → Bool → Reader (Option Bool)
  | 0, _ => failNext .endInObject
  | steps + 1, first => do
    if ← anotherKey first then
      let key ← quotation
      if key = tagKey then pure (some true)
      else if key = dataKey then pure (some false)
      else
        colon
        skipValue
        relevantKey steps false
    else pure none

/-- Step to the next key that matters. -/
def nextRelevantKey (first : Bool) : Reader (Option Bool) := do
  relevantKey ((← get).rest.length + 1) first

/-- Read to the end of a message whose tag and contents are read. -/
def noFurtherParts {Message : Type} (message : Message) : Reader Message := do
  match ← nextRelevantKey false with
  | none => pure message
  | some isTag => failWhole (.fieldRepeated (if isTag then tagKey else dataKey))

/-- Read a message after the opening brace of its object. -/
def messageInObject {Message : Type} (variants : List (Variant Message)) : Reader Message := do
  let known := variants.map fun variant => (variant.name, variant)
  match ← nextRelevantKey true with
  | none => failWhole (.fieldMissing tagKey)
  | some true =>
    colon
    let variant ← nameAmong known
    match ← nextRelevantKey false with
    | none => whole variant.withoutData
    | some true => failWhole (.fieldRepeated tagKey)
    | some false =>
      colon
      let message ← variant.read .direct
      noFurtherParts message
  | some false =>
    colon
    let start ← get
    let _ ← value (nestingBound - 1)
    match ← nextRelevantKey false with
    | none => failWhole (.fieldMissing tagKey)
    | some false => failWhole (.fieldRepeated dataKey)
    | some true =>
      colon
      let variant ← nameAmong known
      let message ← again start (variant.read .buffered)
      noFurtherParts message

/-- Read a message after the opening bracket of its list. -/
def messageInList {Message : Type} (title : String) (variants : List (Variant Message)) :
    Reader Message := do
  if ← anotherElement true then
    let variant ← plainNameAmong (variants.map fun variant => (variant.name, variant))
    if ← anotherElement false then variant.read .direct
    else failWhole (.wrongLength 1 title)
  else failWhole (.wrongLength 0 title)

/-- Read a message that is one of several variants. -/
def message {Message : Type} (title : String) (variants : List (Variant Message)) :
    Reader Message := do
  match ← token with
  | .object => inObject (messageInObject variants)
  | .list => inList (messageInList title variants)
  | found => fail (.wrongKind found title)

end Reader

end ElmWorkbench.Json
