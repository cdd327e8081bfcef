import ElmWorkbench.Json.Element
import ElmWorkbench.Json.Skip
/-!
# Records in messages

A record is a value with named fields. It is read from an object, in which the
fields stand in any order and unknown keys are skipped, or from a list of all
fields in their own order. Values that were buffered before they are read as a
record differ in one thing: surplus elements of a list are counted.
-/

namespace ElmWorkbench.Json

/-- Whether a value is read where it first stands, or once more after it has been
read as a value of any shape. -/
inductive Passage where
  | direct
  | buffered
  deriving DecidableEq, Repr

/-- One field of a record that is being read. -/
structure Field (Draft : Type) where
  name : String
  /-- Whether the list form may leave the field out. -/
  isOptional : Bool
  isFilled : Draft → Bool
  read : Draft → Reader Draft

/-- A kind of record. -/
structure Shape (Draft Value : Type) where
  /-- What messages call a record of this kind. -/
  title : String
  empty : Draft
  fields : List (Field Draft)
  /-- The record, or the first field that is missing. -/
  build : Draft → Except Fault Value

/-- A field that must be there. -/
def required {Value : Type} (name : String) (field : Option Value) : Except Fault Value :=
  match field with
  | some value => .ok value
  | none => .error (.fieldMissing name)

namespace Reader

/-- Turn a result into a reader; its fault concerns the whole. -/
def whole {Value : Type} : Except Fault Value → Reader Value
  | .ok value => pure value
  | .error fault => failWhole fault

/-- Read what follows a key of a record. -/
def fieldAfter {Draft : Type} (fields : List (Field Draft)) (draft : Draft) (key : String) :
    Reader Draft :=
  match fields.find? fun field => field.name = key with
  | none => do
    colon
    skipValue
    pure draft
  | some field =>
    if field.isFilled draft then failWhole (.fieldRepeated key)
    else do
      colon
      field.read draft

/-- Read a record after the opening brace of its object. -/
def recordInObject {Draft Value : Type} (shape : Shape Draft Value) : Reader Value := do
  let draft ← entries (fieldAfter shape.fields) shape.empty
  whole (shape.build draft)

/-- Read fields from the elements of a list. -/
def fieldsInList {Draft : Type} (expected : String) :
    Nat → List (Field Draft) → Draft → Reader Draft
  | _, [], draft => pure draft
  | index, field :: rest, draft => do
    if ← anotherElement (index = 0) then
      let next ← field.read draft
      fieldsInList expected (index + 1) rest next
    else if field.isOptional then fieldsInList expected (index + 1) rest draft
    else failWhole (.wrongLength index expected)

/-- Refuse surplus elements of a buffered list. -/
def noSurplus (count : Nat) : Reader Unit := do
  if ← anotherElement (count = 0) then
    skipValue
    let more ← elementsFrom skipValue ((← get).rest.length + 1) false
    failWhole (.wrongLength (count + 1 + more.length) (countOfElements count ++ " in sequence"))

/-- Read a record after the opening bracket of its list. -/
def recordInList {Draft Value : Type} (passage : Passage) (shape : Shape Draft Value) :
    Reader Value := do
  let expected := shape.title ++ " with " ++ countOfElements shape.fields.length
  let draft ← fieldsInList expected 0 shape.fields shape.empty
  if passage = .buffered then noSurplus shape.fields.length
  whole (shape.build draft)

/-- Read a record. -/
def record {Draft Value : Type} (passage : Passage) (shape : Shape Draft Value) :
    Reader Value := do
  match ← token with
  | .object => inObject (recordInObject shape)
  | .list => inList (recordInList passage shape)
  | found => fail (.wrongKind found shape.title)

end Reader

end ElmWorkbench.Json
