import ElmWorkbench.Edit.Splice
import ElmWorkbench.Json.Record
import ElmWorkbench.Json.Value
/-!
# Edits as JSON

How positions, ranges and edits are written in messages and read back. Reading
keeps the order of a range: one that starts after it ends is refused.
-/

namespace ElmWorkbench

open Json (Field Passage Reader Shape Value)

namespace Position

/-- A position as JSON. -/
def toJson (position : Position) : Value :=
  .object [("line", .integer position.line.toNat), ("column", .integer position.column.toNat)]

/-- The parts of a position that have been read. -/
structure Draft where
  line : Option UInt64
  column : Option UInt64

/-- The fields of a position. -/
def shape : Shape Draft Position where
  title := "struct Position"
  empty := { line := none, column := none }
  fields :=
    [{ name := "line", isOptional := false, isFilled := fun draft => draft.line.isSome
       read := fun draft => do
         let line ← Reader.count
         pure { draft with line := some line } },
     { name := "column", isOptional := false, isFilled := fun draft => draft.column.isSome
       read := fun draft => do
         let column ← Reader.count
         pure { draft with column := some column } }]
  build := fun draft => do
    let line ← Json.required "line" draft.line
    let column ← Json.required "column" draft.column
    pure { line, column }

/-- Read a position. -/
def read (passage : Passage) : Reader Position :=
  Reader.record passage shape

end Position

namespace Range

/-- A range as JSON. -/
def toJson (range : Range) : Value :=
  .object [("from", range.first.toJson), ("to", range.last.toJson)]

/-- The ends of a range that have been read. -/
structure Draft where
  first : Option Position
  last : Option Position

/-- The fields of a range, before its order is checked. -/
def shape : Shape Draft (Position × Position) where
  title := "struct RawRange"
  empty := { first := none, last := none }
  fields :=
    [{ name := "from", isOptional := false, isFilled := fun draft => draft.first.isSome
       read := fun draft => do
         let first ← Position.read .direct
         pure { draft with first := some first } },
     { name := "to", isOptional := false, isFilled := fun draft => draft.last.isSome
       read := fun draft => do
         let last ← Position.read .direct
         pure { draft with last := some last } }]
  build := fun draft => do
    let first ← Json.required "from" draft.first
    let last ← Json.required "to" draft.last
    pure (first, last)

/-- Read a range; the order of its ends concerns the whole it stands in. -/
def read : Reader Range := do
  let (first, last) ← Reader.record .direct shape
  match make first last with
  | .ok range => pure range
  | .error cause => Reader.failWhole (.refused cause)

end Range

namespace Edit

/-- An edit as JSON. -/
def toJson (edit : Edit) : Value :=
  .object [("range", edit.range.toJson), ("replacement", .text edit.replacement)]

/-- The parts of an edit that have been read. -/
structure Draft where
  range : Option Range
  replacement : Option String

/-- The fields of an edit. -/
def shape : Shape Draft Edit where
  title := "struct Edit"
  empty := { range := none, replacement := none }
  fields :=
    [{ name := "range", isOptional := false, isFilled := fun draft => draft.range.isSome
       read := fun draft => do
         let range ← Range.read
         pure { draft with range := some range } },
     { name := "replacement", isOptional := false
       isFilled := fun draft => draft.replacement.isSome
       read := fun draft => do
         let replacement ← Reader.text
         pure { draft with replacement := some replacement } }]
  build := fun draft => do
    let range ← Json.required "range" draft.range
    let replacement ← Json.required "replacement" draft.replacement
    pure { range, replacement }

/-- Read an edit from the text of a message. -/
def ofJson (bytes : Bytes) : Except Json.Failure Edit :=
  Reader.runWhole (Reader.record .direct shape) bytes

end Edit

end ElmWorkbench
