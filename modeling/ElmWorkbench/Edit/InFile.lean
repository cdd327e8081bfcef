import ElmWorkbench.Edit.Splice
import ElmWorkbench.FileSystem.AtomicWrite
/-!
# Edits of files

A splice of a file reads the whole file as lines of text, and replaces the file
atomically if the splice succeeds. Reading a range looks at the lines up to one
after its last.
-/

namespace ElmWorkbench

/-- The contents of a file that an edit needs to exist. -/
def readExisting (files : FileSystem) (path : Path) : Except Error Bytes :=
  match files.readBytes path with
  | .ok contents => .ok contents
  | .error .notFound => .error (.fileNotFound path)
  | .error cause => .error (.system path cause)

/-- Decode stored lines of a file. -/
def decodeLines (path : Path) (lines : List Bytes) : Except Error (List Line) :=
  match lines.mapM Line.ofStored? with
  | some decoded => .ok decoded
  | none => .error (.system path .notText)

/-- What a splice makes of a file. -/
def Splice.applyToFile (splice : Splice) (files : FileSystem) (path : Path) :
    Except Error Bytes := do
  let contents ← readExisting files path
  let lines ← decodeLines path (Line.stored contents)
  let result ← splice.apply lines
  pure (Utf8.encodeChars result)

/-- Replace a file by what a splice makes of it. -/
def spliceFile (processId : Nat) (path : Path) (splice : Splice) : Attempt Unit := do
  let contents ← Attempt.look fun files => splice.applyToFile files path
  AtomicWrite.write processId path contents

/-- Replace the text of a range in a file. -/
def replaceInFile (processId : Nat) (path : Path) (range : Range) (replacement : String) :
    Attempt Unit :=
  spliceFile processId path (Splice.replacing range replacement)

/-- Carry out an edit on a file. -/
def Edit.applyToFile (edit : Edit) (processId : Nat) (path : Path) : Attempt Unit :=
  replaceInFile processId path edit.range edit.replacement

/-- Put a text before the character at a position of a file. -/
def insertInFile (processId : Nat) (path : Path) (position : Position) (text : String) :
    Attempt Unit :=
  spliceFile processId path (Splice.inserting position text)

/-- The part of stored lines that a range spans, and the number of lines counted, where the
first has the given number. Lines are decoded one after the other; the first one past the range
is still decoded, but not counted, and ends the reading. -/
def Range.readLines (range : Range) : Nat → List Bytes → Option (List Char × Nat)
  | number, [] => some ([], number)
  | number, bytes :: rest => do
    let line ← Line.ofStored? bytes
    if range.last.line.toNat < number then pure ([], number)
    else
      let (spanned, count) ← range.readLines (number + 1) rest
      pure (range.ofLine number line ++ spanned, count)

/-- The text of a range in a file. -/
def readRange (files : FileSystem) (path : Path) (range : Range) : Except Error String := do
  let contents ← readExisting files path
  match range.readLines 0 (Line.stored contents) with
  | none => .error (.system path .notText)
  | some (spanned, count) =>
    if range.last.line.toNat < count then pure (String.ofList spanned)
    else .error (.rangeOutOfBounds range.last.line.toNat count)

end ElmWorkbench
