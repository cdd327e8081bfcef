import ElmWorkbench.Edit.Range
import ElmWorkbench.Text.Line
/-!
# Splices

A splice cuts a text at one position, puts a replacement there and resumes at
another position. The lines outside are kept as they are; the line of the cut
keeps what stands before it, the line of the resumption what stands after it and
its terminator, and the lines between are dropped. Columns past the end of a
line stand for its end. A splice that resumes on a line which the text does not
have is refused.

Replacing a range resumes one column after its last position, inserting resumes
where it cuts. `Range.ofLine` gives what replacing a range would remove of a line.
-/

namespace ElmWorkbench

/-- A cut, its replacement and the place where the kept text resumes. -/
structure Splice where
  cut : Position
  resume : Position
  replacement : List Char
  deriving DecidableEq, Repr

namespace Splice

/-- Replace the text of a range. -/
def replacing (range : Range) (replacement : String) : Splice where
  cut := range.first
  resume := range.last.nextColumn
  replacement := replacement.toList

/-- Put a text before the character at a position. -/
def inserting (position : Position) (text : String) : Splice where
  cut := position
  resume := position
  replacement := text.toList

/-- What the splice leaves of the line with the given number. -/
def ofLine (splice : Splice) (number : Nat) (line : Line) : List Char :=
  if number < splice.cut.line.toNat || splice.resume.line.toNat < number then line.text
  else
    (if number = splice.cut.line.toNat then
      line.body.take splice.cut.column.toNat ++ splice.replacement
    else [])
    ++ (if number = splice.resume.line.toNat then
      line.body.drop splice.resume.column.toNat ++ line.terminator
    else [])

/-- Apply a splice to lines, of which the first has the given number. -/
def ofLines (splice : Splice) : Nat → List Line → List Char
  | _, [] => []
  | number, line :: rest => splice.ofLine number line ++ splice.ofLines (number + 1) rest

/-- Apply a splice to the lines of a text. -/
def apply (splice : Splice) (lines : List Line) : Except Error (List Char) :=
  if splice.resume.line.toNat < lines.length then .ok (splice.ofLines 0 lines)
  else .error (.rangeOutOfBounds splice.resume.line.toNat lines.length)

end Splice

namespace Range

/-- The part of a line, given its number, that a range spans. -/
def ofLine (range : Range) (number : Nat) (line : Line) : List Char :=
  if number < range.first.line.toNat || range.last.line.toNat < number then []
  else
    let skipped := if number = range.first.line.toNat then range.first.column.toNat else 0
    if number = range.last.line.toNat then
      (line.body.take range.last.nextColumn.column.toNat).drop skipped
    else line.body.drop skipped ++ line.terminator

end Range

/-- Replace the text of a range. -/
def replaceInText (content : String) (range : Range) (replacement : String) :
    Except Error String :=
  (Splice.replacing range replacement |>.apply (Line.ofChars content.toList)).map String.ofList

/-- One replacement of the text that a range spans. -/
structure Edit where
  range : Range
  replacement : String
  deriving DecidableEq

/-- Carry out an edit on a text. -/
def Edit.applyToText (edit : Edit) (content : String) : Except Error String :=
  replaceInText content edit.range edit.replacement

end ElmWorkbench
