import ElmWorkbench.Error
/-!
# Ranges

An inclusive span between two positions of one text. Both ends belong to it, so
a range from a position to itself covers one character. No range starts after it
ends.

A text that is not written as a position is refused with that text.
-/

namespace ElmWorkbench

/-- The position that a text is written as. -/
def Position.ofText (text : String) : Except Error Position :=
  match parse? text with
  | some position => .ok position
  | none => .error (.positionUnreadable text)

/-- An inclusive span between two positions. -/
structure Range where
  first : Position
  last : Position
  /-- A range does not start after it ends. -/
  ordered : first ≤ last
  deriving DecidableEq

namespace Range

/-- The range between two positions, refused if the first comes after the last. -/
def make (first last : Position) : Except Error Range :=
  if ordered : first ≤ last then .ok { first, last, ordered }
  else .error (.rangeReversed first last)

/-- The range between two columns of one line. -/
def onLine (line firstColumn lastColumn : UInt64) : Except Error Range :=
  make { line, column := firstColumn } { line, column := lastColumn }

/-- Whether a range stays on one line. -/
def isSingleLine (range : Range) : Bool :=
  range.first.line = range.last.line

/-- Whether a position belongs to a range. -/
def contains (range : Range) (position : Position) : Bool :=
  range.first ≤ position && position ≤ range.last

/-- Write a range as `FIRST..=LAST`. -/
def display (range : Range) : String :=
  range.first.display ++ "..=" ++ range.last.display

end Range

end ElmWorkbench
