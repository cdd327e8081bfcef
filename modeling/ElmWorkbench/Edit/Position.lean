import ElmWorkbench.Text.Blank
/-!
# Positions

A place in a text: a line and a column, both counted from zero. Columns count
characters of the line's body. Positions are written `LINE:COLUMN` and ordered
by line, then by column.
-/

namespace ElmWorkbench

/-- A line and a column, both counted from zero. -/
structure Position where
  line : UInt64
  column : UInt64
  deriving DecidableEq, Repr

namespace Position

/-- Positions are ordered by line, then by column. -/
protected def le (left right : Position) : Prop :=
  left.line < right.line ∨ (left.line = right.line ∧ left.column ≤ right.column)

instance : LE Position := ⟨Position.le⟩

instance (left right : Position) : Decidable (left ≤ right) :=
  inferInstanceAs (Decidable (left.line < right.line ∨ _))

/-- The order of two positions. -/
protected def compare (left right : Position) : Ordering :=
  if left = right then .eq else if left ≤ right then .lt else .gt

instance : Ord Position := ⟨Position.compare⟩

/-- The position one column further; the last column stays where it is. -/
def nextColumn (position : Position) : Position :=
  if position.column.toNat + 1 < UInt64.size then
    { position with column := position.column + 1 }
  else position

/-- Write a position as `LINE:COLUMN`. -/
def display (position : Position) : String :=
  toString position.line.toNat ++ ":" ++ toString position.column.toNat

/-- The value of decimal digits, the most significant first. -/
def valueOfDigits (digits : List Char) : Nat :=
  digits.foldl (fun value digit => value * 10 + (digit.toNat - '0'.toNat)) 0

/-- Read ASCII digits of a value that fits. -/
def readDigits? (digits : List Char) : Option UInt64 :=
  if digits = [] || digits.any (fun digit => !digit.isDigit) then none
  else if valueOfDigits digits < UInt64.size then some (UInt64.ofNat (valueOfDigits digits))
  else none

/-- Read a count: an optional `+` and digits. -/
def readCount? : List Char → Option UInt64
  | '+' :: digits => readDigits? digits
  | digits => readDigits? digits

/-- Read `LINE:COLUMN`, with blanks allowed around the whole. The first colon
separates the halves. -/
def parse? (text : String) : Option Position :=
  let characters := Text.trim text.toList
  match characters.dropWhile (· ≠ ':') with
  | [] => none
  | _ :: columnText => do
    let line ← readCount? (characters.takeWhile (· ≠ ':'))
    let column ← readCount? columnText
    pure { line, column }

end Position

end ElmWorkbench
