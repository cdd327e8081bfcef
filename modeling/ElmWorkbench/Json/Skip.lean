import ElmWorkbench.Json.Numeral
import ElmWorkbench.Json.Quotation
import ElmWorkbench.Json.Token
/-!
# Skipping values

Stepping over a value that nobody uses. Only its syntax is looked at, and brackets
may nest to any depth: the brackets that are open are kept in a list, the
innermost first.
-/

namespace ElmWorkbench.Json

/-- A kind of bracket. -/
inductive Bracket where
  | list
  | object
  deriving DecidableEq, Repr

namespace Bracket

/-- The byte that closes a bracket. -/
def closing : Bracket → UInt8
  | .list => 0x5D
  | .object => 0x7D

/-- The message ends inside a bracket. -/
def endInside : Bracket → Fault
  | .list => .endInList
  | .object => .endInObject

/-- An element is not followed by a comma or the end of the bracket. -/
def commaOrEndExpected : Bracket → Fault
  | .list => .commaOrBracketExpected
  | .object => .commaOrBraceExpected

end Bracket

/-- What may come next while values are skipped. -/
inductive Awaited where
  | value
  /-- The first element of the innermost bracket, or its end. -/
  | firstOrEnd
  /-- The next element of the innermost bracket after a comma, or its end. -/
  | commaOrEnd
  deriving DecidableEq, Repr

namespace Reader

/-- Skip a single value or the opening of a bracket; gives the bracket. -/
def skipToken : Reader (Option Bracket) := do
  match ← peekSolid with
  | none => failNext .endInValue
  | some byte =>
    if byte = 0x6E then
      let _ ← word [0x75, 0x6C, 0x6C] .null
      pure none
    else if byte = 0x74 then
      let _ ← word [0x72, 0x75, 0x65] .null
      pure none
    else if byte = 0x66 then
      let _ ← word [0x61, 0x6C, 0x73, 0x65] .null
      pure none
    else if byte = 0x2D then step *> skipNumeral *> pure none
    else if isDigit byte then skipNumeral *> pure none
    else if byte = quote then skipQuotation *> pure none
    else if byte = 0x5B then step *> pure (some .list)
    else if byte = 0x7B then step *> pure (some .object)
    else failNext .valueExpected

/-- Skip what stands before the value of an element: a key and a colon in an
object. -/
def skipKey : Bracket → Reader Unit
  | .list => pure ()
  | .object => do
    match ← peekSolid with
    | none => failNext .endInObject
    | some byte =>
      if byte = quote then
        skipQuotation
        colon
      else failNext .keyNotText

/-- Skip as long as brackets are open. The first number bounds the steps. -/
def skipWithin : Nat → Awaited → List Bracket → Reader Unit
  | 0, _, _ => failNext .endInValue
  | steps + 1, .value, opened => do
    match ← skipToken with
    | none => skipWithin steps .commaOrEnd opened
    | some bracket => skipWithin steps .firstOrEnd (bracket :: opened)
  | _ + 1, _, [] => pure ()
  | steps + 1, awaited, bracket :: outer => do
    match ← peekSolid with
    | none => failNext bracket.endInside
    | some byte =>
      if byte = bracket.closing then
        step
        skipWithin steps .commaOrEnd outer
      else if awaited = .firstOrEnd then
        skipKey bracket
        skipWithin steps .value (bracket :: outer)
      else if byte = 0x2C then
        step
        skipKey bracket
        skipWithin steps .value (bracket :: outer)
      else failNext bracket.commaOrEndExpected

/-- Skip a value. -/
def skipValue : Reader Unit := do
  skipWithin (2 * (← get).rest.length + 2) .value []

end Reader

end ElmWorkbench.Json
