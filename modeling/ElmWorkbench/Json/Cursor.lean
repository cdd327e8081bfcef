import ElmWorkbench.Json.Fault
/-!
# Reading a message from its front

A cursor splits a message into what is read and what is not. A reader takes a
cursor and gives a value and the cursor after it, or a problem. Most problems
stand at a place; one that concerns a bracketed value as a whole is pending until
the bracket around it is given up, and is then placed there.
-/

namespace ElmWorkbench.Json

/-- A place between two bytes of a message. -/
structure Cursor where
  /-- The bytes before the place, the nearest first. -/
  before : Bytes
  /-- The bytes after the place. -/
  rest : Bytes
  deriving DecidableEq, Repr

/-- JSON's blanks: space, newline, tab and carriage return. -/
def isSpace (byte : UInt8) : Bool :=
  byte = 0x20 || byte = 0x0A || byte = 0x09 || byte = 0x0D

namespace Cursor

/-- The start of a message. -/
def start (bytes : Bytes) : Cursor :=
  { before := [], rest := bytes }

/-- Step over one byte; the end stays where it is. -/
def advance (cursor : Cursor) : Cursor :=
  match cursor.rest with
  | [] => cursor
  | byte :: rest => { before := byte :: cursor.before, rest }

/-- Step over `count` bytes. -/
def advanceBy (cursor : Cursor) : Nat → Cursor
  | 0 => cursor
  | count + 1 => cursor.advance.advanceBy count

/-- Step over bytes as long as they pass a test. -/
def skipFrom (test : UInt8 → Bool) (before : Bytes) : Bytes → Cursor
  | [] => { before, rest := [] }
  | byte :: rest =>
    if test byte then skipFrom test (byte :: before) rest
    else { before, rest := byte :: rest }

/-- Step over bytes as long as they pass a test. -/
def skip (cursor : Cursor) (test : UInt8 → Bool) : Cursor :=
  skipFrom test cursor.before cursor.rest

/-- Step over blanks. -/
def skipSpace (cursor : Cursor) : Cursor :=
  cursor.skip isSpace

/-- Step over the next byte if it is the given one. -/
def skipIf (cursor : Cursor) (byte : UInt8) : Cursor :=
  if cursor.rest.head? = some byte then cursor.advance else cursor

/-- The mark of a place. -/
def mark (cursor : Cursor) : Mark where
  line := 1 + cursor.before.count 0x0A
  column := (cursor.before.takeWhile (· ≠ 0x0A)).length

/-- The mark by which the next byte is told. -/
def nextMark (cursor : Cursor) : Mark :=
  cursor.advance.mark

end Cursor

/-- Why a reader gives up. -/
inductive Problem where
  /-- A fault with its place. -/
  | placed (failure : Failure)
  /-- A fault of a bracketed value as a whole, and the cursor at which it shows. -/
  | pending (fault : Fault) (cursor : Cursor)

/-- A reader of a value from the front of what is left of a message. -/
abbrev Reader := StateT Cursor (Except Problem)

namespace Reader

/-- Give up with a fault about what has just been read. -/
def fail {Value : Type} (fault : Fault) : Reader Value :=
  fun cursor => .error (.placed { fault, mark := cursor.mark })

/-- Give up with a fault about the next byte. -/
def failNext {Value : Type} (fault : Fault) : Reader Value :=
  fun cursor => .error (.placed { fault, mark := cursor.nextMark })

/-- Give up with a fault about the whole that is being read. -/
def failWhole {Value : Type} (fault : Fault) : Reader Value :=
  fun cursor => .error (.pending fault cursor)

/-- The next byte, which is not read yet. -/
def peek : Reader (Option UInt8) :=
  fun cursor => .ok (cursor.rest.head?, cursor)

/-- Step over blanks and give the next byte, which is not read yet. -/
def peekSolid : Reader (Option UInt8) :=
  fun cursor => .ok (cursor.skipSpace.rest.head?, cursor.skipSpace)

/-- Read one byte. -/
def step : Reader Unit :=
  fun cursor => .ok ((), cursor.advance)

/-- Read one byte and give it, if there is one. -/
def next : Reader (Option UInt8) :=
  fun cursor => .ok (cursor.rest.head?, cursor.advance)

/-- Turn a pending fault into one at the place that a cursor function finds. -/
def settle {Value : Type} (place : Cursor → Cursor) (reader : Reader Value) : Reader Value :=
  fun cursor =>
    match reader cursor with
    | .error (.pending fault stopped) => .error (.placed { fault, mark := (place stopped).mark })
    | result => result

/-- Where the fault of an object is placed: after its closing brace if that comes
next. -/
def placeInObject (cursor : Cursor) : Cursor :=
  cursor.skipSpace.skipIf 0x7D

/-- Where the fault of a list is placed: after its closing bracket if that comes
next, else before the next element. -/
def placeInList (cursor : Cursor) : Cursor :=
  let solid := cursor.skipSpace
  if solid.rest.head? = some 0x2C then solid.advance.skipSpace else solid.skipIf 0x5D

/-- Read the end of an object. -/
def endObject : Reader Unit := do
  match ← peekSolid with
  | none => failNext .endInObject
  | some byte =>
    if byte = 0x7D then step
    else if byte = 0x2C then failNext .trailingComma
    else failNext .trailingCharacters

/-- Read the end of a list. -/
def endList : Reader Unit := do
  match ← peekSolid with
  | none => failNext .endInList
  | some byte =>
    if byte = 0x5D then step
    else if byte = 0x2C then do
      step
      if (← peekSolid) = some 0x5D then failNext .trailingComma
      else failNext .trailingCharacters
    else failNext .trailingCharacters

/-- Read an object whose opening brace comes next, given a reader of its inside. -/
def inObject {Value : Type} (inside : Reader Value) : Reader Value := do
  step
  let value ← settle placeInObject inside
  endObject
  pure value

/-- Read a list whose opening bracket comes next, given a reader of its inside. -/
def inList {Value : Type} (inside : Reader Value) : Reader Value := do
  step
  let value ← settle placeInList inside
  endList
  pure value

/-- Read a colon. -/
def colon : Reader Unit := do
  match ← peekSolid with
  | none => failNext .endInObject
  | some byte => if byte = 0x3A then step else failNext .colonExpected

/-- Read a whole message: nothing but blanks may follow the value. A fault that
is still pending is placed where it shows. -/
def runWhole {Value : Type} (reader : Reader Value) (bytes : Bytes) : Except Failure Value :=
  match reader (Cursor.start bytes) with
  | .error (.placed failure) => .error failure
  | .error (.pending fault cursor) => .error { fault, mark := cursor.mark }
  | .ok (value, cursor) =>
    let stopped := cursor.skipSpace
    if stopped.rest = [] then .ok value
    else .error { fault := .trailingCharacters, mark := stopped.nextMark }

end Reader

end ElmWorkbench.Json
