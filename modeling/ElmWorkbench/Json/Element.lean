import ElmWorkbench.Json.Token
/-!
# Lists and objects in messages

Reading the elements of a list and the entries of an object, separated by commas
and without one at the end. A loop over them takes a bound on its steps, which is
the number of bytes that are left, because every element takes one.
-/

namespace ElmWorkbench.Json

/-- The number of elements in words. -/
def countOfElements (count : Nat) : String :=
  toString count ++ (if count = 1 then " element" else " elements")

namespace Reader

/-- Step to the next element of a list; false at its end. -/
def anotherElement (first : Bool) : Reader Bool := do
  match ← peekSolid with
  | none => failNext .endInList
  | some byte =>
    if byte = 0x5D then pure false
    else if first then pure true
    else if byte = 0x2C then
      step
      match ← peekSolid with
      | none => failNext .endInValue
      | some follower => if follower = 0x5D then failNext .trailingComma else pure true
    else failNext .commaOrBracketExpected

/-- Step to the next key of an object; false at its end. -/
def anotherKey (first : Bool) : Reader Bool := do
  match ← peekSolid with
  | none => failNext .endInObject
  | some byte =>
    if byte = 0x7D then pure false
    else if first then if byte = quote then pure true else failNext .keyNotText
    else if byte = 0x2C then
      step
      match ← peekSolid with
      | none => failNext .endInValue
      | some follower =>
        if follower = quote then pure true
        else if follower = 0x7D then failNext .trailingComma
        else failNext .keyNotText
    else failNext .commaOrBraceExpected

/-- Read elements up to the end of a list. -/
def elementsFrom {Value : Type} (read : Reader Value) : Nat → Bool → Reader (List Value)
  | 0, _ => failNext .endInList
  | steps + 1, first => do
    if ← anotherElement first then
      let value ← read
      let rest ← elementsFrom read steps false
      pure (value :: rest)
    else pure []

/-- Read the elements of a list after its opening bracket. -/
def elements {Value : Type} (read : Reader Value) : Reader (List Value) := do
  elementsFrom read ((← get).rest.length + 1) true

/-- Read entries up to the end of an object; `read` continues after a key. -/
def entriesFrom {State : Type} (read : State → String → Reader State) :
    Nat → Bool → State → Reader State
  | 0, _, _ => failNext .endInObject
  | steps + 1, first, state => do
    if ← anotherKey first then
      let key ← quotation
      let next ← read state key
      entriesFrom read steps false next
    else pure state

/-- Read the entries of an object after its opening brace. -/
def entries {State : Type} (read : State → String → Reader State) (start : State) :
    Reader State := do
  entriesFrom read ((← get).rest.length + 1) true start

/-- Read a list of values of one kind. -/
def listOf {Value : Type} (read : Reader Value) : Reader (List Value) := do
  match ← token with
  | .list => inList (elements read)
  | found => fail (.wrongKind found "a sequence")

/-- Read an object with values of one kind, as its entries in order. -/
def entriesOf {Value : Type} (read : Reader Value) : Reader (List (String × Value)) := do
  match ← token with
  | .object =>
    inObject (entries (fun found key => do
      colon
      let value ← read
      pure (found ++ [(key, value)])) [])
  | found => fail (.wrongKind found "a map")

end Reader

end ElmWorkbench.Json
