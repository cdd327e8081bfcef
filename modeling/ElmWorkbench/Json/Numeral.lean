import ElmWorkbench.Json.Cursor
/-!
# Numbers in messages

A number is an optional minus, digits without a needless leading zero, and
perhaps a fraction and an exponent. Without fraction and exponent it is an
integer if 64 bits hold it, where minus zero is none. All other numbers are
doubles: the digits are collected as long as 64 bits hold them, and the result is
scaled by the power of ten that remains, in double arithmetic.
-/

namespace ElmWorkbench.Json

/-- Whether a byte is a decimal digit. -/
def isDigit (byte : UInt8) : Bool :=
  0x30 ≤ byte && byte ≤ 0x39

/-- The value of a decimal digit. -/
def digitValue (byte : UInt8) : Nat :=
  byte.toNat - 0x30

/-- Collect digits onto `value` as long as the result stays below `bound`, and
count them. -/
def collect (bound value : Nat) : Bytes → Nat × Nat
  | [] => (value, 0)
  | digit :: rest =>
    let next := value * 10 + digitValue digit
    if next < bound then
      let (total, count) := collect bound next rest
      (total, count + 1)
    else (value, 0)

/-- The largest power of ten that a double holds. -/
def largestPower : Nat := 308

/-- A power of ten. -/
def powerOfTen (exponent : Nat) : Float :=
  Float.ofScientific 1 false exponent

/-- Divide by a power of ten, in steps that a double holds. -/
def scaleDown (value : Float) (exponent : Nat) : Float :=
  if exponent ≤ largestPower then value / powerOfTen exponent
  else if value == 0.0 then value
  else scaleDown (value / powerOfTen largestPower) (exponent - largestPower)
termination_by exponent
decreasing_by
  simp only [largestPower] at *
  omega

/-- `significand * 10 ^ exponent` as a double, unless it is infinite. -/
def scaled? (significand : Nat) (exponent : Int) : Option Float :=
  let value := (UInt64.ofNat significand).toFloat
  if exponent < 0 then some (scaleDown value exponent.natAbs)
  else if largestPower < exponent.natAbs then if value == 0.0 then some value else none
  else
    let result := value * powerOfTen exponent.natAbs
    if result.isInf then none else some result

/-- A number without fraction and exponent. -/
def integerOf (negative : Bool) (significand : Nat) : Found :=
  if !negative then .integer significand
  else if significand = 0 || Nat.pow 2 63 < significand then
    .fraction (-(UInt64.ofNat significand).toFloat).toBits
  else .integer (-(significand : Int))

namespace Reader

/-- Step over digits and give them. -/
def digits : Reader Bytes :=
  fun cursor => .ok (cursor.rest.takeWhile isDigit, cursor.skip isDigit)

/-- Whether the next byte begins an exponent. -/
def atExponent : Reader Bool := do
  let next ← peek
  pure (next = some 0x65 || next = some 0x45)

/-- Step over a sign and tell whether it is a minus. -/
def sign : Reader Bool := do
  match ← peek with
  | some byte =>
    if byte = 0x2D then step *> pure true
    else if byte = 0x2B then step *> pure false
    else pure false
  | none => pure false

/-- The double of collected digits and a power of ten. -/
def double (negative : Bool) (significand : Nat) (exponent : Int) : Reader Found := do
  match scaled? significand exponent with
  | none => fail .numberOutOfRange
  | some value => pure (.fraction (if negative then -value else value).toBits)

/-- The bound of exponents that are counted. -/
def exponentBound : Nat := Nat.pow 2 31

/-- Read an exponent that comes next. An exponent past the bound gives zero,
unless it makes the number too great. -/
def exponent (negative : Bool) (significand : Nat) (place : Int) : Reader Found := do
  step
  let down ← sign
  match (← get).rest with
  | [] => fail .endInValue
  | lead :: _ =>
    if isDigit lead then do
      let start ← get
      let written ← digits
      let (value, count) := collect exponentBound 0 written
      if count = written.length then
        double negative significand (place + (if down then -(value : Int) else value))
      else if significand ≠ 0 && !down then do
        set (start.advanceBy (count + 1))
        fail .numberOutOfRange
      else pure (.fraction (if negative then -(0.0 : Float) else 0.0).toBits)
    else do
      step
      fail .numberMalformed

/-- Read what follows the integer digits of a double. -/
def tail (negative : Bool) (significand : Nat) (place : Int) : Reader Found := do
  if ← atExponent then exponent negative significand place
  else double negative significand place

/-- Read a fraction whose point comes next. -/
def fraction (negative : Bool) (significand : Nat) (place : Int) : Reader Found := do
  step
  let written ← digits
  match written with
  | [] =>
    if (← peek).isSome then failNext .numberMalformed else failNext .endInValue
  | _ =>
    let (value, count) := collect UInt64.size significand written
    tail negative value (place - count)

/-- Read a number after its minus, if it has one. -/
def numeral (negative : Bool) : Reader Found := do
  match (← get).rest with
  | [] => fail .endInValue
  | lead :: _ =>
    if !isDigit lead then do
      step
      fail .numberMalformed
    else do
      let start ← get
      let written ← digits
      if lead = 0x30 && 1 < written.length then do
        set start.advance
        failNext .numberMalformed
      else do
        let (value, count) := collect UInt64.size 0 written
        let place : Int := written.length - count
        if (← peek) = some 0x2E then fraction negative value place
        else if count = written.length && !(← atExponent) then
          pure (integerOf negative value)
        else tail negative value place

/-- Step over a fraction if its point comes next. -/
def skipFraction : Reader Unit := do
  if (← peek) = some 0x2E then
    step
    if (← digits) = [] then failNext .numberMalformed

/-- Step over an exponent if its letter comes next. -/
def skipExponent : Reader Unit := do
  if ← atExponent then
    step
    let _ ← sign
    match (← get).rest with
    | [] => fail .numberMalformed
    | byte :: _ =>
      if isDigit byte then
        let _ ← digits
      else
        step
        fail .numberMalformed

/-- Step over a number after its minus, without regard to its size. -/
def skipNumeral : Reader Unit := do
  match (← get).rest with
  | [] => fail .numberMalformed
  | lead :: _ =>
    if !isDigit lead then do
      step
      fail .numberMalformed
    else do
      let start ← get
      let written ← digits
      if lead = 0x30 && 1 < written.length then do
        set start.advance
        failNext .numberMalformed
      else do
        skipFraction
        skipExponent

end Reader

end ElmWorkbench.Json
