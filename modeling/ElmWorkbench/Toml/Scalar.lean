import ElmWorkbench.Toml.Scan
/-!
# Numbers, words and dates in TOML

Values other than texts, arrays and tables. Integers have 64 bits, digits may be
grouped by underscores, and dates and times keep their text in one normal form.
-/

namespace ElmWorkbench.Toml

open Json (Value)

/-- The digits of a base that follow a digit, where an underscore may stand before
each of them. -/
def groupedFrom (isDigit : Char → Bool) : List Char → List Char × List Char
  | '_' :: digit :: rest =>
    if isDigit digit then
      let (digits, after) := groupedFrom isDigit rest
      (digit :: digits, after)
    else ([], '_' :: digit :: rest)
  | digit :: rest =>
    if isDigit digit then
      let (digits, after) := groupedFrom isDigit rest
      (digit :: digits, after)
    else ([], digit :: rest)
  | [] => ([], [])

/-- Digits of a base, where an underscore may stand between two of them. -/
def grouped (isDigit : Char → Bool) : Scan (List Char) :=
  fun rest =>
    match rest with
    | digit :: others =>
      if isDigit digit then
        let (digits, after) := groupedFrom isDigit others
        some (digit :: digits, after)
      else none
    | [] => none

/-- Whether a character is a digit to base eight. -/
def isOctal (character : Char) : Bool :=
  '0' ≤ character && character ≤ '7'

/-- Whether a character is a digit to base two. -/
def isBinary (character : Char) : Bool :=
  character = '0' || character = '1'

/-- Whether a character is a digit to base sixteen. -/
def isHexadecimal (character : Char) : Bool :=
  (hexDigit? character).isSome

/-- An integer that 64 bits hold. -/
def integerOf (value : Int) : Scan Value :=
  if Int64.minValue.toInt ≤ value && value ≤ Int64.maxValue.toInt then pure (.integer value)
  else failure

/-- An integer after the two characters that tell its base. -/
def based (base : Nat) (isDigit : Char → Bool) : Scan Value := do
  let digits ← grouped isDigit
  let value ← (valueOfDigits base digits : Option Nat)
  integerOf value

/-- An optional sign; tells a minus. -/
def sign : Scan Bool := do
  if ← Scan.found ['-'] then pure true
  else
    let _ ← Scan.found ['+']
    pure false

/-- Decimal digits without a needless leading zero. -/
def decimal : Scan (List Char) := do
  let digits ← grouped Char.isDigit
  match digits with
  | '0' :: _ :: _ => failure
  | _ => pure digits

/-- An integer. -/
def integer : Scan Value := do
  if ← Scan.found ['0', 'x'] then based 16 isHexadecimal
  else if ← Scan.found ['0', 'o'] then based 8 isOctal
  else if ← Scan.found ['0', 'b'] then based 2 isBinary
  else
    let negative ← sign
    let digits ← decimal
    let value ← (valueOfDigits 10 digits : Option Nat)
    integerOf (if negative then -(value : Int) else value)

/-- A double from its decimal digits and a power of ten. -/
def doubleOf (negative : Bool) (digits : List Char) (exponent : Int) : Option UInt64 :=
  (valueOfDigits 10 digits).bind fun significand =>
    let value := Json.nearestDouble significand exponent
    if value.isInf then none
    else some (if negative then -value else value).toBits

/-- An exponent of a power of ten. -/
def exponent : Scan Int := do
  Scan.word ['e'] <|> Scan.word ['E']
  let negative ← sign
  let digits ← grouped Char.isDigit
  let value ← (valueOfDigits 10 digits : Option Nat)
  pure (if negative then -(value : Int) else value)

/-- A number with a fraction or an exponent. -/
def fraction : Scan Value := do
  let negative ← sign
  let whole ← decimal
  let after ← if ← Scan.found ['.'] then some <$> grouped Char.isDigit else pure none
  let power ← Scan.attempt exponent
  if after.isNone && power.isNone then failure
  let places := after.getD []
  let bits ← (doubleOf negative (whole ++ places) (power.getD 0 - places.length) : Option UInt64)
  pure (.fraction bits)

/-- The numbers that are written as words. They are not finite, so no value stands for
them. -/
def numberWord : Scan Value := do
  let _ ← sign
  if ← Scan.found ['i', 'n', 'f'] then pure .null
  else
    Scan.word ['n', 'a', 'n']
    pure .null

/-- A truth value. -/
def boolean : Scan Value := do
  if ← Scan.found ['t', 'r', 'u', 'e'] then pure (.boolean true)
  else
    Scan.word ['f', 'a', 'l', 's', 'e']
    pure (.boolean false)

/-- Exactly `count` digits of a number within bounds. -/
def digitsWithin (count least greatest : Nat) : Scan (List Char) := do
  let digits := ((← Scan.left).take count).takeWhile Char.isDigit
  if digits.length < count then failure
  let value ← (valueOfDigits 10 digits : Option Nat)
  if value < least || greatest < value then failure
  Scan.word digits
  pure digits

/-- The number of days in a month. -/
def daysIn (year month : Nat) : Nat :=
  let leap := year % 4 = 0 && (year % 100 ≠ 0 || year % 400 = 0)
  if month = 2 then if leap then 29 else 28
  else if month = 4 || month = 6 || month = 9 || month = 11 then 30
  else 31

/-- A date. -/
def date : Scan (List Char) := do
  let year ← digitsWithin 4 0 9999
  Scan.word ['-']
  let month ← digitsWithin 2 1 12
  Scan.word ['-']
  let yearNumber ← (valueOfDigits 10 year : Option Nat)
  let monthNumber ← (valueOfDigits 10 month : Option Nat)
  let day ← digitsWithin 2 1 (daysIn yearNumber monthNumber)
  pure (year ++ '-' :: month ++ '-' :: day)

/-- The places after the point of a second, of which nine count and zeros at the end
do not. -/
def secondPlaces : Scan (List Char) := do
  if ← Scan.found ['.'] then
    let digits ← Scan.run Char.isDigit
    if digits = [] then failure
    let kept := ((digits.take 9).reverse.dropWhile (· = '0')).reverse
    pure (if kept = [] then [] else '.' :: kept)
  else pure []

/-- A time of day. -/
def time : Scan (List Char) := do
  let hour ← digitsWithin 2 0 23
  Scan.word [':']
  let minute ← digitsWithin 2 0 59
  Scan.word [':']
  let second ← digitsWithin 2 0 60
  let places ← secondPlaces
  pure (hour ++ ':' :: minute ++ ':' :: second ++ places)

/-- An offset from universal time. -/
def offset : Scan (List Char) := do
  match ← Scan.left with
  | first :: rest =>
    set rest
    if first = 'Z' || first = 'z' then pure ['Z']
    else if first = '+' || first = '-' then
      let hours ← digitsWithin 2 0 23
      Scan.word [':']
      let minutes ← digitsWithin 2 0 59
      pure (first :: hours ++ ':' :: minutes)
    else failure
  | [] => failure

/-- A time after a date, perhaps with an offset. -/
def timeOfDate : Scan (List Char) := do
  Scan.word ['T'] <|> Scan.word ['t'] <|> Scan.word [' ']
  let clock ← time
  let zone ← Scan.attempt offset
  pure ('T' :: clock ++ zone.getD [])

/-- The key under which a date or time stands by itself. -/
def dateKey : String := "$__toml_private_datetime"

/-- A date, a time, or both. -/
def dateOrTime : Scan Value := do
  let day ← Scan.attempt date
  let written ← match day with
    | none => time
    | some characters => do
      let clock ← Scan.attempt timeOfDate
      pure (characters ++ clock.getD [])
  pure (.object [(dateKey, .text (String.ofList written))])

/-- A value other than an array or a table. -/
def scalar : Scan Value :=
  .text <$> anyText <|> dateOrTime <|> fraction <|> integer <|> numberWord <|> boolean

end ElmWorkbench.Toml
