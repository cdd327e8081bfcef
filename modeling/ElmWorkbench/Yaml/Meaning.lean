import ElmWorkbench.Json.Decimal
import ElmWorkbench.Toml.Scalar
import ElmWorkbench.Yaml.Node
/-!
# The meaning of plain scalars

A plain scalar is a missing value, a truth value or a number if it is spelled like one,
and a text otherwise. Digits with a needless leading zero are a text.
-/

namespace ElmWorkbench.Yaml

/-- What a plain scalar stands for. -/
inductive Meaning where
  | null
  | boolean (value : Bool)
  | integer (value : Int)
  /-- An integer past the bounds that values have. -/
  | hugeInteger
  /-- A number that is no integer, by its bits. -/
  | fraction (bits : UInt64)
  /-- A number that is not finite. -/
  | notFinite
  | text
  deriving DecidableEq, Repr

/-- Whether a text spells a missing value. -/
def isNullWord (text : String) : Bool :=
  ["null", "Null", "NULL", "~"].contains text

/-- The truth value that a text spells. -/
def boolean? (text : String) : Option Bool :=
  if ["true", "True", "TRUE"].contains text then some true
  else if ["false", "False", "FALSE"].contains text then some false
  else none

/-- The characters after a leading character, if that comes first. -/
def without (lead : Char) (characters : List Char) : List Char :=
  if characters.head? = some lead then characters.tail else characters

/-- Whether characters are digits with a needless leading zero, perhaps after a sign. -/
def hasLeadingZero (characters : List Char) : Bool :=
  let digits := match characters with
    | '-' :: rest => rest
    | '+' :: rest => rest
    | _ => characters
  match digits with
  | '0' :: rest => rest ≠ [] && rest.all Char.isDigit
  | _ => false

/-- The number that digits to a base spell; there must be one at least. -/
def naturalOf? (base : Nat) (digits : List Char) : Option Nat :=
  let isDigit := fun (digit : Char) => (Toml.hexDigit? digit).any (· < base)
  if digits = [] || !digits.all isDigit then none else Toml.valueOfDigits base digits

/-- The number that digits after a sign spell, where a prefix tells the base. -/
def magnitude? : List Char → Option Nat
  | '0' :: 'x' :: digits => naturalOf? 16 digits
  | '0' :: 'o' :: digits => naturalOf? 8 digits
  | '0' :: 'b' :: digits => naturalOf? 2 digits
  | digits => if hasLeadingZero digits then none else naturalOf? 10 digits

/-- One more than the greatest integer that 128 bits hold with a sign. -/
def wideBound : Int := 0x80000000000000000000000000000000

/-- An integer by its size; one that 128 bits do not hold is none. -/
def Meaning.ofInteger? (value : Int) : Option Meaning :=
  if Int64.minValue.toInt ≤ value && value < UInt64.size then some (.integer value)
  else if -wideBound ≤ value && value < 2 * wideBound then some .hugeInteger
  else none

/-- The integer that characters spell. -/
def integer? (characters : List Char) : Option Meaning :=
  match characters with
  | '-' :: rest => (magnitude? rest).bind fun value => Meaning.ofInteger? (-(value : Int))
  | _ => (magnitude? (without '+' characters)).bind fun value => Meaning.ofInteger? value

/-- The exponent that follows the digits of a number; zero if none follows. -/
def exponentOf? : List Char → Option Int
  | [] => some 0
  | mark :: rest =>
    if mark ≠ 'e' && mark ≠ 'E' then none
    else match rest with
      | '-' :: digits => (naturalOf? 10 digits).map fun value => -(value : Int)
      | '+' :: digits => (naturalOf? 10 digits).map Int.ofNat
      | digits => (naturalOf? 10 digits).map Int.ofNat

/-- The double that characters without a sign spell in digits. -/
def unsignedDouble? (characters : List Char) : Option Float :=
  let whole := characters.takeWhile Char.isDigit
  let afterWhole := characters.dropWhile Char.isDigit
  let (places, afterPlaces) := match afterWhole with
    | '.' :: rest => (rest.takeWhile Char.isDigit, rest.dropWhile Char.isDigit)
    | _ => ([], afterWhole)
  let digits := whole ++ places
  match naturalOf? 10 digits, exponentOf? afterPlaces with
  | some significand, some exponent =>
    some (Json.nearestDouble significand (exponent - places.length))
  | _, _ => none

/-- Words for numbers that are not finite, without a sign. -/
def isInfinity (characters : List Char) : Bool :=
  [".inf", ".Inf", ".INF"].contains (String.ofList characters)

/-- The number that characters spell, if it is no integer. A number in digits that is
too great is none. -/
def fraction? (characters : List Char) : Option Meaning :=
  if [".nan", ".NaN", ".NAN"].contains (String.ofList characters) then some .notFinite
  else
    let (negative, magnitude) := match characters with
      | '-' :: rest => (true, rest)
      | '+' :: rest => (false, rest)
      | _ => (false, characters)
    if isInfinity magnitude then some .notFinite
    else
      match unsignedDouble? magnitude with
      | none => none
      | some value =>
        if value.isInf then none
        else some (.fraction (if negative then -value else value).toBits)

/-- What a plain scalar stands for. -/
def Meaning.of (text : String) : Meaning :=
  let characters := text.toList
  if text.isEmpty || isNullWord text then .null
  else match boolean? text with
    | some value => .boolean value
    | none =>
      match integer? characters with
      | some meaning => meaning
      | none => if hasLeadingZero characters then .text else (fraction? characters).getD .text

end ElmWorkbench.Yaml
