/-!
# Decimal text of binary fractions

The shortest decimal that reads back as a given binary fraction. A finite
double is `significand * 2 ^ scale`; the numbers that round to it form an
interval around it. Of the decimals in that interval the one with the fewest
digits is taken, and of several the nearest. Decimal points up to sixteen places
from the front are written out, and others as a power of ten.
-/

namespace ElmWorkbench.Json

/-- A positive rational number, as a quotient. -/
structure Quotient where
  numerator : Nat
  denominator : Nat

namespace Quotient

/-- The quotient times a power of ten, which may be negative. -/
def timesPowerOfTen (value : Quotient) (exponent : Int) : Quotient :=
  if 0 ≤ exponent then { value with numerator := value.numerator * Nat.pow 10 exponent.toNat }
  else { value with denominator := value.denominator * Nat.pow 10 (-exponent).toNat }

/-- The greatest natural number below the quotient. -/
def floor (value : Quotient) : Nat :=
  value.numerator / value.denominator

/-- How many zeros follow the point of a quotient below one, counted up to
`bound`. -/
def leadingZeros (value : Quotient) : Nat → Nat
  | 0 => 0
  | bound + 1 =>
    if value.denominator ≤ value.numerator * 10 then 0
    else 1 + leadingZeros { value with numerator := value.numerator * 10 } bound

/-- The number of digits before the point, or less the zeros after it. -/
def pointPlace (value : Quotient) : Int :=
  if value.denominator ≤ value.numerator then ((toString value.floor).length : Int)
  else -(value.leadingZeros 400 : Int)

end Quotient

/-- The parts of a finite double without its sign. -/
structure BinaryFraction where
  significand : Nat
  scale : Int

namespace BinaryFraction

/-- What the first digit of a significand counts, which the bits of a double leave out. -/
def hiddenBit : Nat := Nat.pow 2 52

/-- The parts that the bits of a double encode. -/
def ofBits (bits : UInt64) : BinaryFraction :=
  let exponent : Nat := (bits.toNat / hiddenBit) % Nat.pow 2 11
  let fraction : Nat := bits.toNat % hiddenBit
  if exponent = 0 then { significand := fraction, scale := -1074 }
  else { significand := fraction + hiddenBit, scale := (exponent : Int) - 1075 }

/-- The value in quarters of the last place, so that the ends of its interval are
whole. -/
def quarters (value : BinaryFraction) (count : Nat) : Quotient :=
  let scale := value.scale - 2
  if 0 ≤ scale then { numerator := count * Nat.pow 2 scale.toNat, denominator := 1 }
  else { numerator := count, denominator := Nat.pow 2 (-scale).toNat }

/-- The lower and the upper end of the numbers that round to the value, in
quarters of the last place. -/
def interval (value : BinaryFraction) : Nat × Nat :=
  let middle := 4 * value.significand
  let below := if value.significand = hiddenBit && -1074 < value.scale then 1 else 2
  (middle - below, middle + 2)

/-- Whether `digits * 10 ^ exponent` rounds to the value. -/
def admits (value : BinaryFraction) (digits : Nat) (exponent : Int) : Bool :=
  let candidate := (Quotient.mk digits 1).timesPowerOfTen exponent
  let (low, high) := value.interval
  let lower := value.quarters low
  let upper := value.quarters high
  let left := lower.numerator * candidate.denominator
  let middleLow := candidate.numerator * lower.denominator
  let middleHigh := candidate.numerator * upper.denominator
  let right := upper.numerator * candidate.denominator
  if value.significand % 2 = 0 then left ≤ middleLow && middleHigh ≤ right
  else left < middleLow && middleHigh < right

/-- The nearest decimal with at most `count` digits that rounds to the value, as
digits and an exponent. -/
def shortestWith (value : BinaryFraction) (count : Nat) : Option (Nat × Int) :=
  let exact := value.quarters (4 * value.significand)
  let exponent := exact.pointPlace - count
  let scaled := exact.timesPowerOfTen (-exponent)
  let low := scaled.floor
  let lowFits := value.admits low exponent
  let highFits := value.admits (low + 1) exponent
  let nearerLow := 2 * (scaled.numerator - low * scaled.denominator) ≤ scaled.denominator
  if lowFits && (nearerLow || !highFits) then some (low, exponent)
  else if highFits then some (low + 1, exponent)
  else none

/-- The shortest decimal that rounds to the value, as digits and an exponent. -/
def shortest (value : BinaryFraction) : Nat × Int :=
  ((List.range 17).findSome? fun index => value.shortestWith (index + 1)).getD (0, 0)

end BinaryFraction

/-- How far a decimal point lies from the front of the decimals that a double may be
nearest to, at most. -/
def greatestPlace : Int := 400

/-- The double nearest to `significand * 10 ^ exponent`, which is infinite if the number
is too great. -/
def nearestDouble (significand : Nat) (exponent : Int) : Float :=
  let place := exponent + (toString significand).length
  if significand = 0 || place < -greatestPlace then 0.0
  else if greatestPlace < place then 1.0 / 0.0
  else Float.ofScientific significand (exponent < 0) exponent.natAbs

/-- Drop the zeros at the end of digits. -/
def dropTrailingZeros (digits : List Char) : List Char :=
  (digits.reverse.dropWhile (· = '0')).reverse

/-- Write digits with the decimal point `place` digits from the front. -/
def placePoint (digits : List Char) (place : Int) : List Char :=
  let count : Int := digits.length
  if count ≤ place && place ≤ 16 then
    digits ++ List.replicate (place - count).toNat '0' ++ ".0".toList
  else if 0 < place && place ≤ 16 then
    digits.take place.toNat ++ '.' :: digits.drop place.toNat
  else if -5 < place && place ≤ 0 then
    "0.".toList ++ List.replicate (-place).toNat '0' ++ digits
  else
    let fraction := if count = 1 then [] else '.' :: digits.drop 1
    let exponent := place - 1
    let sign := if exponent < 0 then '-' else '+'
    digits.take 1 ++ fraction ++ 'e' :: sign :: (toString exponent.natAbs).toList

/-- The text of the finite double with the given bits. -/
def doubleText (bits : UInt64) : String :=
  let value := BinaryFraction.ofBits bits
  let sign := if Nat.pow 2 63 ≤ bits.toNat then ['-'] else []
  if value.significand = 0 then String.ofList (sign ++ "0.0".toList)
  else
    let (digits, exponent) := value.shortest
    let written := (toString digits).toList
    let kept := dropTrailingZeros written
    String.ofList (sign ++ placePoint kept (written.length + exponent))

end ElmWorkbench.Json
