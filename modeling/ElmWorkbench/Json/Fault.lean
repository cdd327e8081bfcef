import ElmWorkbench.Error
import ElmWorkbench.Json.Decimal
import ElmWorkbench.Text.Quoted
/-!
# Faults of JSON messages

What can be wrong with a message: its syntax, or the values that it holds. A
fault is a cause; `Fault.message` words it. Where it stands in the message is
told by a mark.
-/

namespace ElmWorkbench.Json

/-- A place in a message: a line, counted from one, and the number of bytes of
that line before it. -/
structure Mark where
  line : Nat
  column : Nat
  deriving DecidableEq, Repr

/-- What stands where a value was read. Lists and objects are told by their
brackets. -/
inductive Found where
  | null
  | boolean (value : Bool)
  | integer (value : Int)
  /-- A number with a fraction or an exponent, or past the integers; its bits. -/
  | fraction (bits : UInt64)
  | text (value : String)
  | list
  | object
  deriving DecidableEq, Repr

/-- The wording of what was found. -/
def Found.describe : Found → String
  | .null => "null"
  | .boolean value => "boolean `" ++ toString value ++ "`"
  | .integer value => "integer `" ++ toString value ++ "`"
  | .fraction bits => "floating point `" ++ doubleText bits ++ "`"
  | .text value => "string " ++ Text.quoted value
  | .list => "sequence"
  | .object => "map"

/-- What is wrong with a message. -/
inductive Fault where
  | endInValue
  | endInObject
  | endInList
  | endInText
  | valueExpected
  | wordExpected
  | colonExpected
  | commaOrBraceExpected
  | commaOrBracketExpected
  | keyNotText
  | trailingComma
  | trailingCharacters
  | numberMalformed
  | numberOutOfRange
  | escapeUnknown
  | controlCharacter
  | surrogateUnpaired
  | surrogateCutShort
  | notUnicode
  | tooDeep
  /-- A value of the wrong kind. -/
  | wrongKind (found : Found) (expected : String)
  /-- A value of the right kind that is not allowed. -/
  | wrongValue (found : String) (expected : String)
  /-- A list with the wrong number of elements. -/
  | wrongLength (length : Nat) (expected : String)
  | fieldMissing (name : String)
  | fieldRepeated (name : String)
  | variantUnknown (name : String) (known : List String)
  /-- The values are readable and make no sense together. -/
  | refused (cause : Error)
  deriving DecidableEq

/-- A list of alternatives in words. -/
def alternatives : List String → String
  | [only] => "`" ++ only ++ "`"
  | [first, second] => "`" ++ first ++ "` or `" ++ second ++ "`"
  | names => "one of " ++ String.intercalate ", " (names.map fun name => "`" ++ name ++ "`")

/-- The wording of a fault. -/
def Fault.message : Fault → String
  | .endInValue => "EOF while parsing a value"
  | .endInObject => "EOF while parsing an object"
  | .endInList => "EOF while parsing a list"
  | .endInText => "EOF while parsing a string"
  | .valueExpected => "expected value"
  | .wordExpected => "expected ident"
  | .colonExpected => "expected `:`"
  | .commaOrBraceExpected => "expected `,` or `\x7d`"
  | .commaOrBracketExpected => "expected `,` or `]`"
  | .keyNotText => "key must be a string"
  | .trailingComma => "trailing comma"
  | .trailingCharacters => "trailing characters"
  | .numberMalformed => "invalid number"
  | .numberOutOfRange => "number out of range"
  | .escapeUnknown => "invalid escape"
  | .controlCharacter => "control character (\\u0000-\\u001F) found while parsing a string"
  | .surrogateUnpaired => "lone leading surrogate in hex escape"
  | .surrogateCutShort => "unexpected end of hex escape"
  | .notUnicode => "invalid unicode code point"
  | .tooDeep => "recursion limit exceeded"
  | .wrongKind found expected => "invalid type: " ++ found.describe ++ ", expected " ++ expected
  | .wrongValue found expected => "invalid value: " ++ found ++ ", expected " ++ expected
  | .wrongLength length expected =>
    "invalid length " ++ toString length ++ ", expected " ++ expected
  | .fieldMissing name => "missing field `" ++ name ++ "`"
  | .fieldRepeated name => "duplicate field `" ++ name ++ "`"
  | .variantUnknown name known =>
    "unknown variant `" ++ name ++ "`, expected " ++ alternatives known
  | .refused cause => cause.message

/-- A fault and where it stands. -/
structure Failure where
  fault : Fault
  mark : Mark
  deriving DecidableEq

/-- The wording of a fault with its place. -/
def Failure.message (failure : Failure) : String :=
  failure.fault.message ++ " at line " ++ toString failure.mark.line ++ " column "
    ++ toString failure.mark.column

end ElmWorkbench.Json
