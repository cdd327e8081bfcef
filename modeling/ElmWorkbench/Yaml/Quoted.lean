import ElmWorkbench.Toml.Scan
import ElmWorkbench.Yaml.Cursor
/-!
# Quoted scalars in YAML

Scalars between apostrophes, in which only an apostrophe is written twice, and
between quotation marks, with escape sequences. White space around ends of lines is
folded, and a backslash joins two lines without it.
-/

namespace ElmWorkbench.Yaml

/-- The marks around a quoted scalar. -/
inductive Quotation where
  | single
  | double
  deriving DecidableEq, Repr

/-- The character of a mark. -/
def Quotation.mark : Quotation → Char
  | .single => '\x27'
  | .double => '"'

/-- The character that a letter stands for after a backslash. -/
def escapedLetter? : Char → Option Char
  | '0' => some '\x00'
  | 'a' => some '\x07'
  | 'b' => some '\x08'
  | 't' => some '\t'
  | '\t' => some '\t'
  | 'n' => some '\n'
  | 'v' => some '\x0b'
  | 'f' => some '\x0c'
  | 'r' => some '\r'
  | 'e' => some '\x1b'
  | ' ' => some ' '
  | '"' => some '"'
  | '/' => some '/'
  | '\\' => some '\\'
  | 'N' => some (Char.ofNat 0x85)
  | '_' => some (Char.ofNat 0xA0)
  | 'L' => some (Char.ofNat 0x2028)
  | 'P' => some (Char.ofNat 0x2029)
  | _ => none

/-- How many hexadecimal digits follow a letter after a backslash. -/
def escapedDigits? : Char → Option Nat
  | 'x' => some 2
  | 'u' => some 4
  | 'U' => some 8
  | _ => none

/-- Take the character that is numbered by the next `count` digits. -/
def numberedCharacter (count : Nat) : Take Char := do
  let digits := (← Take.left).take count
  if digits.length < count then failure
  let code ← (Toml.valueOfDigits 16 digits : Option Nat)
  if Nat.isValidChar code then
    Take.skip count
    pure (Char.ofNat code)
  else failure

/-- Take what follows a backslash. -/
def escape : Take Char := do
  match ← Take.peek with
  | none => failure
  | some letter =>
    Take.skip 1
    match escapedDigits? letter with
    | some count => numberedCharacter count
    | none => (escapedLetter? letter : Option Char)

/-- Take the rest of a quoted scalar. -/
def quotedFrom (quotation : Quotation) : Nat → Take (List Char)
  | 0 => failure
  | steps + 1 => do
    if (← get).atMarker then failure
    match ← Take.left with
    | [] => failure
    | character :: rest =>
      if isSpace character then
        let gap ← Gap.empty.take 0
        let others ← quotedFrom quotation steps
        pure (gap.text ++ others)
      else if character = quotation.mark then
        if quotation = .single && rest.head? = some '\x27' then
          Take.skip 2
          let others ← quotedFrom quotation steps
          pure ('\x27' :: others)
        else
          Take.skip 1
          pure []
      else if quotation = .double && character = '\\' then
        Take.skip 1
        if rest.head?.any isBreak then
          let _ ← Take.lineBreak
          let gap ← Gap.afterLine.take 0
          let others ← quotedFrom quotation steps
          pure (gap.text ++ others)
        else
          let meant ← escape
          let others ← quotedFrom quotation steps
          pure (meant :: others)
      else
        Take.skip 1
        let others ← quotedFrom quotation steps
        pure (character :: others)

/-- Take a quoted scalar whose opening mark comes next. -/
def quoted (quotation : Quotation) : Take (List Char) := do
  Take.skip 1
  quotedFrom quotation ((← Take.left).length + 1)

end ElmWorkbench.Yaml
