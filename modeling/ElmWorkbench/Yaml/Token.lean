import ElmWorkbench.Yaml.Block
import ElmWorkbench.Yaml.Plain
import ElmWorkbench.Yaml.Quoted
/-!
# Tokens of YAML texts

The words that a text consists of once indentation is turned into starts and ends of
lists and mappings. This module holds the tokens and those parts of a text that make
one token by themselves: scalars, names and directives.
-/

namespace ElmWorkbench.Yaml

/-- How a scalar is written. -/
inductive ScalarStyle where
  | plain
  | quoted
  /-- Several lines that stay as they are. -/
  | literal
  /-- Several lines that are folded. -/
  | folded
  deriving DecidableEq, Repr

/-- A word of a text. -/
inductive Token where
  | version (major minor : Nat)
  /-- A shorthand for the beginnings of tags. -/
  | shorthand (handle : List Char) (beginning : Bytes)
  | documentStart
  | documentEnd
  /-- The start of a list by indentation. -/
  | blockList
  /-- The start of a mapping by indentation. -/
  | blockMapping
  | blockEnd
  | flowList
  | flowListEnd
  | flowMapping
  | flowMappingEnd
  | comma
  | dash
  | key
  | value
  | alias (name : List Char)
  | anchor (name : List Char)
  | tag (handle : List Char) (ending : Bytes)
  | scalar (style : ScalarStyle) (text : List Char)
  deriving DecidableEq, Repr

/-- Whether a character may stand in a tag; the characters between brackets and commas
only where nothing else can be meant by them. -/
def isTagCharacter (alsoFlow : Bool) (character : Char) : Bool :=
  isNameCharacter character
    || [';', '/', '?', ':', '@', '&', '=', '+', '$', '.', '%', '!', '~', '*', '\x27', '(',
        ')'].contains character
    || (alsoFlow && [',', '[', ']'].contains character)

/-- The bytes of characters of a tag, in which a percent sign and two hexadecimal digits
stand for a byte. -/
def tagBytes? : List Char → Option Bytes
  | '%' :: high :: low :: rest => do
    let byte ← Toml.valueOfDigits 16 [high, low]
    let others ← tagBytes? rest
    pure (UInt8.ofNat byte :: others)
  | character :: rest =>
    if character = '%' then none
    else (tagBytes? rest).map (String.utf8EncodeChar character ++ ·)
  | [] => some []

/-- Take characters of a tag; bytes that are written by their numbers must make
characters. -/
def tagText (alsoFlow : Bool) : Take Bytes := do
  let characters ← Take.run (isTagCharacter alsoFlow)
  let bytes ← (tagBytes? characters : Option Bytes)
  if Utf8.isValid bytes then pure bytes else failure

/-- Take the handle of a tag, as far as one comes next. -/
def tagHandle : Take (List Char) := do
  if (← Take.peek) ≠ some '!' then failure
  Take.skip 1
  let name ← Take.run isNameCharacter
  if (← Take.peek) = some '!' then
    Take.skip 1
    pure ('!' :: name ++ ['!'])
  else pure ('!' :: name)

/-- Whether a handle is closed by a second exclamation mark. -/
def isClosedHandle (handle : List Char) : Bool :=
  1 < handle.length && handle.getLast? = some '!'

/-- Take a tag whose exclamation mark comes next, up to its end. -/
def tagToken : Take Token := do
  match ← Take.left with
  | _ :: '<' :: _ => do
    Take.skip 2
    let text ← tagText true
    if text = [] || (← Take.peek) ≠ some '>' then failure
    Take.skip 1
    pure (.tag [] text)
  | _ => do
    let handle ← tagHandle
    if isClosedHandle handle then
      let text ← tagText false
      if text = [] then failure
      pure (.tag handle text)
    else
      let text := Utf8.encodeChars handle.tail ++ (← tagText false)
      pure (if text = [] then .tag [] (Utf8.encodeChars ['!']) else .tag ['!'] text)

/-- Take a tag and check what follows it. -/
def tag (inFlow : Bool) : Take Token := do
  let token ← tagToken
  let next ← Take.peek
  if next.all isSpace || (inFlow && next = some ',') then pure token else failure

/-- Take the name after the mark of an anchor or alias. -/
def anchorName : Take (List Char) := do
  Take.skip 1
  let name ← Take.run isNameCharacter
  let next ← Take.peek
  let ends := next.all fun character =>
    isSpace character
      || ['?', ':', ',', ']', '\x7d', '%', '@', '\x60'].contains character
  if name = [] || !ends then failure
  pure name

/-- Take a number of a version. -/
def versionNumber : Take Nat := do
  let digits ← Take.run Char.isDigit
  if digits = [] || 9 < digits.length then failure
  (Toml.valueOfDigits 10 digits : Option Nat)

/-- Take the version that a directive tells. -/
def versionToken : Take Token := do
  let _ ← Take.run isBlank
  let major ← versionNumber
  if (← Take.peek) ≠ some '.' then failure
  Take.skip 1
  let minor ← versionNumber
  pure (.version major minor)

/-- Take the shorthand that a directive introduces. -/
def shorthandToken : Take Token := do
  let _ ← Take.run isBlank
  let handle ← tagHandle
  if handle ≠ ['!'] && !isClosedHandle handle then failure
  if !(← Take.peek).any isBlank then failure
  let _ ← Take.run isBlank
  let beginning ← tagText true
  if beginning = [] || !(← Take.peek).all isSpace then failure
  pure (.shorthand handle beginning)

/-- Take a directive, a line after a percent sign. -/
def directive : Take Token := do
  Take.skip 1
  let name ← Take.run isNameCharacter
  if !(← Take.peek).all isSpace then failure
  let token ←
    if name = "YAML".toList then versionToken
    else if name = "TAG".toList then shorthandToken
    else failure
  Take.lineRest
  pure token

end ElmWorkbench.Yaml
