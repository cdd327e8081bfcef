import ElmWorkbench.Json.Value
/-!
# Writing TOML

A table is written as its plain values, then its tables below headers. A text
stands between quotation marks if nothing in it needs an escape sequence, else
between apostrophes if it can, else over several lines if that avoids escapes. An
array of two or more elements takes one line for each. A missing value, an integer
past 64 bits and a path that is not UTF-8 have no form.
-/

namespace ElmWorkbench.Toml

open Json (Value)

/-- The longest run of a character in a text. -/
def longestRun (mark : Char) : Nat → List Char → Nat
  | current, [] => current
  | current, character :: rest =>
    if character = mark then longestRun mark (current + 1) rest
    else max current (longestRun mark 0 rest)

/-- Controls that cannot stand in a text without an escape sequence. -/
def needsEscape (character : Char) : Bool :=
  character ≠ '\t' && character ≠ '\n' && (character.toNat < 0x20 || character.toNat = 0x7F)

/-- A character number in four hexadecimal digits. -/
def fourDigits (code : Nat) : List Char :=
  let digit := fun (place : Nat) => (Nat.digitChar (code / Nat.pow 16 place % 16)).toUpper
  [digit 3, digit 2, digit 1, digit 0]

/-- A character with a backslash, as far as it needs one. Quotation marks are looked
at elsewhere. -/
def escaped (severalLines : Bool) (character : Char) : List Char :=
  match character with
  | '\x08' => ['\\', 'b']
  | '\t' => ['\\', 't']
  | '\n' => if severalLines then ['\n'] else ['\\', 'n']
  | '\x0c' => ['\\', 'f']
  | '\r' => ['\\', 'r']
  | '\\' => ['\\', '\\']
  | _ =>
    if needsEscape character then '\\' :: 'u' :: fourDigits character.toNat else [character]

/-- The inside of a text between quotation marks: a run of more marks than `allowed`
is interrupted by backslashes. -/
def escapedFrom (severalLines : Bool) (allowed : Nat) : Nat → List Char → List Char
  | _, [] => []
  | run, character :: rest =>
    if character = '"' then
      if run < allowed then '"' :: escapedFrom severalLines allowed (run + 1) rest
      else '\\' :: '"' :: escapedFrom severalLines allowed 0 rest
    else escaped severalLines character ++ escapedFrom severalLines allowed 0 rest

/-- The ways to write a text. -/
inductive Style where
  | basic
  | literal
  | basicLines
  | literalLines
  deriving DecidableEq, Repr

/-- The way a text is written. -/
def styleOf (characters : List Char) : Style :=
  let hasControl := characters.any needsEscape
  let hasBackslash := characters.contains '\\'
  let hasNewline := characters.contains '\n'
  let quotes := longestRun '"' 0 characters
  let apostrophes := longestRun '\x27' 0 characters
  if !hasControl && !hasBackslash && quotes = 0 && !hasNewline then .basic
  else if !hasControl && apostrophes = 0 && !hasNewline then .literal
  else if !hasControl && !hasBackslash && quotes ≤ 2 then .basicLines
  else if !hasControl && apostrophes ≤ 2 then .literalLines
  else if hasNewline then .basicLines
  else .basic

/-- A text in a given way. A text of several lines begins on a line of its own. -/
def writeStyled (style : Style) (characters : List Char) : List Char :=
  let lead := if characters.contains '\n' then ['\n'] else []
  match style with
  | .basic => '"' :: escapedFrom false 0 0 characters ++ ['"']
  | .literal => '\x27' :: characters ++ ['\x27']
  | .basicLines => ['"', '"', '"'] ++ lead ++ escapedFrom true 2 0 characters ++ ['"', '"', '"']
  | .literalLines =>
    ['\x27', '\x27', '\x27'] ++ lead ++ characters ++ ['\x27', '\x27', '\x27']

/-- A text as a value. -/
def writeText (text : String) : List Char :=
  writeStyled (styleOf text.toList) text.toList

/-- Whether a key needs no quotation marks. -/
def isBare (characters : List Char) : Bool :=
  characters ≠ [] && characters.all fun character =>
    character.isAlphanum || character = '-' || character = '_'

/-- A key. -/
def writeKey (key : String) : List Char :=
  let characters := key.toList
  if isBare characters then characters
  else match styleOf characters with
    | .literal => writeStyled .literal characters
    | _ => writeStyled .basic characters

/-- The integers that have a form. -/
def integerForm? (value : Int) : Option (List Char) :=
  if Int64.minValue.toInt ≤ value && value ≤ Int64.maxValue.toInt then
    some (toString value).toList
  else none

/-- Write elements between brackets, one a line if there are several. -/
def writeArray (elements : List (List Char)) : List Char :=
  match elements with
  | [] => ['[', ']']
  | [only] => '[' :: only ++ [']']
  | _ => '[' :: elements.flatMap (fun element => "\n    ".toList ++ element ++ [',']) ++ ['\n', ']']

/-- Write the entries of a table inside a value. -/
def writeInline (entries : List (List Char)) : List Char :=
  if entries = [] then ['\x7b', '\x7d']
  else ['\x7b', ' '] ++ List.intercalate [',', ' '] entries ++ [' ', '\x7d']

mutual

/-- A value on the right of a key. -/
def writeValue? : Value → Option (List Char)
  | .null => none
  | .boolean value => some (toString value).toList
  | .integer value => integerForm? value
  | .fraction bits => some (Json.doubleText bits).toList
  | .text value => some (writeText value)
  | .path value => value.text?.map writeText
  | .list elements => (writeElements? elements).map writeArray
  | .object entries => (writeEntries? entries).map writeInline

/-- The elements of an array. -/
def writeElements? : List Value → Option (List (List Char))
  | [] => some []
  | element :: rest => do
    let first ← writeValue? element
    let others ← writeElements? rest
    pure (first :: others)

/-- The entries of a table inside a value. -/
def writeEntries? : List (String × Value) → Option (List (List Char))
  | [] => some []
  | (key, value) :: rest => do
    let first ← writeValue? value
    let others ← writeEntries? rest
    pure ((writeKey key ++ [' ', '=', ' '] ++ first) :: others)

end

/-- What an entry of a table is written as. -/
inductive EntryForm where
  /-- A line with a key and a value. -/
  | plain
  /-- A table below a header. -/
  | table (entries : List (String × Value))
  /-- Tables below headers in double brackets. -/
  | tables (elements : List (List (String × Value)))

/-- The entries of each of several tables, if all values are tables. -/
def tablesOf? : List Value → Option (List (List (String × Value)))
  | [] => some []
  | .object entries :: rest => (tablesOf? rest).map (entries :: ·)
  | _ :: _ => none

/-- What an entry with a value is written as. -/
def EntryForm.of : Value → EntryForm
  | .object entries => .table entries
  | .list (first :: rest) =>
    match tablesOf? (first :: rest) with
    | some elements => .tables elements
    | none => .plain
  | _ => .plain

/-- Whether a value is written as one or several tables below headers. -/
def hasHeader (value : Value) : Bool :=
  match EntryForm.of value with
  | .plain => false
  | _ => true

/-- A header line. -/
def writeHeader (isOneOfSeveral : Bool) (path : List String) : List Char :=
  let inside := List.intercalate ['.'] (path.map writeKey)
  if isOneOfSeveral then ['[', '['] ++ inside ++ [']', ']', '\n'] else '[' :: inside ++ [']', '\n']

/-- The lines of the plain values of a table. -/
def plainLines? (entries : List (String × Value)) : Option (List Char) :=
  (entries.filter fun entry => !hasHeader entry.2).foldrM (fun entry rest => do
    let value ← writeValue? entry.2
    pure (writeKey entry.1 ++ [' ', '=', ' '] ++ value ++ '\n' :: rest)) []

/-- The sections of a table: its own, and those of the tables in it. A table that
holds only tables has no section of its own. The number bounds how deep tables nest. -/
def sections? : Nat → Bool → List String → List (String × Value) →
    Option (List (List Char))
  | 0, _, _, _ => none
  | depth + 1, isOneOfSeveral, path, entries => do
    let lines ← plainLines? entries
    let inner ← entries.mapM fun (key, value) =>
      match EntryForm.of value with
      | .plain => some []
      | .table inside => sections? depth false (path ++ [key]) inside
      | .tables elements =>
        (elements.mapM (sections? depth true (path ++ [key]))).map List.flatten
    let isHidden := !isOneOfSeveral && lines = [] && entries ≠ []
    let own := if path = [] then lines
      else if isHidden then []
      else writeHeader isOneOfSeveral path ++ lines
    pure (if own = [] then inner.flatten else own :: inner.flatten)

mutual

/-- How deep tables nest in a value. -/
def depthOf : Value → Nat
  | .list elements => depthOfElements elements + 1
  | .object entries => depthOfEntries entries + 1
  | _ => 0

/-- How deep tables nest in elements. -/
def depthOfElements : List Value → Nat
  | [] => 0
  | element :: rest => max (depthOf element) (depthOfElements rest)

/-- How deep tables nest in entries. -/
def depthOfEntries : List (String × Value) → Nat
  | [] => 0
  | (_, value) :: rest => max (depthOf value) (depthOfEntries rest)

end

/-- The document of a value; none if it has no form. Sections are separated by empty
lines. -/
def write? : Value → Option String
  | .object entries => do
    let sections ← sections? (depthOfEntries entries + 1) false [] entries
    pure (String.ofList (List.intercalate ['\n'] sections))
  | _ => none

end ElmWorkbench.Toml
