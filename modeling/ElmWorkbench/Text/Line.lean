import ElmWorkbench.Text.Utf8
/-!
# Lines

A text is an ordered sequence of lines, each taken together with its terminator:
a newline, a carriage return and a newline, or nothing on a last line that is
not terminated. A text ends with its last line, so an empty text has no line and
a final newline opens none. Stored contents are cut at the byte `0x0A` and each
line is decoded by itself, so reading a few lines looks at those lines only.
-/

namespace ElmWorkbench

/-- A line and the terminator that belongs to it. -/
structure Line where
  /-- The characters that columns count. -/
  body : List Char
  /-- A newline, a carriage return and a newline, or nothing. -/
  terminator : List Char
  deriving DecidableEq, Repr

namespace Line

/-- All characters of the line. -/
def text (line : Line) : List Char :=
  line.body ++ line.terminator

/-- Tell the terminator of a line from its body. -/
def ofText (characters : List Char) : Line :=
  match characters.reverse with
  | '\n' :: '\r' :: body => { body := body.reverse, terminator := ['\r', '\n'] }
  | '\n' :: body => { body := body.reverse, terminator := ['\n'] }
  | _ => { body := characters, terminator := [] }

/-- Cut a sequence after every element that is `stop`; what follows the last one
is a piece of its own unless it is empty. -/
def cutAfter {Symbol : Type} [DecidableEq Symbol] (stop : Symbol) :
    List Symbol → List (List Symbol)
  | [] => []
  | symbol :: rest =>
    if symbol = stop then [symbol] :: cutAfter stop rest
    else match cutAfter stop rest with
      | [] => [[symbol]]
      | first :: others => (symbol :: first) :: others

/-- The lines of a text. -/
def ofChars (characters : List Char) : List Line :=
  (cutAfter '\n' characters).map ofText

/-- The byte that ends a stored line. -/
def newline : UInt8 := 0x0A

/-- The lines of stored contents, before they are decoded. -/
def stored (contents : Bytes) : List Bytes :=
  cutAfter newline contents

/-- Decode one stored line. -/
def ofStored? (bytes : Bytes) : Option Line :=
  (Utf8.decodeChars? bytes).map ofText

end Line

end ElmWorkbench
