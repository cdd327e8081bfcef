import ElmWorkbench.Yaml.Cursor
/-!
# Scalars of several lines in YAML

Scalars that stand indented below a mark. After `|` lines stay as they are, after
`>` they are folded. What follows the mark tells how the ends of lines after the text
count, and perhaps how far it is indented.
-/

namespace ElmWorkbench.Yaml

/-- How the ends of lines after a text count. -/
inductive Chomping where
  /-- The last line ends, and empty lines after it do not count. -/
  | clip
  /-- The last line does not end. -/
  | strip
  /-- Empty lines count. -/
  | keep
  deriving DecidableEq, Repr

/-- What stands after the mark of a block. -/
structure BlockHeader where
  chomping : Chomping
  /-- How much deeper than its surroundings a block is indented, if that is said. -/
  increment : Option Nat
  deriving Repr

/-- Take how the ends of lines count. -/
def takeChomping : Take Chomping := do
  match ← Take.peek with
  | some '+' => Take.skip 1 *> pure .keep
  | some '-' => Take.skip 1 *> pure .strip
  | _ => pure .clip

/-- Take how much deeper a block is indented. -/
def takeIncrement : Take (Option Nat) := do
  match ← Take.peek with
  | some character =>
    if character = '0' then failure
    else if character.isDigit then
      Take.skip 1
      pure (some (character.toNat - '0'.toNat))
    else pure none
  | none => pure none

/-- Take what stands after the mark of a block, in either order. -/
def takeHeader : Take BlockHeader := do
  let first ← takeChomping
  let increment ← takeIncrement
  if first = .clip && increment.isSome then
    pure { chomping := ← takeChomping, increment }
  else pure { chomping := first, increment }

/-- Take indentation and empty lines: the ends of the lines, and the greatest column
that was met. An indentation that is not known yet has no bound. -/
def blankLinesFrom (indent : Option Nat) : Nat → List Char → Nat → Take (List Char × Nat)
  | 0, _, _ => failure
  | steps + 1, breaks, deepest => do
    let column := (← get).column
    let blanks := ((← Take.left).takeWhile (· = ' ')).length
    Take.skip (match indent with
      | none => blanks
      | some bound => min blanks (bound - column))
    let reached := (← get).column
    let deeper := max deepest reached
    match ← Take.peek with
    | some character =>
      if character = '\t' && indent.all (reached < ·) then failure
      else if isBreak character then
        let written ← Take.lineBreak
        blankLinesFrom indent steps (breaks ++ written) deeper
      else pure (breaks, deeper)
    | none => pure (breaks, deeper)

/-- Take indentation and empty lines. -/
def blankLines (indent : Option Nat) : Take (List Char × Nat) := do
  blankLinesFrom indent ((← Take.left).length + 1) [] 0

/-- The line breaks that stand between two lines of a block, and whether the line
before them begins with a blank. -/
structure Between where
  lineEnd : List Char
  emptyLines : List Char
  afterIndented : Bool

/-- What stands for line breaks in the text. In a folded block the end of a line
between two lines that do not begin with a blank becomes a blank, or nothing if empty
lines follow. -/
def Between.text (between : Between) (folded beforeIndented : Bool) : List Char :=
  if folded && between.lineEnd.head? = some '\n' && !between.afterIndented && !beforeIndented then
    (if between.emptyLines = [] then [' '] else []) ++ between.emptyLines
  else between.lineEnd ++ between.emptyLines

/-- Take the lines of a block that is indented to a column: its text, and the breaks
after it. -/
def blockFrom (folded : Bool) (indent : Nat) : Nat → Between → Take (List Char × Between)
  | 0, _ => failure
  | steps + 1, between => do
    match ← Take.peek with
    | none => pure ([], between)
    | some first =>
      if (← get).column ≠ indent then pure ([], between)
      else
        let content ← Take.run fun character => !isBreak character
        let lineEnd ← Take.lineBreak
        let (emptyLines, _) ← blankLines (some indent)
        let (others, last) ← blockFrom folded indent steps
          { lineEnd, emptyLines, afterIndented := isBlank first }
        pure (between.text folded (isBlank first) ++ content ++ others, last)

/-- Take a scalar of several lines whose mark comes next. Its surroundings are indented
to `surrounding`, if they are a list or mapping. -/
def block (folded : Bool) (surrounding : Option Nat) : Take (List Char) := do
  Take.skip 1
  let header ← takeHeader
  Take.lineRest
  let known := header.increment.map (surrounding.getD 0 + ·)
  let (leading, deepest) ← blankLines known
  let least := match surrounding with
    | some column => column + 1
    | none => 1
  let indent := known.getD (max deepest least)
  let steps := (← Take.left).length + 1
  let (content, last) ← blockFrom folded indent steps
    { lineEnd := [], emptyLines := leading, afterIndented := false }
  let ends := match header.chomping with
    | .strip => []
    | .clip => last.lineEnd
    | .keep => last.lineEnd ++ last.emptyLines
  pure (content ++ ends)

end ElmWorkbench.Yaml
