import ElmWorkbench.Yaml.Cursor
/-!
# Plain scalars in YAML

Scalars without marks. They end before a colon at the end of a word, before a comment
and before a line that is not indented enough; between brackets also before the
characters that structure lists and mappings there.
-/

namespace ElmWorkbench.Yaml

/-- Characters that structure lists and mappings between brackets. -/
def isFlowIndicator (character : Char) : Bool :=
  character = ',' || character = '[' || character = ']' || character = '\x7b'
    || character = '\x7d'

/-- Characters that begin no plain scalar. -/
def isIndicator (character : Char) : Bool :=
  isFlowIndicator character
    || ['-', '?', ':', '#', '&', '*', '!', '|', '>', '\x27', '"', '%', '@', '\x60'].contains
      character

/-- Whether a plain scalar begins with the given characters. -/
def startsPlain (inFlow : Bool) : List Char → Bool
  | [] => false
  | character :: rest =>
    !(isSpace character || isIndicator character)
      || (character = '-' && !rest.head?.any isBlank)
      || (!inFlow && (character = '?' || character = ':') && !endsWord rest)

/-- The characters of a plain scalar up to white space or its end. Between brackets a
colon before a structuring character is refused. -/
def plainWord? (inFlow : Bool) : List Char → Option (List Char)
  | [] => some []
  | character :: rest =>
    if isSpace character then some []
    else if inFlow && character = ':'
        && rest.head?.any (fun next => isFlowIndicator next || next = '?') then none
    else if character = ':' && endsWord rest then some []
    else if inFlow && isFlowIndicator character then some []
    else (plainWord? inFlow rest).map (character :: ·)

/-- A plain scalar, and whether a line ends in the white space after it. -/
structure Plain where
  text : List Char
  crossesLine : Bool

/-- Take the rest of a plain scalar that must be indented to column `indent`; the gap
before it belongs to it if more of it follows. -/
def plainFrom (inFlow : Bool) (indent : Nat) : Nat → Gap → Take Plain
  | 0, _ => failure
  | steps + 1, gap => do
    let ended : Plain := { text := [], crossesLine := gap.crossesLine }
    if (← get).atMarker || (← Take.peek) = some '#' then pure ended
    else
      match plainWord? inFlow (← Take.left) with
      | none => failure
      | some [] => pure ended
      | some word => do
        Take.skip word.length
        if (← Take.peek).any isSpace then
          let after ← Gap.empty.take indent
          if !inFlow && (← get).column < indent then
            pure { text := gap.text ++ word, crossesLine := after.crossesLine }
          else
            let others ← plainFrom inFlow indent steps after
            pure { others with text := gap.text ++ word ++ others.text }
        else pure { text := gap.text ++ word, crossesLine := false }

/-- Take a plain scalar. -/
def plain (inFlow : Bool) (indent : Nat) : Take Plain := do
  plainFrom inFlow indent ((← Take.left).length + 1) Gap.empty

end ElmWorkbench.Yaml
