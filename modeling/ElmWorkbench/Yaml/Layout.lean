import ElmWorkbench.Yaml.Token
/-!
# Layout of YAML texts

A text is turned into tokens from its front. The indentation of its lines opens and
closes lists and mappings, and a colon shows that what stands before it on the same
line is a key: then the token for a key is put where that began.
-/

namespace ElmWorkbench.Yaml

/-- A place where a key may begin. -/
structure KeyPlace where
  /-- The number of tokens before it. -/
  position : Nat
  cursor : Cursor
  /-- Whether the indentation allows nothing but a key. -/
  isRequired : Bool
  deriving Repr

/-- The longest key that needs no mark. -/
def keyLimit : Nat := 1024

/-- A text that is being turned into tokens. -/
structure Layout where
  cursor : Cursor
  /-- The tokens so far, the latest first. -/
  tokens : List Token
  /-- The columns of the lists and mappings that indentation has opened, the innermost
  first. -/
  columns : List Nat
  /-- Where a key may have begun since the innermost bracket. -/
  keyPlace : Option KeyPlace
  /-- Where a key may have begun before each open bracket, the innermost first. -/
  outerPlaces : List (Option KeyPlace)
  /-- Whether a key may begin here. -/
  keyAllowed : Bool

namespace Layout

/-- The layout before a text. -/
def start (text : List Char) : Layout where
  cursor := Cursor.start text
  tokens := []
  columns := []
  keyPlace := none
  outerPlaces := []
  keyAllowed := true

/-- Whether a bracket is open. -/
def inFlow (layout : Layout) : Bool :=
  !layout.outerPlaces.isEmpty

/-- Add a token. -/
def add (layout : Layout) (token : Token) : Layout :=
  { layout with tokens := token :: layout.tokens }

/-- Put a token after the first `position` ones. -/
def addAt (layout : Layout) (position : Nat) (token : Token) : Layout :=
  { layout with tokens := layout.tokens.insertIdx (layout.tokens.length - position) token }

/-- Close lists and mappings that are indented deeper than a column; `none` closes
all. -/
def closeDeeper (column : Option Nat) (layout : Layout) : Layout :=
  let isDeeper := fun (open_ : Nat) => column.all (· < open_)
  let closed := layout.columns.takeWhile isDeeper
  { layout with
    columns := layout.columns.dropWhile isDeeper
    tokens := List.replicate closed.length .blockEnd ++ layout.tokens }

/-- Open a list or mapping at a column, unless one is open there. Its token goes after
the first `position` ones. -/
def openAt (column position : Nat) (token : Token) (layout : Layout) : Layout :=
  if layout.inFlow || layout.columns.head?.any (column ≤ ·) then layout
  else { layout.addAt position token with columns := column :: layout.columns }

/-- Open a list or mapping that begins here. -/
def openHere (layout : Layout) (token : Token) : Layout :=
  layout.openAt layout.cursor.column layout.tokens.length token

/-- Give up that a key may have begun; fails if there must be one. -/
def forgetKey (layout : Layout) : Option Layout :=
  if layout.keyPlace.any KeyPlace.isRequired then none
  else some { layout with keyPlace := none }

/-- Remember that a key may begin here, if it may. -/
def rememberKey (layout : Layout) : Option Layout := do
  if !layout.keyAllowed then pure layout
  else
    let forgotten ← layout.forgetKey
    let place : KeyPlace :=
      { position := layout.tokens.length
        cursor := layout.cursor
        isRequired := !layout.inFlow && layout.columns.head? = some layout.cursor.column }
    pure { forgotten with keyPlace := some place }

/-- The place where a key that ends here has begun; fails if there must be one, but it
lies too far back. -/
def keyBegun (layout : Layout) : Option (Option KeyPlace) :=
  match layout.keyPlace with
  | none => some none
  | some place =>
    if place.cursor.line < layout.cursor.line
        || place.cursor.index + keyLimit < layout.cursor.index then
      if place.isRequired then none else some none
    else some (some place)

/-- Allow or forbid that a key begins next. -/
def allowKey (layout : Layout) (allowed : Bool) : Layout :=
  { layout with keyAllowed := allowed }

/-- Add a token that is written with `count` characters here. -/
def addMark (layout : Layout) (count : Nat) (token : Token) : Layout :=
  { layout.add token with cursor := layout.cursor.skip count }

/-- Take a token at the place of a layout. -/
def taking {Value : Type} (layout : Layout) (take : Take Value) : Option (Value × Layout) :=
  (take layout.cursor).map fun (value, cursor) => (value, { layout with cursor })

/-- Take a token that may begin a key. -/
def takeWord (layout : Layout) (take : Take Token) : Option Layout := do
  let remembered ← layout.rememberKey
  let (token, after) ← (remembered.allowKey false).taking take
  pure (after.add token)

/-- Take a plain scalar. -/
def takePlain (layout : Layout) : Option Layout := do
  let remembered ← layout.rememberKey
  let indent := match layout.columns with
    | column :: _ => column + 1
    | [] => 0
  let (scalar, after) ← (remembered.allowKey false).taking (plain layout.inFlow indent)
  pure ((after.add (.scalar .plain scalar.text)).allowKey scalar.crossesLine)

/-- Take a scalar of several lines. -/
def takeBlock (layout : Layout) (style : ScalarStyle) : Option Layout := do
  let forgotten ← layout.forgetKey
  let (text, after) ←
    (forgotten.allowKey true).taking (block (style = .folded) layout.columns.head?)
  pure (after.add (.scalar style text))

/-- Take an opening bracket. -/
def takeOpening (layout : Layout) (token : Token) : Option Layout := do
  let remembered ← layout.rememberKey
  pure
    (({ remembered with
        keyPlace := none
        outerPlaces := remembered.keyPlace :: remembered.outerPlaces }.addMark 1 token).allowKey
      true)

/-- Take a closing bracket. -/
def takeClosing (layout : Layout) (token : Token) : Option Layout := do
  let forgotten ← layout.forgetKey
  let outside := match forgotten.outerPlaces with
    | [] => forgotten
    | place :: others => { forgotten with keyPlace := place, outerPlaces := others }
  pure ((outside.addMark 1 token).allowKey false)

/-- Take a comma between brackets. -/
def takeComma (layout : Layout) : Option Layout := do
  let forgotten ← layout.forgetKey
  pure ((forgotten.addMark 1 .comma).allowKey true)

/-- Take the dash of an element. -/
def takeDash (layout : Layout) : Option Layout := do
  if !layout.inFlow && !layout.keyAllowed then none
  else
    let forgotten ← (layout.openHere .blockList).forgetKey
    pure ((forgotten.addMark 1 .dash).allowKey true)

/-- Take the question mark before a key. -/
def takeKey (layout : Layout) : Option Layout := do
  if !layout.inFlow && !layout.keyAllowed then none
  else
    let forgotten ← (layout.openHere .blockMapping).forgetKey
    pure ((forgotten.addMark 1 .key).allowKey (!layout.inFlow))

/-- Take the colon after a key. -/
def takeValue (layout : Layout) : Option Layout := do
  match ← layout.keyBegun with
  | some place =>
    let marked := { layout with keyPlace := none }.addAt place.position .key
    let opened := marked.openAt place.cursor.column place.position .blockMapping
    pure ((opened.addMark 1 .value).allowKey false)
  | none =>
    if !layout.inFlow && !layout.keyAllowed then none
    else pure (((layout.openHere .blockMapping).addMark 1 .value).allowKey (!layout.inFlow))

/-- Take a line that belongs to no document: a directive or a marker. -/
def takeOutside (layout : Layout) (take : Take Token) : Option Layout := do
  let forgotten ← (layout.closeDeeper none).forgetKey
  let (token, after) ← (forgotten.allowKey false).taking take
  pure (after.add token)

/-- A marker of three characters. -/
def marker (token : Token) : Take Token := do
  Take.skip 3
  pure token

/-- Step over white space and comments before a token. A byte order mark at the front of
the text counts as white space, and tabs do where no key can begin. -/
def skipFiller : Nat → Layout → Layout
  | 0, layout => layout
  | steps + 1, layout =>
    let cursor := layout.cursor
    match cursor.rest with
    | [] => layout
    | character :: _ =>
      let counts := character = ' '
        || (character = '\t' && (layout.inFlow || !layout.keyAllowed))
        || (character.toNat = 0xFEFF && cursor.index = 0)
      if counts then skipFiller steps { layout with cursor := cursor.skip 1 }
      else if character = '#' then
        let comment := cursor.rest.takeWhile fun next => !isBreak next
        skipFiller steps { layout with cursor := cursor.skip comment.length }
      else if isBreak character then
        match Take.lineBreak cursor with
        | some (_, after) =>
          skipFiller steps
            { layout with cursor := after, keyAllowed := layout.keyAllowed || !layout.inFlow }
        | none => layout
      else layout

/-- Take the token that begins with `character` and goes on with `rest`. -/
def takeToken (layout : Layout) (character : Char) (rest : List Char) : Option Layout :=
  let atWordEnd := endsWord rest
  if layout.cursor.column = 0 && character = '%' then layout.takeOutside directive
  else if layout.cursor.atMarker then
    layout.takeOutside (marker (if character = '-' then .documentStart else .documentEnd))
  else if character = '[' then layout.takeOpening .flowList
  else if character = '\x7b' then layout.takeOpening .flowMapping
  else if character = ']' then layout.takeClosing .flowListEnd
  else if character = '\x7d' then layout.takeClosing .flowMappingEnd
  else if character = ',' then layout.takeComma
  else if character = '-' && atWordEnd then layout.takeDash
  else if character = '?' && (layout.inFlow || atWordEnd) then layout.takeKey
  else if character = ':' && (layout.inFlow || atWordEnd) then layout.takeValue
  else if character = '*' then layout.takeWord (Token.alias <$> anchorName)
  else if character = '&' then layout.takeWord (Token.anchor <$> anchorName)
  else if character = '!' then layout.takeWord (tag layout.inFlow)
  else if character = '|' && !layout.inFlow then layout.takeBlock .literal
  else if character = '>' && !layout.inFlow then layout.takeBlock .folded
  else if character = '\x27' then
    layout.takeWord (Token.scalar .quoted <$> quoted .single)
  else if character = '"' then
    layout.takeWord (Token.scalar .quoted <$> quoted .double)
  else if startsPlain layout.inFlow (character :: rest) then layout.takePlain
  else none

/-- Take tokens up to the end of the text; each takes at least one character. -/
def takeAll : Nat → Layout → Option Layout
  | 0, _ => none
  | steps + 1, layout =>
    let ready := layout.skipFiller (layout.cursor.rest.length + 1)
    let closed := if ready.inFlow then ready else ready.closeDeeper (some ready.cursor.column)
    match closed.cursor.rest with
    | [] => (ready.closeDeeper none).forgetKey
    | character :: rest => (closed.takeToken character rest).bind (takeAll steps)

end Layout

/-- The tokens of a text; none if it is not well formed. -/
def tokens? (text : List Char) : Option (List Token) :=
  if text.all isAllowed then
    (Layout.takeAll (text.length + 1) (Layout.start text)).map fun layout =>
      layout.tokens.reverse
  else none

end ElmWorkbench.Yaml
