import ElmWorkbench.Yaml.Layout
/-!
# Nodes of YAML documents

A document is a tree of scalars, lists and mappings. A node may have a tag and an
anchor, and an alias stands for the node with its anchor, which may be a node around
it. Tokens are grouped into the nodes of one document.
-/

namespace ElmWorkbench.Yaml

/-- A part of a document. -/
inductive Node where
  | scalar (tag : Option Bytes) (style : ScalarStyle) (text : String)
  | list (tag : Option Bytes) (elements : List Node)
  | mapping (tag : Option Bytes) (entries : List (Node × Node))
  /-- The node that is anchored with a number. -/
  | alias (number : Nat)

/-- A node that was anchored. -/
structure Anchored where
  /-- How many anchors stand before it in the text. -/
  order : Nat
  node : Node

/-- A document with the nodes that aliases stand for. -/
structure Document where
  /-- The outermost node, unless the text is empty. -/
  root : Option Node
  anchored : List (Nat × Anchored)

/-- Tokens that are being grouped, with what they have introduced so far. -/
structure Grouping where
  tokens : List Token
  shorthands : List (List Char × Bytes)
  /-- The anchors with their numbers. -/
  numbers : List (List Char × Nat)
  /-- How many anchors there were. -/
  anchorCount : Nat
  /-- The anchored nodes, with the numbers of their anchors. -/
  anchored : List (Nat × Anchored)

/-- Grouping tokens into a value. -/
abbrev Group := StateT Grouping Option

/-- What stands before a node. -/
structure Properties where
  anchor : Option (List Char)
  tag : Option Bytes

/-- The beginnings of tags that need no directive. -/
def standardShorthands : List (List Char × Bytes) :=
  [(['!'], Utf8.encode "!"), (['!', '!'], Utf8.encode "tag:yaml.org,2002:")]

/-- The tag that has no meaning of its own; a scalar with it is the same without. -/
def plainTag : Bytes :=
  Utf8.encode "!"

namespace Group

/-- The next token, which is not taken yet. -/
def peek : Group (Option Token) :=
  fun grouping => some (grouping.tokens.head?, grouping)

/-- Take the next token. -/
def drop : Group Unit :=
  modify fun grouping => { grouping with tokens := grouping.tokens.tail }

/-- Take the given token. -/
def expect (token : Token) : Group Unit := do
  if (← peek) = some token then drop else failure

/-- Whether one of the given tokens comes next. -/
def meets (tokens : List Token) : Group Bool := do
  pure ((← peek).any tokens.contains)

/-- Take the given token if it comes next, and tell whether it did. -/
def found (token : Token) : Group Bool := do
  if (← peek) = some token then
    drop
    pure true
  else pure false

/-- The tag that a handle and an ending make. -/
def tagOf (handle : List Char) (ending : Bytes) : Group Bytes := do
  if handle = [] then pure ending
  else
    let known := (← get).shorthands.find? fun entry => entry.1 = handle
    match known with
    | some (_, beginning) => pure (beginning ++ ending)
    | none => failure

/-- Take an anchor if one comes next. -/
def anchor : Group (Option (List Char)) := do
  match ← peek with
  | some (.anchor name) => drop *> pure (some name)
  | _ => pure none

/-- Take a tag if one comes next. -/
def tag : Group (Option Bytes) := do
  match ← peek with
  | some (.tag handle ending) =>
    drop
    some <$> tagOf handle ending
  | _ => pure none

/-- Take an anchor and a tag in either order. -/
def properties : Group Properties := do
  match ← anchor with
  | some name => pure { anchor := some name, tag := ← tag }
  | none =>
    let meant ← tag
    match meant with
    | some _ => pure { anchor := ← anchor, tag := meant }
    | none => pure { anchor := none, tag := none }

/-- An empty plain scalar. -/
def emptyNode : Node :=
  .scalar none .plain ""

/-- Give an anchor its number, which is how many names are in use, and tell how many
anchors stand before it. -/
def number (name : List Char) : Group (Nat × Nat) :=
  fun grouping =>
    let next := grouping.numbers.length
    let others := grouping.numbers.filter fun entry => entry.1 ≠ name
    some ((next, grouping.anchorCount),
      { grouping with
        numbers := (name, next) :: others
        anchorCount := grouping.anchorCount + 1 })

/-- Group a node, and remember it under its anchor if it has one. -/
def anchoring (anchor : Option (List Char)) (group : Group Node) : Group Node := do
  match anchor with
  | none => group
  | some name =>
    let (chosen, order) ← number name
    let node ← group
    modify fun grouping =>
      { grouping with anchored := (chosen, { order, node }) :: grouping.anchored }
    pure node

/-- The node that an alias stands for must be anchored before it. -/
def aliased (name : List Char) : Group Node := do
  match (← get).numbers.find? fun entry => entry.1 = name with
  | some (_, chosen) => pure (.alias chosen)
  | none => failure

/-- Group a node, unless one of the given tokens comes next, which leave it out. -/
def nodeUnless (tokens : List Token) (node : Group Node) : Group Node := do
  if ← meets tokens then pure emptyNode else node

mutual

/-- Group a node. A list or mapping by indentation may begin only where `byIndent`; a
list whose dashes are not indented may begin only where `besideKey`. -/
def node (byIndent besideKey : Bool) : Nat → Group Node
  | 0 => failure
  | steps + 1 => do
    match ← peek with
    | some (.alias name) =>
      drop
      aliased name
    | _ =>
      let before ← properties
      anchoring before.anchor (content byIndent besideKey before steps)

/-- Group what follows the properties of a node. -/
def content (byIndent besideKey : Bool) (before : Properties) : Nat → Group Node
  | 0 => failure
  | steps + 1 => do
    match ← peek with
    | some .dash =>
      if besideKey then .list before.tag <$> besideElements steps
      else bare before
    | some (.scalar style text) =>
      drop
      pure (.scalar (before.tag.filter (· ≠ plainTag)) style (String.ofList text))
    | some .flowList =>
      drop
      .list before.tag <$> flowElements true steps
    | some .flowMapping =>
      drop
      .mapping before.tag <$> flowEntries true steps
    | some .blockList =>
      if byIndent then
        drop
        .list before.tag <$> blockElements steps
      else bare before
    | some .blockMapping =>
      if byIndent then
        drop
        .mapping before.tag <$> blockEntries steps
      else bare before
    | _ => bare before

/-- A node that consists of properties only. -/
def bare (before : Properties) : Group Node :=
  if before.anchor.isNone && before.tag.isNone then failure
  else pure (.scalar before.tag .plain "")

/-- Group the elements of a list by indentation, up to its end. -/
def blockElements : Nat → Group (List Node)
  | 0 => failure
  | steps + 1 => do
    if ← found .dash then
      let first ← nodeUnless [.dash, .blockEnd] (node true false steps)
      let others ← blockElements steps
      pure (first :: others)
    else
      expect .blockEnd
      pure []

/-- Group the elements of a list whose dashes are not indented. -/
def besideElements : Nat → Group (List Node)
  | 0 => failure
  | steps + 1 => do
    if ← found .dash then
      let first ← nodeUnless [.dash, .key, .value, .blockEnd] (node true false steps)
      let others ← besideElements steps
      pure (first :: others)
    else pure []

/-- Group the entries of a mapping by indentation, up to its end. -/
def blockEntries : Nat → Group (List (Node × Node))
  | 0 => failure
  | steps + 1 => do
    if ← found .key then
      let key ← nodeUnless [.key, .value, .blockEnd] (node true true steps)
      let value ←
        if ← found .value then nodeUnless [.key, .value, .blockEnd] (node true true steps)
        else pure emptyNode
      let others ← blockEntries steps
      pure ((key, value) :: others)
    else
      expect .blockEnd
      pure []

/-- Group the elements of a list between brackets, up to its end. -/
def flowElements (isFirst : Bool) : Nat → Group (List Node)
  | 0 => failure
  | steps + 1 => do
    if ← found .flowListEnd then pure []
    else
      if !isFirst then expect .comma
      if ← found .flowListEnd then pure []
      else
        let first ←
          if ← found .key then flowPair steps
          else node false false steps
        let others ← flowElements false steps
        pure (first :: others)

/-- Group a mapping of one entry that stands in a list without brackets of its own. -/
def flowPair : Nat → Group Node
  | 0 => failure
  | steps + 1 => do
    let key ←
      if ← meets [.value, .comma, .flowListEnd] then drop *> pure emptyNode
      else node false false steps
    let value ←
      if ← found .value then nodeUnless [.comma, .flowListEnd] (node false false steps)
      else pure emptyNode
    pure (.mapping none [(key, value)])

/-- Group the entries of a mapping between brackets, up to its end. -/
def flowEntries (isFirst : Bool) : Nat → Group (List (Node × Node))
  | 0 => failure
  | steps + 1 => do
    if ← found .flowMappingEnd then pure []
    else
      if !isFirst then expect .comma
      if ← found .flowMappingEnd then pure []
      else
        let entry ←
          if ← found .key then do
            let key ← nodeUnless [.value, .comma, .flowMappingEnd] (node false false steps)
            let value ←
              if ← found .value then
                nodeUnless [.comma, .flowMappingEnd] (node false false steps)
              else pure emptyNode
            pure (key, value)
          else do
            let key ← node false false steps
            pure (key, emptyNode)
        let others ← flowEntries false steps
        pure (entry :: others)

end

/-- Take directives before a document: one version at most, and each shorthand once. -/
def directives : Nat → Bool → Group Unit
  | 0, _ => failure
  | steps + 1, hasVersion => do
    match ← peek with
    | some (.version major minor) =>
      if hasVersion || major ≠ 1 || (minor ≠ 1 && minor ≠ 2) then failure
      drop
      directives steps true
    | some (.shorthand handle beginning) =>
      if (← get).shorthands.any fun entry => entry.1 = handle then failure
      drop
      modify fun grouping =>
        { grouping with shorthands := grouping.shorthands ++ [(handle, beginning)] }
      directives steps hasVersion
    | _ => pure ()

/-- Whether a token can only stand before a document. -/
def isDirective : Token → Bool
  | .version _ _ => true
  | .shorthand _ _ => true
  | _ => false

/-- Take markers of the end of a document. -/
def documentEnds : Nat → Group Unit
  | 0 => failure
  | steps + 1 => do
    if ← found .documentEnd then documentEnds steps

/-- Group the outermost node after a marker of its document. -/
def markedRoot (steps : Nat) : Group Node := do
  expect .documentStart
  match ← peek with
  | none => pure emptyNode
  | some token =>
    if isDirective token || token = .documentStart || token = .documentEnd then pure emptyNode
    else node true false steps

/-- Group the only document of a text. -/
def document (steps : Nat) : Group (Option Node) := do
  match ← peek with
  | none => pure none
  | some token =>
    let isMarked := isDirective token || token = .documentStart
    directives steps false
    modify fun grouping => { grouping with shorthands := grouping.shorthands ++ standardShorthands }
    let root ← if isMarked then markedRoot steps else node true false steps
    documentEnds steps
    if (← peek).isSome then failure
    pure (some root)

end Group

/-- The document of a text that holds at most one. -/
def Document.ofText? (text : String) : Option Document := do
  let tokens ← tokens? text.toList
  let start : Grouping :=
    { tokens, shorthands := [], numbers := [], anchorCount := 0, anchored := [] }
  let (root, ended) ← Group.document (4 * (tokens.length + 1)) start
  pure { root, anchored := ended.anchored }

namespace Document

/-- The node that an alias stands for: of those with its number the one whose anchor
stands last. -/
def anchoredAt? (document : Document) (number : Nat) : Option Node :=
  let candidates := document.anchored.filterMap fun entry =>
    if entry.1 = number then some entry.2 else none
  let last := candidates.foldl (fun (best : Option Anchored) candidate =>
    match best with
    | none => some candidate
    | some found => if found.order < candidate.order then some candidate else some found) none
  last.map Anchored.node

end Document

end ElmWorkbench.Yaml
