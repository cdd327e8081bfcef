import ElmWorkbench.Yaml.Meaning
/-!
# Values of YAML documents

A document as a value. Tags of the standard types tell what a scalar is, and other tags
of documents are refused. Aliases are replaced by what they stand for, at most a fixed
number of times for every node, and lists and mappings nest to a bounded depth.
-/

namespace ElmWorkbench.Yaml

open Json (Value)

mutual

/-- How many parts a node is written with: two for a list or mapping, one for a scalar
or alias. -/
def Node.partCount : Node → Nat
  | .scalar _ _ _ => 1
  | .alias _ => 1
  | .list _ elements => elementsPartCount elements + 2
  | .mapping _ entries => entriesPartCount entries + 2

/-- How many parts elements are written with. -/
def elementsPartCount : List Node → Nat
  | [] => 0
  | element :: rest => element.partCount + elementsPartCount rest

/-- How many parts entries are written with. -/
def entriesPartCount : List (Node × Node) → Nat
  | [] => 0
  | (key, value) :: rest => key.partCount + value.partCount + entriesPartCount rest

end

/-- How often aliases are replaced, for every part of a document. -/
def aliasesPerPart : Nat := 100

/-- How deep lists and mappings nest at most. -/
def nestingBound : Nat := 128

/-- Reading a value of a document; the state is how many aliases may still be
replaced. -/
abbrev Read := ReaderT Document (StateT Nat Option)

namespace Read

/-- The node itself, or what it stands for if it is an alias. -/
def follow (node : Node) : Read Node := do
  match node with
  | .alias number =>
    match ← get with
    | 0 => failure
    | fewer + 1 =>
      set fewer
      match (← read).anchoredAt? number with
      | some target => pure target
      | none => failure
  | _ => pure node

/-- The text of a scalar, whatever it looks like. -/
def text (node : Node) : Read String := do
  match ← follow node with
  | .scalar _ _ text => pure text
  | _ => failure

/-- A tag of a standard type. -/
def standardTag (name : String) : Bytes :=
  Utf8.encode ("tag:yaml.org,2002:" ++ name)

/-- Whether a tag belongs to the document and so has no value. -/
def isLocal (tag : Option Bytes) : Bool :=
  tag.any fun bytes => (Utf8.encode "!").isPrefixOf bytes

/-- The value of a meaning. -/
def ofMeaning (text : String) : Meaning → Option Value
  | .null => some .null
  | .boolean value => some (.boolean value)
  | .integer value => some (.integer value)
  | .hugeInteger => none
  | .fraction bits => some (.fraction bits)
  | .notFinite => some .null
  | .text => some (.text text)

/-- The value of a scalar. -/
def scalar? (tag : Option Bytes) (style : ScalarStyle) (text : String) : Option Value :=
  if isLocal tag then none
  else if tag = some (standardTag "bool") then (boolean? text).map Value.boolean
  else if tag = some (standardTag "int") then
    (integer? text.toList).bind (ofMeaning text)
  else if tag = some (standardTag "float") then
    (fraction? text.toList).bind (ofMeaning text)
  else if tag = some (standardTag "null") then
    if isNullWord text then some .null else none
  else if tag.isNone && style = .plain then ofMeaning text (Meaning.of text)
  else some (.text text)

/-- The text of a scalar, or none if it is a missing value. A scalar that is marked to be
a missing value must be one. -/
def optionalText (node : Node) : Read (Option String) := do
  match ← follow node with
  | .scalar tag style text =>
    let isMissing := text.isEmpty || isNullWord text
    if style ≠ .plain then pure (some text)
    else if tag.isNone then pure (if isMissing then none else some text)
    else if tag = some (standardTag "null") then
      if isNullWord text then pure none else failure
    else pure (some text)
  | _ => failure

/-- The truth value of a plain scalar, or of a literal one that is marked to be one. -/
def boolean (node : Node) : Read Bool := do
  match ← follow node with
  | .scalar tag style text =>
    if style = .plain || (style = .literal && tag = some (standardTag "bool")) then
      (boolean? text : Option Bool)
    else failure
  | _ => failure

/-- Put a value under a key, in place of an earlier one. -/
def put (entries : List (String × Value)) (key : String) (value : Value) :
    List (String × Value) :=
  entries.filter (fun entry => entry.1 ≠ key) ++ [(key, value)]

/-- The value of a node in which lists and mappings nest at most to the given depth. -/
def value : Nat → Node → Read Value
  | depth, node => do
    match ← follow node with
    | .scalar tag style text => (scalar? tag style text : Option Value)
    | .list tag elements =>
      match depth with
      | 0 => failure
      | inner + 1 => if isLocal tag then failure else .list <$> elements.mapM (value inner)
    | .mapping tag entries =>
      match depth with
      | 0 => failure
      | inner + 1 =>
        if isLocal tag then failure
        else .object <$> entries.foldlM (fun found entry => do
          let key ← text entry.1
          let member ← value inner entry.2
          pure (put found key member)) []
    | .alias _ => failure

/-- Read a document. -/
def run {Value : Type} (reading : Read Value) (document : Document) : Option Value :=
  let parts := match document.root with
    | some root => root.partCount
    | none => 1
  (reading document (aliasesPerPart * parts)).map Prod.fst

end Read

/-- The value of a document; none if it is not well formed. -/
def read? (text : String) : Option Value := do
  let document ← Document.ofText? text
  match document.root with
  | none => pure .null
  | some root => (Read.value nestingBound root).run document

end ElmWorkbench.Yaml
