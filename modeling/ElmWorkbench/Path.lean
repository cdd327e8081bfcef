import ElmWorkbench.Text.Utf8
/-!
# Paths

A path is a byte string in which `/` separates the parts. Its meaning is the
list of its components: empty parts and parts `.` mean nothing, except that a
relative path may begin with the component `.`, and `..` is kept. Two paths are
the same if their components are. Operations that give a path keep the bytes of
the parts they keep, so a path prints as it was written.
-/

namespace ElmWorkbench

/-- A name for a place in a file system, as it was written. -/
structure Path where
  bytes : Bytes
  deriving DecidableEq, Repr

namespace Path

/-- What a part of a path stands for. -/
inductive Component where
  /-- The `/` that an absolute path begins with. -/
  | root
  /-- The `.` that a relative path begins with. -/
  | here
  /-- A part `..`. -/
  | up
  /-- Any other part. -/
  | named (name : Bytes)
  deriving DecidableEq, Repr

/-- The byte `/`. -/
def separator : UInt8 := 0x2F

/-- The part `.`. -/
def dot : Bytes := [0x2E]

/-- The part `..`. -/
def dotDot : Bytes := [0x2E, 0x2E]

/-- The path written as a text. -/
def ofString (text : String) : Path :=
  ⟨Utf8.encode text⟩

/-- The path as a text, if it is one. -/
def text? (path : Path) : Option String :=
  Utf8.decode? path.bytes

/-- The path as it is shown in messages. -/
def display (path : Path) : String :=
  Utf8.decodeLossy path.bytes

/-- An absolute path begins with `/`. -/
def isAbsolute (path : Path) : Bool :=
  path.bytes.head? = some separator

/-- Parts that stand for no component inside a path. -/
def isVoid (part : Bytes) : Bool :=
  part = [] || part = dot

/-- The component of a part that is not the first of a relative path. -/
def componentOf? (part : Bytes) : Option Component :=
  if isVoid part then none
  else if part = dotDot then some .up
  else some (.named part)

/-- How a path begins, and the parts after that. -/
def split (path : Path) : Option Component × List Bytes :=
  match path.bytes.splitOn separator with
  | [] => (none, [])
  | first :: rest =>
    if path.isAbsolute then (some .root, rest)
    else if first = dot then (some .here, rest)
    else (none, first :: rest)

/-- The components of a path. -/
def components (path : Path) : List Component :=
  let (opening, parts) := path.split
  opening.toList ++ parts.filterMap componentOf?

/-- Whether two paths have the same components. -/
def same (left right : Path) : Bool :=
  left.components = right.components

/-- Drop the parts at the end that stand for no component. -/
def trimParts (parts : List Bytes) : List Bytes :=
  (parts.reverse.dropWhile isVoid).reverse

/-- Write parts with separators between them. -/
def ofParts (parts : List Bytes) : Path :=
  ⟨List.intercalate [separator] parts⟩

/-- Write a path from how it begins and the parts after that. -/
def assemble : Option Component → List Bytes → Path
  | some .root, parts => ofParts ([] :: if parts = [] then [[]] else parts)
  | some .here, parts => ofParts (dot :: parts)
  | _, parts => ofParts parts

/-- The last component, if it is a name. -/
def fileName? (path : Path) : Option Bytes :=
  match (trimParts path.split.2).getLast? with
  | none => none
  | some name => if name = dotDot then none else some name

/-- The path without its last component; the root and the empty path have none. -/
def parent? (path : Path) : Option Path :=
  let (opening, parts) := path.split
  match trimParts parts with
  | [] => if opening = some .here then some ⟨[]⟩ else none
  | kept => some (assemble opening (trimParts kept.dropLast))

/-- What follows the last dot of a name, unless that dot leads the name. -/
def extensionOf? (name : Bytes) : Option Bytes :=
  let tail := name.reverse.takeWhile (· ≠ 0x2E)
  if tail.length + 1 < name.length then some tail.reverse else none

/-- The extension of the last component. -/
def extension? (path : Path) : Option Bytes :=
  path.fileName?.bind extensionOf?

/-- Append `other`, unless it is absolute and so stands by itself. -/
def join (path other : Path) : Path :=
  if other.isAbsolute then other
  else if path.bytes = [] || path.bytes.getLast? = some separator then
    ⟨path.bytes ++ other.bytes⟩
  else ⟨path.bytes ++ separator :: other.bytes⟩

/-- Append a name given as a text. -/
def child (path : Path) (name : String) : Path :=
  path.join (ofString name)

/-- Replace the last component by `name` if it is a name, else append `name`. -/
def withFileName (path : Path) (name : Bytes) : Path :=
  match path.fileName? with
  | some _ => (path.parent?.getD ⟨[]⟩).join ⟨name⟩
  | none => path.join ⟨name⟩

/-- The components of `path` after those of `base`, if it begins with them. -/
def componentsBelow? (base path : Path) : Option (List Component) :=
  if base.components.isPrefixOf path.components then
    some (path.components.drop base.components.length)
  else none

/-- Drop as many parts as hold `count` components, and what stands for nothing
after them. -/
def dropParts : Nat → List Bytes → List Bytes
  | 0, parts => parts.dropWhile isVoid
  | _, [] => []
  | count + 1, part :: rest =>
    if isVoid part then dropParts (count + 1) rest else dropParts count rest

/-- The path below `base`, if `path` begins with the components of `base`. -/
def stripPrefix? (base path : Path) : Option Path :=
  if !base.components.isPrefixOf path.components then none
  else
    let (opening, parts) := path.split
    match base.components.length with
    | 0 => some (assemble opening (trimParts parts))
    | count + 1 =>
      some (ofParts (trimParts (dropParts (if opening.isSome then count else count + 1) parts)))

end Path

end ElmWorkbench
