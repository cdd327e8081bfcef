import ElmWorkbench.FileSystem.Basic
/-!
# From paths to locations

A path is followed part by part from the root or from the working directory.
Symbolic links on the way are replaced by their targets, at most forty of them; a
link at the end is followed only if asked for. What a path leads to may be vacant:
then its directory exists and the name in it is free.
-/

namespace ElmWorkbench

/-- The length from which a path is too long. -/
def pathLimit : Nat := 4096

/-- The longest name. -/
def nameLimit : Nat := 255

/-- How many links are followed on one path. -/
def linkLimit : Nat := 40

namespace Path

/-- The parts of a path between separators. -/
def parts (path : Path) : List Bytes :=
  path.bytes.splitOn separator

end Path

/-- What a path leads to. -/
inductive Target where
  /-- An entry. -/
  | present (location : Location)
  /-- A free name in a directory. -/
  | vacant (location : Location)
  deriving DecidableEq, Repr

/-- The end of a path: a name, perhaps with a separator after it, or a part that
names no entry of its own. -/
inductive Ending where
  | name (name : Bytes) (slash : Bool)
  | special
  deriving DecidableEq, Repr

namespace FileSystem

/-- Follow parts from a location. -/
def follow (files : FileSystem) (followLast : Bool) (links : Nat) (current : Location) :
    List Bytes → Except SystemCause Target
  | [] => .ok (.present current)
  | part :: rest =>
    if !files.hasDirectory current then .error .notDirectory
    else if Path.isVoid part then files.follow followLast links current rest
    else if part = Path.dotDot then files.follow followLast links current.dropLast rest
    else if nameLimit < part.length then .error .nameTooLong
    else match files.find? (current ++ [part]) with
      | none => if rest = [] then .ok (.vacant (current ++ [part])) else .error .notFound
      | some (.link target) =>
        if rest = [] && !followLast then .ok (.present (current ++ [part]))
        else match links with
          | 0 => .error .tooManyLinks
          | fewer + 1 =>
            files.follow followLast fewer (if target.isAbsolute then [] else current)
              (target.parts ++ rest)
      | some _ => files.follow followLast links (current ++ [part]) rest
termination_by parts => (links, parts.length)

/-- Where a path starts from. -/
def origin (files : FileSystem) (path : Path) : Location :=
  if path.isAbsolute then [] else files.workingDirectory

/-- Refuse a path that no system call accepts. -/
def checkLimits (path : Path) : Except SystemCause Unit :=
  if path.bytes.contains 0 then .error .zeroByte
  else if path.bytes = [] then .error .notFound
  else if pathLimit ≤ path.bytes.length then .error .nameTooLong
  else .ok ()

/-- What a path leads to. -/
def resolve (files : FileSystem) (followLast : Bool) (path : Path) :
    Except SystemCause Target := do
  checkLimits path
  files.follow followLast linkLimit (files.origin path) path.parts

/-- The location of the entry that a path leads to, with links followed. -/
def locate (files : FileSystem) (path : Path) : Except SystemCause Location := do
  match ← files.resolve true path with
  | .present location => pure location
  | .vacant _ => .error .notFound

/-- The entry that a path leads to, with links followed. -/
def stat (files : FileSystem) (path : Path) : Except SystemCause Entry := do
  match files.find? (← files.locate path) with
  | some entry => pure entry
  | none => .error .notFound

/-- The end of the parts of a path, and the parts before it. -/
def splitEnding (parts : List Bytes) : List Bytes × Ending :=
  let kept := (parts.reverse.dropWhile (· = [])).reverse
  match kept.getLast? with
  | none => (parts, .special)
  | some name =>
    if name = Path.dot || name = Path.dotDot then (kept.dropLast, .special)
    else (kept.dropLast, .name name (kept.length < parts.length))

/-- The directory that holds what a path names, and the end of the path. -/
def locateParent (files : FileSystem) (path : Path) : Except SystemCause (Location × Ending) := do
  checkLimits path
  let (parts, ending) := splitEnding path.parts
  match ← files.follow true linkLimit (files.origin path) parts with
  | .vacant _ => .error .notFound
  | .present location =>
    if files.hasDirectory location then pure (location, ending) else .error .notDirectory

end FileSystem

end ElmWorkbench
