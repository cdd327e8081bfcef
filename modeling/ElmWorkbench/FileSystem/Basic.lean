import ElmWorkbench.Error
/-!
# File systems

A finite tree of directories, files and symbolic links. An entry is found by its
location, the names that lead to it from the root; the root itself is always a
directory. A file system also knows the directory that relative paths start from.
-/

namespace ElmWorkbench

/-- The names that lead to an entry from the root. -/
abbrev Location := List Bytes

/-- What stands at a location. -/
inductive Entry where
  | directory (mode : Nat)
  | file (contents : Bytes) (mode : Nat)
  | link (target : Path)
  deriving DecidableEq, Repr

/-- The mode of directories that are created. -/
def directoryMode : Nat := 0o755

/-- The mode of files that are created. -/
def fileMode : Nat := 0o644

/-- A finite tree of entries. -/
structure FileSystem where
  entries : List (Location × Entry)
  /-- The directory that relative paths start from. -/
  workingDirectory : Location
  deriving Repr

namespace FileSystem

/-- The entry at a location. -/
def find? (files : FileSystem) (location : Location) : Option Entry :=
  if location = [] then some (.directory directoryMode)
  else (files.entries.find? fun item => item.1 = location).map Prod.snd

/-- Whether a directory stands at a location. -/
def hasDirectory (files : FileSystem) (location : Location) : Bool :=
  match files.find? location with
  | some (.directory _) => true
  | _ => false

/-- Remove the entry at a location. -/
def erase (files : FileSystem) (location : Location) : FileSystem :=
  { files with entries := files.entries.filter fun item => item.1 ≠ location }

/-- Put an entry at a location, in place of what stood there. -/
def insert (files : FileSystem) (location : Location) (entry : Entry) : FileSystem :=
  { files with entries := (location, entry) :: (files.erase location).entries }

/-- The name of an entry that stands right below a directory. -/
def nameBelow? (directory location : Location) : Option Bytes :=
  match location.drop directory.length with
  | [name] => if directory.isPrefixOf location then some name else none
  | _ => none

/-- Put a name into sorted names. -/
def insertName (name : Bytes) : List Bytes → List Bytes
  | [] => [name]
  | first :: rest =>
    if name = first then first :: rest
    else if name < first then name :: first :: rest
    else first :: insertName name rest

/-- The names of the entries right below a directory, in the order of their
bytes. -/
def names (files : FileSystem) (directory : Location) : List Bytes :=
  (files.entries.filterMap fun item => nameBelow? directory item.1).foldr insertName []

end FileSystem

end ElmWorkbench
