import ElmWorkbench.Path
/-!
# Dependencies

A package pinned to one version, and the groups of dependencies that a manifest
lists. Dependencies are ordered by name, then by version; a sorted list without
repetition stands for a set.
-/

namespace ElmWorkbench

/-- A package pinned to one version. -/
structure Dependency where
  /-- The name, an author and a project with a slash between them. -/
  name : String
  version : String
  deriving DecidableEq, Repr

namespace Dependency

/-- Dependencies are ordered by name, then by version. -/
def before (left right : Dependency) : Bool :=
  left.name < right.name || (left.name = right.name && left.version < right.version)

/-- Write a dependency as `NAME@VERSION`. -/
def display (dependency : Dependency) : String :=
  dependency.name ++ "@" ++ dependency.version

/-- The parts of a name between slashes, without empty ones. -/
def nameParts (dependency : Dependency) : List String :=
  ((dependency.name.toList.splitOn '/').filter (· ≠ [])).map String.ofList

/-- Where a dependency lies inside the store of packages. -/
def segment (dependency : Dependency) : Path :=
  (dependency.nameParts ++ [dependency.version]).foldl Path.child ⟨[]⟩

/-- Put a dependency into a sorted list, behind those before it. -/
def insert (dependency : Dependency) : List Dependency → List Dependency
  | [] => [dependency]
  | first :: rest =>
    if first.before dependency then first :: insert dependency rest
    else dependency :: first :: rest

/-- Leave out each dependency that the same one follows. -/
def dropRepeats : List Dependency → List Dependency
  | [] => []
  | [last] => [last]
  | first :: second :: rest =>
    if first = second then dropRepeats (second :: rest)
    else first :: dropRepeats (second :: rest)

/-- The sorted list of dependencies, each once. -/
def sorted (dependencies : List Dependency) : List Dependency :=
  dropRepeats (dependencies.foldr insert [])

end Dependency

/-- A group of dependencies: names and their versions, sorted by name. -/
structure DependencyGroup where
  entries : List (String × String)
  deriving DecidableEq, Repr

namespace DependencyGroup

/-- The group without dependencies. -/
def empty : DependencyGroup := { entries := [] }

/-- Put a name into sorted entries; a version that it had is replaced. -/
def insertEntry (name version : String) : List (String × String) → List (String × String)
  | [] => [(name, version)]
  | first :: rest =>
    if name = first.1 then (name, version) :: rest
    else if name < first.1 then (name, version) :: first :: rest
    else first :: insertEntry name version rest

/-- Put a name into a group; a version that it had is replaced. -/
def insert (group : DependencyGroup) (name version : String) : DependencyGroup :=
  { entries := insertEntry name version group.entries }

/-- The group of entries in order; the last version of a name counts. -/
def ofEntries (entries : List (String × String)) : DependencyGroup :=
  entries.foldl (fun group entry => group.insert entry.1 entry.2) empty

/-- The dependencies of a group. -/
def dependencies (group : DependencyGroup) : List Dependency :=
  group.entries.map fun entry => { name := entry.1, version := entry.2 }

end DependencyGroup

end ElmWorkbench
