import ElmWorkbench.FileSystem.Walk
import ElmWorkbench.Project.Manifest
/-!
# Selections

Which files a listing takes, and which directories are on the way to them. A
selection looks at the names of a path below its root. Nothing outside that root
belongs to it, and in a project no build cache and no installed tools are looked into.
-/

namespace ElmWorkbench

/-- A part of a file tree. -/
inductive Selection where
  /-- The sources inside the given directories below a project root. -/
  | sources (root : Path) (directories : List (List Bytes))
  /-- All sources of a project and its manifest. -/
  | project (root : Path)
  /-- The sources and manifests of the given packages in a store. -/
  | packages (root : Path) (packages : List (List Bytes))
  deriving DecidableEq, Repr

namespace Path

/-- The names that components go through, if they do not lead up or start at the
root. -/
def namesOf? : List Component → Option (List Bytes)
  | [] => some []
  | .named name :: rest => (namesOf? rest).map (name :: ·)
  | .here :: rest => namesOf? rest
  | .up :: _ => none
  | .root :: _ => none

/-- The names that a path goes through, if it does not lead up or start at the
root. -/
def names? (path : Path) : Option (List Bytes) :=
  namesOf? path.components

/-- The names between a base and a path below it. -/
def namesBelow? (base path : Path) : Option (List Bytes) :=
  (componentsBelow? base path).bind namesOf?

end Path

namespace Selection

/-- The sources that a manifest declares. -/
def ofManifest (root : Path) (manifest : Manifest) : Selection :=
  .sources root (manifest.sourceDirectories.filterMap Path.names?)

/-- The packages of dependencies in a store. -/
def ofDependencies (root : Path) (dependencies : List Dependency) : Selection :=
  .packages root ((dependencies.filterMap fun dependency => dependency.segment.names?).filter
    (· ≠ []))

/-- Whether a directory is on the way to one of the given ones, or inside one. -/
def leadsTo (directories : List (List Bytes)) (names : List Bytes) : Bool :=
  directories.any fun directory => names.isPrefixOf directory || directory.isPrefixOf names

/-- Whether names lie inside one of the given directories. -/
def isInside (directories : List (List Bytes)) (names : List Bytes) : Bool :=
  directories.any fun directory => directory.isPrefixOf names

/-- Whether a directory is on the way to a package, is one, or lies inside its
sources. -/
def entersPackage (packages : List (List Bytes)) (names : List Bytes) : Bool :=
  packages.any fun package =>
    names.isPrefixOf package
      || (package.isPrefixOf names
        && (names.drop package.length).head? = some KnownDirectory.packageSource.nameBytes)

/-- Whether a file belongs to a package: its manifest, or a source below its source
directory. -/
def isPackageFile (packages : List (List Bytes)) (names : List Bytes) (path : Path) : Bool :=
  packages.any fun package =>
    package.isPrefixOf names
      && match names.drop package.length with
        | [] => false
        | [name] => name = Utf8.encode manifestName
        | first :: _ => first = KnownDirectory.packageSource.nameBytes && path.isSource

/-- Whether a selection leaves an entry out: a directory with all that it holds, or
a file. -/
def leavesOut (selection : Selection) (path : Path) (sort : EntrySort) : Bool :=
  match selection, sort with
  | .sources root directories, .directory =>
    match Path.namesBelow? root path with
    | none => true
    | some names => path.isPruned || !leadsTo directories names
  | .sources root directories, .file =>
    match Path.namesBelow? root path with
    | none => true
    | some names => !path.isSource || !isInside directories names.dropLast
  | .project _, .directory => path.isPruned
  | .project root, .file =>
    let isRootManifest := path.isManifest && path.parent?.any (Path.same root)
    !(path.isSource || isRootManifest)
  | .packages root chosen, .directory =>
    match Path.namesBelow? root path with
    | none => true
    | some names => !entersPackage chosen names
  | .packages root chosen, .file =>
    match Path.namesBelow? root path with
    | none => true
    | some names => !isPackageFile chosen names path

end Selection

end ElmWorkbench
