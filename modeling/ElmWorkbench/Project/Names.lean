import ElmWorkbench.Path
/-!
# Names in Elm projects

The names of files and directories that projects and the store of downloaded
packages give a meaning to.
-/

namespace ElmWorkbench

/-- Directories with a fixed meaning. -/
inductive KnownDirectory where
  /-- What the compiler keeps between builds. -/
  | buildCache
  /-- Where tools are installed. -/
  | installedTools
  /-- The sources of a downloaded package. -/
  | packageSource
  /-- The Elm home inside the home directory. -/
  | elmHome
  /-- The downloaded packages of one compiler version. -/
  | packageStore
  deriving DecidableEq, Repr

namespace KnownDirectory

/-- All directories with a fixed meaning. -/
def all : List KnownDirectory :=
  [buildCache, installedTools, packageSource, elmHome, packageStore]

/-- The name of a directory. -/
def name : KnownDirectory → String
  | .buildCache => "elm-stuff"
  | .installedTools => "node_modules"
  | .packageSource => "src"
  | .elmHome => ".elm"
  | .packageStore => "packages"

/-- The name of a directory in bytes. -/
def nameBytes (directory : KnownDirectory) : Bytes :=
  Utf8.encode directory.name

/-- Directories that are never looked into. -/
def pruned : List KnownDirectory :=
  [buildCache, installedTools]

/-- Whether a name is that of a directory that is never looked into. -/
def isPrunedName (name : Bytes) : Bool :=
  pruned.any fun directory => directory.nameBytes = name

end KnownDirectory

/-- The name of a manifest. -/
def manifestName : String := "elm.json"

/-- The extension of a source file. -/
def sourceExtension : String := "elm"

/-- The variable that names the Elm home. -/
def elmHomeVariable : String := "ELM_HOME"

namespace Path

/-- Whether a path names a source file. -/
def isSource (path : Path) : Bool :=
  path.extension? = some (Utf8.encode sourceExtension)

/-- Whether a path names a manifest. -/
def isManifest (path : Path) : Bool :=
  path.fileName? = some (Utf8.encode manifestName)

/-- Whether a path names a directory that is never looked into. -/
def isPruned (path : Path) : Bool :=
  path.fileName?.any KnownDirectory.isPrunedName

/-- The manifest of the project at a root. -/
def manifest (root : Path) : Path :=
  root.child manifestName

/-- A directory with a fixed meaning inside another. -/
def known (path : Path) (directory : KnownDirectory) : Path :=
  path.child directory.name

end Path

end ElmWorkbench
