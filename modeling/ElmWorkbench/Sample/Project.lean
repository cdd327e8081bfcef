import ElmWorkbench.FileSystem.Change
import ElmWorkbench.Project.Names
import ElmWorkbench.Sample.Manifest
/-!
# Sample projects

A directory with an Elm project and, beside it, an Elm home with a store of packages.
Files are added to them one by one.
-/

namespace ElmWorkbench

/-- A sample project. -/
structure SampleProject where
  /-- The directory that holds everything. -/
  base : Path
  deriving DecidableEq, Repr

namespace SampleProject

/-- The root of the project. -/
def root (project : SampleProject) : Path :=
  project.base.child "project"

/-- The Elm home beside the project. -/
def elmHome (project : SampleProject) : Path :=
  project.base.child "elm-home"

/-- The store of packages in the Elm home. -/
def packagesRoot (project : SampleProject) : Path :=
  (project.elmHome.child sampleElmVersion).known .packageStore

/-- Create the directories of a project without files. -/
def create (project : SampleProject) : Attempt Unit := do
  Attempt.createDirectories project.root
  Attempt.createDirectories project.packagesRoot

/-- Write a file and the directories around it. -/
def writeFile (path : Path) (content : String) : Attempt Path := do
  match path.parent? with
  | some parent => Attempt.createDirectories parent
  | none => pure ()
  Attempt.step path fun files => files.overwrite path (Utf8.encode content)
  pure path

/-- Write a file of the project. -/
def write (project : SampleProject) (relative content : String) : Attempt Path :=
  writeFile (project.root.child relative) content

/-- Write the manifest of the project. -/
def writeManifest (project : SampleProject) (manifest : SampleManifest) : Attempt Path :=
  project.write manifestName manifest.text

/-- The text of a module without definitions. -/
def moduleText (name : String) : String :=
  "module " ++ name ++ " exposing (..)\n"

/-- Drop a suffix from a reversed text as often as it stands there. The number bounds
how often that is. -/
def dropSuffix (reversedSuffix : List Char) : Nat → List Char → List Char
  | 0, reversed => reversed
  | steps + 1, reversed =>
    if reversedSuffix.isPrefixOf reversed then
      dropSuffix reversedSuffix steps (reversed.drop reversedSuffix.length)
    else reversed

/-- The name of the module in a file: its last part without the extension. -/
def moduleName (relative : String) : String :=
  let reversed := dropSuffix (".elm".toList.reverse) relative.length relative.toList.reverse
  String.ofList (reversed.takeWhile (· ≠ '/')).reverse

/-- Write a module of the project. -/
def writeModule (project : SampleProject) (relative : String) : Attempt Path :=
  project.write relative (moduleText (moduleName relative))

/-- The text of the manifest of a package. -/
def packageManifest (name version : String) : String :=
  "\x7b\n    \"type\": \"package\",\n    \"name\": \"" ++ name ++ "\",\n    \"version\": \""
    ++ version ++ "\"\n\x7d\n"

/-- The file of a module of a package. -/
def modulePath (name : String) : String :=
  name.map (fun character => if character = '.' then '/' else character) ++ ".elm"

/-- Add a package with modules to the store. -/
def addPackage (project : SampleProject) (name version : String) (modules : List String) :
    Attempt Path := do
  let directory := (project.packagesRoot.child name).child version
  let _ ← writeFile directory.manifest (packageManifest name version)
  let _ ← writeFile (directory.child "README.md") ("# " ++ name ++ "\n")
  modules.forM fun added => do
    let file := (directory.known .packageSource).child (modulePath added)
    let _ ← writeFile file (moduleText added)
  pure directory

/-- A path as it is shown: below the directory that holds everything, and with slashes
only. -/
def display (project : SampleProject) (path : Path) : String :=
  let shown := (Path.stripPrefix? project.base path).getD path
  shown.display.map fun character => if character = '\\' then '/' else character

end SampleProject

end ElmWorkbench
