import ElmWorkbench.Json.Record
import ElmWorkbench.Project.Dependency
import ElmWorkbench.Project.Names
/-!
# Manifests

The parts of a project's `elm.json` that are used, and how they are read. Other
keys are skipped.
-/

namespace ElmWorkbench

open Json (Field Reader Shape)

/-- What a manifest says about a project. -/
structure Manifest where
  /-- The source directories, relative to the project root, as declared. -/
  sourceDirectories : List Path
  direct : DependencyGroup
  indirect : DependencyGroup
  testDirect : DependencyGroup
  testIndirect : DependencyGroup
  /-- The version of the compiler, which the store of packages is kept by. -/
  elmVersion : Option String
  deriving DecidableEq, Repr

namespace Manifest

/-- The dependencies of groups, sorted, each once. -/
def collect (groups : List DependencyGroup) : List Dependency :=
  Dependency.sorted (groups.flatMap DependencyGroup.dependencies)

/-- All dependencies. -/
def dependencies (manifest : Manifest) : List Dependency :=
  collect [manifest.direct, manifest.indirect, manifest.testDirect, manifest.testIndirect]

/-- The dependencies of the project itself. -/
def runtimeDependencies (manifest : Manifest) : List Dependency :=
  collect [manifest.direct, manifest.indirect]

/-- The dependencies of its tests. -/
def testDependencies (manifest : Manifest) : List Dependency :=
  collect [manifest.testDirect, manifest.testIndirect]

/-- Direct and indirect dependencies that have been read. -/
structure GroupsDraft where
  direct : Option DependencyGroup
  indirect : Option DependencyGroup

/-- Read a group of dependencies. -/
def readGroup : Reader DependencyGroup :=
  DependencyGroup.ofEntries <$> Reader.entriesOf Reader.text

/-- The fields of direct and indirect dependencies. -/
def groupsShape : Shape GroupsDraft (DependencyGroup × DependencyGroup) where
  title := "struct RawDependencies"
  empty := { direct := none, indirect := none }
  fields :=
    [{ name := "direct", isOptional := false, isFilled := fun draft => draft.direct.isSome
       read := fun draft => do
         let direct ← readGroup
         pure { draft with direct := some direct } },
     { name := "indirect", isOptional := false, isFilled := fun draft => draft.indirect.isSome
       read := fun draft => do
         let indirect ← readGroup
         pure { draft with indirect := some indirect } }]
  build := fun draft => do
    let direct ← Json.required "direct" draft.direct
    let indirect ← Json.required "indirect" draft.indirect
    pure (direct, indirect)

/-- The parts of a manifest that have been read. -/
structure Draft where
  sourceDirectories : Option (List Path)
  elmVersion : Option (Option String)
  dependencies : Option (DependencyGroup × DependencyGroup)
  testDependencies : Option (DependencyGroup × DependencyGroup)

/-- The fields of a manifest. -/
def shape : Shape Draft Manifest where
  title := "struct RawManifest"
  empty :=
    { sourceDirectories := none, elmVersion := none, dependencies := none
      testDependencies := none }
  fields :=
    [{ name := "source-directories", isOptional := false
       isFilled := fun draft => draft.sourceDirectories.isSome
       read := fun draft => do
         let directories ← Reader.listOf Reader.path
         pure { draft with sourceDirectories := some directories } },
     { name := "elm-version", isOptional := true
       isFilled := fun draft => draft.elmVersion.isSome
       read := fun draft => do
         let version ← Reader.optional Reader.text
         pure { draft with elmVersion := some version } },
     { name := "dependencies", isOptional := false
       isFilled := fun draft => draft.dependencies.isSome
       read := fun draft => do
         let groups ← Reader.record .direct groupsShape
         pure { draft with dependencies := some groups } },
     { name := "test-dependencies", isOptional := false
       isFilled := fun draft => draft.testDependencies.isSome
       read := fun draft => do
         let groups ← Reader.record .direct groupsShape
         pure { draft with testDependencies := some groups } }]
  build := fun draft => do
    let sourceDirectories ← Json.required "source-directories" draft.sourceDirectories
    let (direct, indirect) ← Json.required "dependencies" draft.dependencies
    let (testDirect, testIndirect) ← Json.required "test-dependencies" draft.testDependencies
    let elmVersion := draft.elmVersion.getD none
    pure { sourceDirectories, direct, indirect, testDirect, testIndirect, elmVersion }

/-- Read a manifest; the path is that of its file. -/
def parse (path : Path) (content : String) : Except Error Manifest :=
  match Reader.runWhole (Reader.record .direct shape) (Utf8.encode content) with
  | .ok manifest => .ok manifest
  | .error failure => .error (.manifestMalformed path failure.message)

end Manifest

end ElmWorkbench
