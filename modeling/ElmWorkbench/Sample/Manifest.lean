import ElmWorkbench.Json.Sorted
/-!
# Manifests of sample projects

A description of the manifest of an application, from which its text is made.
-/

namespace ElmWorkbench

open Json (Value)

/-- The groups that a manifest sorts dependencies into. -/
inductive DependencyRole where
  | direct
  | indirect
  | testDirect
  | testIndirect
  deriving DecidableEq, Repr

/-- A description of the manifest of an application. -/
structure SampleManifest where
  sourceDirectories : List String
  elmVersion : Option String
  /-- The dependencies with their versions; of several with one role and name the last
  counts. -/
  dependencies : List (DependencyRole × String × String)
  deriving DecidableEq, Repr

/-- The version of the compiler that sample projects are for. -/
def sampleElmVersion : String := "0.19.1"

namespace SampleManifest

/-- An application with one source directory and without dependencies. -/
def application : SampleManifest where
  sourceDirectories := ["src"]
  elmVersion := some sampleElmVersion
  dependencies := []

/-- The description with other source directories. -/
def withSourceDirectories (manifest : SampleManifest) (directories : List String) :
    SampleManifest :=
  { manifest with sourceDirectories := directories }

/-- The description without a version of the compiler. -/
def withoutElmVersion (manifest : SampleManifest) : SampleManifest :=
  { manifest with elmVersion := none }

/-- The description with one more dependency. -/
def depend (manifest : SampleManifest) (role : DependencyRole) (name version : String) :
    SampleManifest :=
  { manifest with dependencies := manifest.dependencies ++ [(role, name, version)] }

/-- The dependencies with a role. -/
def group (manifest : SampleManifest) (role : DependencyRole) : Value :=
  .object (manifest.dependencies.filterMap fun (held, name, version) =>
    if held = role then some (name, .text version) else none)

/-- Two groups of dependencies. -/
def groups (manifest : SampleManifest) (directRole indirectRole : DependencyRole) : Value :=
  .object [("direct", manifest.group directRole), ("indirect", manifest.group indirectRole)]

/-- The manifest as a value. -/
def toValue (manifest : SampleManifest) : Value :=
  .object
    ([("type", .text "application"),
      ("source-directories", .list (manifest.sourceDirectories.map Value.text)),
      ("dependencies", manifest.groups .direct .indirect),
      ("test-dependencies", manifest.groups .testDirect .testIndirect)]
      ++ manifest.elmVersion.toList.map fun version => ("elm-version", .text version))

/-- The text of the manifest, with sorted keys. -/
def text (manifest : SampleManifest) : String :=
  String.ofList manifest.toValue.sorted.pretty.text

end SampleManifest

end ElmWorkbench
