import ElmWorkbench.Project.Selection
/-!
# Listing the sources of a project

The manifest of a project is read for every listing. The listing is the walk below
the project root that takes what the manifest declares.
-/

namespace ElmWorkbench

namespace Manifest

/-- Read the manifest of the project at a root. -/
def load (files : FileSystem) (root : Path) : Except Error Manifest :=
  match files.readText root.manifest with
  | .ok content => parse root.manifest content
  | .error .notFound => .error (.manifestMissing root.manifest)
  | .error cause => .error (.system root.manifest cause)

end Manifest

/-- The absolute path without links of a project root. A root that does not exist
has no manifest. -/
def canonicalRoot (files : FileSystem) (root : Path) : Except Error Path :=
  match files.canonical root with
  | .ok canonical => .ok canonical
  | .error .notFound => .error (.manifestMissing root.manifest)
  | .error cause => .error (.system root cause)

/-- The walk that takes what a selection does not leave out. -/
def Selection.walk (selection : Selection) (root : Path) : Walk where
  root := root
  followLinks := true
  ignoring := [selection.leavesOut]

/-- The sources that a project declares. -/
def listSources (files : FileSystem) (projectRoot : Path) : Except Error (List Path) := do
  let root ← canonicalRoot files projectRoot
  let manifest ← Manifest.load files root
  ((Selection.ofManifest root manifest).walk root).run files

end ElmWorkbench
