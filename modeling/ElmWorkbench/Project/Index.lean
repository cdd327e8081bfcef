import ElmWorkbench.Project.PackageStore
import ElmWorkbench.Project.Sources
/-!
# The index of a project

The files that a search covers, with their contents: the project's own sources and
manifest, then the sources and manifests of the packages that it depends on. Every
package has to be in the store; there is no partial index.
-/

namespace ElmWorkbench

/-- A file of an index with its contents. -/
structure IndexEntry where
  path : Path
  content : String
  deriving DecidableEq, Repr

namespace Index

/-- Refuse a directory that does not exist. -/
def requireDirectory (files : FileSystem) (path : Path) : Except Error Unit :=
  if files.isDirectory path then .ok () else .error (.packagesUnavailable path)

/-- The files of packages in a store. -/
def packageFiles (files : FileSystem) (root : Path) (dependencies : List Dependency) :
    Except Error (List Path) :=
  match ((Selection.ofDependencies root dependencies).walk root).run files with
  | .ok paths => .ok paths
  | .error _ => .error (.packagesUnavailable root)

/-- A file with its contents, where damaged runs are replaced. -/
def readEntry (files : FileSystem) (path : Path) : Except Error IndexEntry := do
  let content ← FileSystem.concerning path (files.readLossy path)
  pure { path, content }

/-- The files of an index. -/
def paths (files : FileSystem) (environment : Environment) (store : PackageStore)
    (projectRoot : Path) : Except Error (List Path) := do
  let root ← canonicalRoot files projectRoot
  let manifest ← Manifest.load files root
  let dependencies := manifest.dependencies
  let storeRoot ← store.root environment manifest.elmVersion root
  requireDirectory files storeRoot
  dependencies.forM fun dependency =>
    requireDirectory files (storeRoot.join dependency.segment)
  let own ← ((Selection.project root).walk root).run files
  let others ← packageFiles files storeRoot dependencies
  pure (own ++ others)

/-- The index of a project. -/
def build (files : FileSystem) (environment : Environment) (store : PackageStore)
    (projectRoot : Path) : Except Error (List IndexEntry) := do
  (← paths files environment store projectRoot).mapM (readEntry files)

end Index

end ElmWorkbench
