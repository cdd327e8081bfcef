import ElmWorkbench.Environment
import ElmWorkbench.Project.Manifest
/-!
# The store of downloaded packages

Packages lie below `<elm home>/<elm version>/packages`, where the Elm home is
known, or is the variable `ELM_HOME`, or `.elm` in the home directory. A store can
also be given itself, whatever version a manifest asks for.
-/

namespace ElmWorkbench

/-- How the store of packages is found. -/
inductive PackageStore where
  /-- Below the Elm home that the environment tells. -/
  | discover
  /-- Below a given Elm home. -/
  | elmHome (home : Path)
  /-- The store itself. -/
  | fixed (root : Path)
  deriving DecidableEq, Repr

/-- The Elm home that the environment tells. -/
def Environment.elmHome? (environment : Environment) : Option Path :=
  match environment.setting? elmHomeVariable with
  | some bytes => some ⟨bytes⟩
  | none => environment.home?.map (·.known .elmHome)

namespace PackageStore

/-- The Elm home of a store that is not given itself. -/
def home (store : PackageStore) (environment : Environment) : Except Error Path :=
  match store with
  | .elmHome home => .ok home
  | .discover =>
    match environment.elmHome? with
    | some home => .ok home
    | none => .error (.packagesUnavailable ((Path.ofString "~").known .elmHome))
  | .fixed root => .ok root

/-- The root of the store for a manifest; the project root names the manifest in
errors. -/
def root (store : PackageStore) (environment : Environment) (elmVersion : Option String)
    (projectRoot : Path) : Except Error Path :=
  match store with
  | .fixed root => .ok root
  | _ => do
    let home ← store.home environment
    match elmVersion with
    | some version => .ok ((home.child version).known .packageStore)
    | none => .error (.manifestMalformed projectRoot.manifest "missing field `elm-version`")

end PackageStore

end ElmWorkbench
