import ElmWorkbench.Edit.InFile
import ElmWorkbench.Session.Command
import ElmWorkbench.Session.Response
import ElmWorkbench.Settings.Basic
/-!
# Sessions

A session has settings and perhaps an open project. Requests that name no project root
are about the open project, and relative paths of files start from it.
-/

namespace ElmWorkbench

/-- The settings and the open project that requests are answered with. -/
structure Session where
  settings : Settings
  projectRoot : Option Path
  deriving DecidableEq, Repr

namespace Session

/-- A session in which no project is open. -/
def start (settings : Settings) : Session :=
  { settings, projectRoot := none }

/-- The session with an open project that is not looked at. -/
def withProject (session : Session) (root : Path) : Session :=
  { session with projectRoot := some root }

/-- The session without an open project. -/
def closeProject (session : Session) : Session :=
  { session with projectRoot := none }

/-- Make a project the open one, if it has a manifest. The session is there afterwards in either
case. -/
def tryOpen (files : FileSystem) (root : Path) : ExceptT Error (StateM Session) Unit := do
  let _ ← MonadExcept.ofExcept (Manifest.load files root)
  modify fun session => session.withProject root

/-- The session with a project that has been opened, for those who give it up if that fails. -/
def openProject (session : Session) (files : FileSystem) (root : Path) : Except Error Session :=
  match tryOpen files root session with
  | (.ok _, opened) => .ok opened
  | (.error error, _) => .error error

/-- The project root of a request: the given one, or else the open project. -/
def resolveRoot (session : Session) (given : Option Path) : Except Error Path :=
  match given.or session.projectRoot with
  | some root => .ok root
  | none => .error .noProjectOpen

/-- The path of a file, where a relative one starts from the open project. -/
def resolveFile (session : Session) (path : Path) : Path :=
  match session.projectRoot with
  | some root => root.join path
  | none => path

/-- Replace the text between two positions of a file, which both belong to it. -/
def replace (session : Session) (environment : Environment) (path : Path)
    (first last : Position) (replacement : String) : Attempt Unit := do
  let range ← Attempt.look fun _ => Range.make first last
  replaceInFile environment.processId (session.resolveFile path) range replacement

/-- The index of a project. -/
def index (session : Session) (environment : Environment) (given : Option Path) :
    Attempt (List IndexEntry) :=
  Attempt.look fun files => do
    let root ← session.resolveRoot given
    Index.build files environment session.settings.packageStore root

/-- The sources of a project. -/
def sources (session : Session) (given : Option Path) : Attempt (List Path) :=
  Attempt.look fun files => do
    let root ← session.resolveRoot given
    listSources files root

/-- Carry out a command. -/
def attempt (session : Session) (environment : Environment) : Command → Attempt Response
  | .replaceInFile path first last replacement => do
    session.replace environment path first last replacement
    pure .fileReplaced
  | .listFilesForIndex root => .filesForIndex <$> session.index environment root
  | .listUserSourceFiles root => .userSourceFiles <$> session.sources root
  | .errorLogRequested _ => pure .logged

/-- The answer to a command; one that fails is answered with its error. -/
def answer (session : Session) (environment : Environment) (command : Command) :
    StateM FileSystem Response := do
  match ← (session.attempt environment command).run with
  | .ok response => pure response
  | .error error => pure (.ofError error)

end Session

/-- What a command records in the error log. -/
def Command.logged? : Command → Option String
  | .errorLogRequested message => some message
  | _ => none

end ElmWorkbench
