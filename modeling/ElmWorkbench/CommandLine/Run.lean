import ElmWorkbench.CommandLine.Arguments
import ElmWorkbench.Session.Server
import ElmWorkbench.Settings.File
/-!
# Runs of the program

A run reads its arguments, then its settings, and then carries out one task. It ends
with the text that it has written and perhaps with a failure; the exit code tells
misuse of the command line from other failures.
-/

namespace ElmWorkbench.CommandLine

/-- Why a run fails. -/
inductive Failure where
  | misuse (kind : Misuse)
  | error (cause : Error)
  /-- An answer holds a path that is not UTF-8. -/
  | pathNotText
  deriving DecidableEq, Repr

namespace Failure

/-- The wording of a failure, if it has one. -/
def message? : Failure → Option String
  | .misuse kind => kind.message?
  | .error cause => some cause.message
  | .pathNotText => some Json.pathNotText

/-- The exit code of a run that fails. -/
def exitCode : Failure → UInt32
  | .misuse .help => 0
  | .misuse .version => 0
  | .misuse _ => 2
  | .error _ => 1
  | .pathNotText => 1

end Failure

/-- How a run ends. -/
structure Outcome where
  /-- The text that was written. -/
  output : List Char
  failure : Option Failure
  deriving Repr

namespace Outcome

/-- The exit code of a run. -/
def exitCode (outcome : Outcome) : UInt32 :=
  match outcome.failure with
  | none => 0
  | some failure => failure.exitCode

/-- What a run reports if it fails. -/
def report? (outcome : Outcome) : Option String :=
  (outcome.failure.bind Failure.message?).map ("error: " ++ ·)

/-- A run that writes a text and succeeds. -/
def success (output : List Char) : Outcome :=
  { output, failure := none }

/-- A run that writes nothing and fails. -/
def failed (error : Error) : Outcome :=
  { output := [], failure := some (.error error) }

/-- A run that writes a value in lines. -/
def ofValue (value : Json.Value) : Outcome :=
  let written := value.pretty
  if written.complete then success (written.text ++ ['\n'])
  else { output := written.text, failure := some .pathNotText }

/-- A run that writes paths, one a line. -/
def ofPaths (paths : List Path) : Outcome :=
  success (paths.flatMap fun path => path.display.toList ++ ['\n'])

/-- A run that ends as a server does. -/
def ofService (service : Service) : Outcome :=
  { output := service.output, failure := if service.stopped then some .pathNotText else none }

end Outcome

/-- The line that tells that a text was replaced. -/
def replacedLine (file : Path) (first last : Position) : List Char :=
  ("OK Replaced " ++ first.display ++ "..=" ++ last.display ++ " in " ++ file.display
    ++ "\n").toList

/-- How to use the program. -/
def usage : String :=
  "Usage: " ++ programName ++ " [OPTIONS] <COMMAND>\n\nCommands:\n"
    ++ String.join (Verb.all.map fun verb => "  " ++ verb.name ++ "\n")

/-- The line that tells the version. -/
def versionLine : String :=
  programName ++ " " ++ programVersion ++ "\n"

/-- How a run ends that carries out no task. -/
def Outcome.ofMisuse (misuse : Misuse) : Outcome :=
  let output := match misuse with
    | .help => usage.toList
    | .version => versionLine.toList
    | _ => []
  { output, failure := some (.misuse misuse) }

/-- Carry out a task in a session. -/
def Task.attempt (task : Task) (session : Session) (environment : Environment)
    (input : Bytes) : Attempt Outcome := do
  match task with
  | .replace file first last text => do
    session.replace environment file first last text
    pure (.success (replacedLine file first last))
  | .index root asJson => do
    let entries ← session.index environment (some root)
    pure (if asJson then .ofValue (.list (entries.map IndexEntry.toJson))
      else .ofPaths (entries.map IndexEntry.path))
  | .sources root asJson => do
    let paths ← session.sources (some root)
    pure (if asJson then .ofValue (.list (paths.map Json.Value.path)) else .ofPaths paths)
  | .serve project => do
    let opened ← match project with
      | some root => Attempt.look fun files => session.openProject files root
      | none => pure session
    let service ← Service.serve opened environment input
    pure (.ofService service)

/-- The settings of a request. -/
def Request.loadSettings (request : Request) (environment : Environment) : Attempt Settings :=
  Attempt.look fun files =>
    match request.settings with
    | some path => Settings.load files path
    | none => Settings.discover files environment

/-- Carry out a request. -/
def Request.attempt (request : Request) (environment : Environment) (input : Bytes) :
    Attempt Outcome := do
  let settings ← request.loadSettings environment
  request.task.attempt (Session.start settings) environment input

/-- Read a command line in an environment. -/
def Request.inEnvironment (environment : Environment) (arguments : List String) :
    Except Misuse Request :=
  Request.read ((environment.value? settingsVariable).map Path.mk) arguments

/-- Run the program. -/
def run (environment : Environment) (arguments : List String) (input : Bytes) :
    StateM FileSystem Outcome := do
  match Request.inEnvironment environment arguments with
  | .error misuse => pure (.ofMisuse misuse)
  | .ok request =>
    match ← (request.attempt environment input).run with
    | .ok outcome => pure outcome
    | .error error => pure (.failed error)

end ElmWorkbench.CommandLine
