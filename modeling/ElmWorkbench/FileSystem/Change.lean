import ElmWorkbench.FileSystem.Access
/-!
# Changing files

The single steps that change a file system. Each of them succeeds and gives the
changed file system, or fails and changes nothing. An attempt is a sequence of such
steps; one that fails keeps what its earlier steps have done.
-/

namespace ElmWorkbench

/-- A sequence of steps that may fail on the way. -/
abbrev Attempt := ExceptT Error (StateM FileSystem)

namespace FileSystem

/-- Create a directory. -/
def makeDirectory (files : FileSystem) (path : Path) : Except SystemCause FileSystem := do
  match ← files.locateParent path with
  | (_, .special) => .error .exists
  | (parent, .name name _) =>
    if nameLimit < name.length then .error .nameTooLong
    else if (files.find? (parent ++ [name])).isSome then .error .exists
    else pure (files.insert (parent ++ [name]) (.directory directoryMode))

/-- Write a whole file, which is created if there is none. A file that exists keeps
its mode. -/
def overwrite (files : FileSystem) (path : Path) (contents : Bytes) :
    Except SystemCause FileSystem := do
  match ← files.resolve true path with
  | .vacant location => pure (files.insert location (.file contents fileMode))
  | .present location =>
    match files.find? location with
    | some (.file _ mode) => pure (files.insert location (.file contents mode))
    | _ => .error .isDirectory

/-- Give a file or directory another mode. -/
def changeMode (files : FileSystem) (path : Path) (mode : Nat) :
    Except SystemCause FileSystem := do
  let location ← files.locate path
  match files.find? location with
  | some (.file contents _) => pure (files.insert location (.file contents mode))
  | some (.directory _) => pure (files.insert location (.directory mode))
  | _ => .error .notFound

/-- Move a file to another place, over a file or link that stands there. -/
def rename (files : FileSystem) (source target : Path) : Except SystemCause FileSystem := do
  let (sourceParent, sourceEnding) ← files.locateParent source
  let (targetParent, targetEnding) ← files.locateParent target
  match sourceEnding, targetEnding with
  | .name sourceName _, .name targetName slash =>
    if nameLimit < targetName.length then .error .nameTooLong
    else match files.find? (sourceParent ++ [sourceName]) with
      | none => .error .notFound
      | some entry =>
        if slash then .error .notDirectory
        else if files.hasDirectory (targetParent ++ [targetName]) then .error .isDirectory
        else
          pure ((files.erase (sourceParent ++ [sourceName])).insert
            (targetParent ++ [targetName]) entry)
  | _, _ => .error .busy

/-- Remove a file or a link. -/
def remove (files : FileSystem) (path : Path) : Except SystemCause FileSystem := do
  match ← files.locateParent path with
  | (_, .special) => .error .isDirectory
  | (parent, .name name _) =>
    match files.find? (parent ++ [name]) with
    | none => .error .notFound
    | some (.directory _) => .error .isDirectory
    | some _ => pure (files.erase (parent ++ [name]))

end FileSystem

namespace Attempt

/-- Carry out one step on a path. -/
def step (path : Path) (change : FileSystem → Except SystemCause FileSystem) : Attempt Unit :=
  fun files =>
    match change files with
    | .ok changed => (.ok (), changed)
    | .error cause => (.error (.system path cause), files)

/-- Carry out a step if it is possible. -/
def tryStep (change : FileSystem → Except SystemCause FileSystem) : Attempt Unit :=
  fun files =>
    match change files with
    | .ok changed => (.ok (), changed)
    | .error _ => (.ok (), files)

/-- Look something up without changing anything. -/
def look {Value : Type} (query : FileSystem → Except Error Value) : Attempt Value :=
  fun files => (query files, files)

/-- A path and the directories around it, the innermost first. The number bounds how
many there are. -/
def ancestors : Nat → Path → List Path
  | 0, path => [path]
  | bound + 1, path =>
    match path.parent? with
    | none => [path]
    | some parent => path :: ancestors bound parent

/-- Create the first of the given directories after those around it, as far as they
do not exist. -/
def createFrom (files : FileSystem) : List Path → Except SystemCause Unit × FileSystem
  | [] => (.error .notFound, files)
  | path :: outer =>
    if path.bytes = [] then (.ok (), files)
    else match files.makeDirectory path with
      | .ok changed => (.ok (), changed)
      | .error cause =>
        if cause = .notFound then
          match createFrom files outer with
          | (.error outerCause, changed) => (.error outerCause, changed)
          | (.ok (), changed) =>
            match changed.makeDirectory path with
            | .ok created => (.ok (), created)
            | .error again =>
              if changed.isDirectory path then (.ok (), changed) else (.error again, changed)
        else if files.isDirectory path then (.ok (), files)
        else (.error cause, files)

/-- Create a directory and those around it, as far as they do not exist. -/
def createDirectories (path : Path) : Attempt Unit :=
  fun files =>
    match createFrom files (ancestors path.bytes.length path) with
    | (.ok (), changed) => (.ok (), changed)
    | (.error cause, changed) => (.error (.system path cause), changed)

end Attempt

end ElmWorkbench
