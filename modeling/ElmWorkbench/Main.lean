import ElmWorkbench.CommandLine.Run
/-!
# The program

Runs the program on the files of the machine. What a command may look at is loaded into
a file system beforehand, and the files that it has changed are stored afterwards. The
server answers every line as soon as it has been read.
-/

namespace ElmWorkbench.Machine

open CommandLine (Misuse Outcome Request)

/-- The variables of the environment that a run looks at. -/
def variableNames : List String :=
  ["HOME", "XDG_CONFIG_HOME", elmHomeVariable, CommandLine.settingsVariable]

/-- The surroundings of the program. -/
def readEnvironment : IO Environment := do
  let assigned ← variableNames.filterMapM fun name => do
    return (← IO.getEnv name).map fun value => (name, Utf8.encode value)
  return { assigned, accountHome := none, processId := ← IO.rand 10000 99999 }

/-- Files of the machine that have been loaded. -/
structure Image where
  files : FileSystem
  /-- The directories that have been loaded with all that they hold. -/
  expanded : List Location

/-- The names of a text with slashes between them. -/
def namesIn (text : String) : Location :=
  (Path.ofString text).parts.filter (· ≠ [])

/-- The text of a location. -/
def textOf (location : Location) : String :=
  (Path.ofLocation location).display

/-- An image of nothing but the working directory. -/
def emptyImage : IO Image := do
  let here ← IO.currentDir
  return { files := { entries := [], workingDirectory := namesIn here.toString }, expanded := [] }

/-- Add an entry and the directories around it. -/
def Image.add (image : Image) (location : Location) (entry : Entry) : Image :=
  let around := (List.range location.length).map location.take
  let files := around.foldl (fun files outer =>
    if (files.find? outer).isSome then files
    else files.insert outer (.directory directoryMode)) image.files
  { image with files := files.insert location entry }

/-- How much is loaded of what stands at a path. -/
inductive Extent where
  /-- A directory is loaded without what it holds. -/
  | alone
  /-- A directory is loaded with what listings of a project look at. -/
  | project
  /-- A directory is loaded with all directories that it holds. -/
  | packages
  deriving DecidableEq

/-- Whether the inside of a directory is loaded. -/
def Extent.entersDirectory (extent : Extent) (name : String) : Bool :=
  match extent with
  | .alone => false
  | .project => !KnownDirectory.isPrunedName (Utf8.encode name)
  | .packages => true

/-- The contents of a file, or nothing if no listing shows them. -/
def contentsFor (extent : Extent) (place : String) : IO Bytes := do
  let path := Path.ofString place
  if extent = .alone || path.isSource || path.isManifest then
    return (← IO.FS.readBinFile place).toList
  else return []

/-- Load what stands at a path of the machine. What cannot be loaded is left out. -/
partial def Image.load (image : Image) (extent : Extent) (text : String) : IO Image := do
  try
    let place := (← IO.currentDir) / text
    match place.parent, place.fileName with
    | some outer, some name =>
      let location := namesIn (← IO.FS.realPath outer).toString ++ [Utf8.encode name]
      match (← place.symlinkMetadata).type with
      | .dir =>
        let known := (image.files.find? location).isSome
        let added := if known then image else image.add location (.directory directoryMode)
        if extent = .alone || added.expanded.contains location then return added
        let mut grown := { added with expanded := location :: added.expanded }
        for child in ← place.readDir do
          if extent.entersDirectory child.fileName then
            grown ← grown.load extent (place / child.fileName).toString
        return grown
      | .file =>
        return image.add location (.file (← contentsFor extent place.toString) fileMode)
      | .symlink =>
        let target := (← IO.FS.realPath place).toString
        (image.add location (.link (Path.ofString target))).load extent target
      | .other => return image
    | _, _ => return image
  catch _ => return image

/-- Load the directories on the way to a path, and what it leads to. -/
def Image.loadPath (image : Image) (extent : Extent) (path : Path) : IO Image := do
  let place := ((← IO.currentDir) / path.display).toString
  let parts := place.splitOn "/"
  let mut loaded := image
  for count in List.range parts.length do
    loaded ← loaded.load .alone ("/".intercalate (parts.take count))
  loaded.load extent place

/-- Load a project and its manifest. -/
def Image.loadProject (image : Image) (root : Path) : IO Image := do
  (← image.loadPath .project root).loadPath .alone root.manifest

/-- The store of packages that the index of a loaded project looks at. -/
def packagesRoot? (environment : Environment) (session : Session) (files : FileSystem)
    (root : Path) : Option Path := do
  let manifest ← (Manifest.load files root).toOption
  (session.settings.packageStore.root environment manifest.elmVersion root).toOption

/-- Load what a command may look at. -/
def loadFor (environment : Environment) (session : Session) (command : Command) :
    IO Image := do
  let image ← emptyImage
  match command with
  | .replaceInFile path _ _ _ => image.loadPath .alone (session.resolveFile path)
  | .listUserSourceFiles given =>
    match session.resolveRoot given with
    | .ok root => image.loadProject root
    | .error _ => return image
  | .listFilesForIndex given =>
    match session.resolveRoot given with
    | .ok root =>
      let loaded ← image.loadProject root
      match packagesRoot? environment session loaded.files root with
      | some store => loaded.loadPath .packages store
      | none => return loaded
    | .error _ => return image
  | .errorLogRequested message =>
    IO.eprintln message
    return image

/-- Store the files that have changed, each by moving it into its place. A file that is
stored gets the mode of new files. -/
def storeChanges (environment : Environment) (before after : FileSystem) : IO Unit := do
  for (location, entry) in after.entries do
    match entry with
    | .file contents _ =>
      if before.find? location ≠ some entry then
        let path := Path.ofLocation location
        let aside := (AtomicWrite.temporary environment.processId path).display
        IO.FS.createDirAll (textOf location.dropLast)
        IO.FS.writeBinFile aside (ByteArray.mk contents.toArray)
        IO.FS.rename aside path.display
    | _ => pure ()

/-- Run an action on an image and store what it changes. -/
def Image.run {Value : Type} (image : Image) (environment : Environment)
    (action : StateM FileSystem Value) : IO Value := do
  let (value, changed) := action.run image.files
  storeChanges environment image.files changed
  return value

/-- Print how a run ends, and give its exit code. -/
def conclude (outcome : Outcome) : IO UInt32 := do
  let output ← IO.getStdout
  output.putStr (String.ofList outcome.output)
  output.flush
  match outcome.failure, outcome.report? with
  | some (.misuse .nothingAsked), _ => IO.eprint CommandLine.usage
  | _, some report => IO.eprintln report
  | _, none => pure ()
  return outcome.exitCode

/-- Read the bytes of a line with its end; none at the end of the input. -/
partial def readLine (input : IO.FS.Stream) (line : ByteArray) : IO ByteArray := do
  let next ← input.read 1
  if next.isEmpty || next = ByteArray.mk #[Line.newline] then return line ++ next
  else readLine input (line ++ next)

/-- Serve lines up to the end of the input. -/
partial def serveLines (environment : Environment) (session : Session) : IO Service := do
  let line := (← readLine (← IO.getStdin) ByteArray.empty).toList
  if line.isEmpty then return Service.start
  let image ← match Command.ofBytes (Service.body line) with
    | .ok command => loadFor environment session command
    | .error _ => emptyImage
  let service ← image.run environment (Service.serveLine session environment Service.start line)
  let output ← IO.getStdout
  output.putStr (String.ofList service.output)
  output.flush
  if service.stopped then return { service with output := [] }
  serveLines environment session

/-- Carry out a task in a session. -/
def perform (environment : Environment) (session : Session) (task : CommandLine.Task) :
    IO Outcome := do
  let attempt := fun (image : Image) => do
    match ← image.run environment (task.attempt session environment []).run with
    | .ok outcome => return outcome
    | .error error => return .failed error
  match task with
  | .replace file first last text =>
    attempt (← loadFor environment session (.replaceInFile file first last text))
  | .index root _ => attempt (← loadFor environment session (.listFilesForIndex (some root)))
  | .sources root _ =>
    attempt (← loadFor environment session (.listUserSourceFiles (some root)))
  | .serve none => return .ofService (← serveLines environment session)
  | .serve (some root) =>
    match session.openProject (← (← emptyImage).loadPath .alone root.manifest).files root with
    | .ok opened => return .ofService (← serveLines environment opened)
    | .error error => return .failed error

/-- Carry out a request. -/
def carryOut (environment : Environment) (request : Request) : IO Outcome := do
  let image ← emptyImage
  let loaded ← match request.settings.or (Settings.defaultPath? environment) with
    | some path => image.loadPath .alone path
    | none => pure image
  match ← loaded.run environment (request.loadSettings environment).run with
  | .ok settings => perform environment (Session.start settings) request.task
  | .error error => return .failed error

end ElmWorkbench.Machine

open ElmWorkbench in
/-- Run the program. -/
def main (arguments : List String) : IO UInt32 := do
  let environment ← Machine.readEnvironment
  match CommandLine.Request.inEnvironment environment arguments with
  | .ok request => do
    Machine.conclude (← Machine.carryOut environment request)
  | .error misuse => Machine.conclude (.ofMisuse misuse)
