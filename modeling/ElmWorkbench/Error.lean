import ElmWorkbench.Edit.Position
import ElmWorkbench.Path
/-!
# Errors

Everything that a request can fail with, as causes. `Error.message` is the one
place that words them, and `Error.kind` sorts them into the categories that a
host is told apart.
-/

namespace ElmWorkbench

/-- Why the operating system refuses an operation on files. -/
inductive SystemCause where
  | notFound
  | busy
  | exists
  | notDirectory
  | isDirectory
  | nameTooLong
  | tooManyLinks
  /-- A path with a zero byte names nothing that the system could look up. -/
  | zeroByte
  /-- Contents that are read as text are not UTF-8. -/
  | notText
  deriving DecidableEq, Repr

/-- The wording of a system cause. -/
def SystemCause.message : SystemCause → String
  | .notFound => "No such file or directory (os error 2)"
  | .busy => "Device or resource busy (os error 16)"
  | .exists => "File exists (os error 17)"
  | .notDirectory => "Not a directory (os error 20)"
  | .isDirectory => "Is a directory (os error 21)"
  | .nameTooLong => "File name too long (os error 36)"
  | .tooManyLinks => "Too many levels of symbolic links (os error 40)"
  | .zeroByte => "file name contained an unexpected NUL byte"
  | .notText => "stream did not contain valid UTF-8"

/-- A format in which settings are stored. -/
inductive DataFormat where
  | toml
  | json
  | yaml
  deriving DecidableEq, Repr

/-- The name of a format in messages. -/
def DataFormat.name : DataFormat → String
  | .toml => "TOML"
  | .json => "JSON"
  | .yaml => "YAML"

/-- Why a request fails. -/
inductive Error where
  /-- The file to edit does not exist. -/
  | fileNotFound (path : Path)
  /-- A range ends on a line that the text does not have. -/
  | rangeOutOfBounds (line lineCount : Nat)
  /-- A range starts after it ends. -/
  | rangeReversed (first last : Position)
  /-- A text that should be a position is not one. -/
  | positionUnreadable (text : String)
  /-- A project has no manifest. -/
  | manifestMissing (path : Path)
  /-- A manifest does not hold what it should. -/
  | manifestMalformed (path : Path) (detail : String)
  /-- The store of downloaded packages, or a package in it, is missing. -/
  | packagesUnavailable (path : Path)
  /-- A request names no project and none is open. -/
  | noProjectOpen
  /-- A message of the host is not a command. -/
  | commandUnreadable (detail : String)
  /-- Stored settings do not parse. -/
  | settingsUnreadable (format : DataFormat) (path : Path) (detail : String)
  /-- A value has no form in the format it should be stored in. -/
  | settingsUnwritable (format : DataFormat) (path : Path) (detail : String)
  /-- No format belongs to the extension of a settings file. -/
  | formatUnknown (extension : String)
  /-- A walk starts at something that is not a directory. -/
  | notDirectory (path : Path)
  /-- The operating system refuses an operation. -/
  | system (path : Path) (cause : SystemCause)
  deriving DecidableEq, Repr

/-- The categories of failure that a host is told apart. -/
inductive ErrorKind where
  | fileNotFound
  | fileRangeOutOfBounds
  | invalidRange
  | manifestMissing
  | manifestMalformed
  | dependencyCacheUnavailable
  | noActiveProject
  | invalidCommand
  | config
  | io
  deriving DecidableEq, Repr

namespace ErrorKind

/-- All categories, in the order in which they are listed to a host. -/
def all : List ErrorKind :=
  [fileNotFound, fileRangeOutOfBounds, invalidRange, manifestMissing, manifestMalformed,
   dependencyCacheUnavailable, noActiveProject, invalidCommand, config, io]

/-- The name of a category in a message to the host. -/
def name : ErrorKind → String
  | .fileNotFound => "FileNotFound"
  | .fileRangeOutOfBounds => "FileRangeOutOfBounds"
  | .invalidRange => "InvalidRange"
  | .manifestMissing => "ManifestMissing"
  | .manifestMalformed => "ManifestMalformed"
  | .dependencyCacheUnavailable => "DependencyCacheUnavailable"
  | .noActiveProject => "NoActiveProject"
  | .invalidCommand => "InvalidCommand"
  | .config => "Config"
  | .io => "Io"

end ErrorKind

namespace Error

/-- The category of an error. -/
def kind : Error → ErrorKind
  | .fileNotFound _ => .fileNotFound
  | .rangeOutOfBounds _ _ => .fileRangeOutOfBounds
  | .rangeReversed _ _ => .invalidRange
  | .positionUnreadable _ => .invalidRange
  | .manifestMissing _ => .manifestMissing
  | .manifestMalformed _ _ => .manifestMalformed
  | .packagesUnavailable _ => .dependencyCacheUnavailable
  | .noProjectOpen => .noActiveProject
  | .commandUnreadable _ => .invalidCommand
  | .settingsUnreadable _ _ _ => .config
  | .settingsUnwritable _ _ _ => .config
  | .formatUnknown _ => .config
  | .notDirectory _ => .io
  | .system _ _ => .io

/-- The wording of an error. -/
def message : Error → String
  | .fileNotFound path => "File not found: " ++ path.display
  | .rangeOutOfBounds line lineCount =>
    "Range ends on line " ++ toString line ++ " but the file has " ++ toString lineCount
      ++ " lines"
  | .rangeReversed first last =>
    "Invalid range: start " ++ first.display ++ " is after end " ++ last.display
  | .positionUnreadable text => "Invalid position '" ++ text ++ "': expected LINE:COLUMN"
  | .manifestMissing path => "project manifest not found: " ++ path.display
  | .manifestMalformed path detail =>
    "malformed project manifest at " ++ path.display ++ ": " ++ detail
  | .packagesUnavailable path => "dependency cache unavailable at " ++ path.display
  | .noProjectOpen => "no project is open in this session"
  | .commandUnreadable detail => "invalid command: " ++ detail
  | .settingsUnreadable format path detail =>
    "Failed to parse " ++ format.name ++ " config at " ++ path.display ++ ": " ++ detail
  | .settingsUnwritable format path detail =>
    "Failed to serialize " ++ format.name ++ " config for " ++ path.display ++ ": " ++ detail
  | .formatUnknown extension => "Unsupported config format: " ++ extension
  | .notDirectory path => "Not a directory: " ++ path.display
  | .system path cause => "I/O error at " ++ path.display ++ ": " ++ cause.message

end Error

end ElmWorkbench
