import ElmWorkbench.FileSystem.Resolve
/-!
# Reading files

Looking at entries through paths: the contents of files, as bytes or as text, the
kind of an entry, the path of an entry without links, and the names in a directory.
-/

namespace ElmWorkbench

/-- The path of a location. -/
def Path.ofLocation (location : Location) : Path :=
  if location = [] then ⟨[Path.separator]⟩
  else ⟨location.flatMap fun name => Path.separator :: name⟩

namespace FileSystem

/-- Whether a path leads to a directory. -/
def isDirectory (files : FileSystem) (path : Path) : Bool :=
  match files.stat path with
  | .ok (.directory _) => true
  | _ => false

/-- The absolute path without links of the entry that a path leads to. -/
def canonical (files : FileSystem) (path : Path) : Except SystemCause Path :=
  (files.locate path).map Path.ofLocation

/-- The mode of the entry that a path leads to. -/
def mode? (files : FileSystem) (path : Path) : Option Nat :=
  match files.stat path with
  | .ok (.directory mode) => some mode
  | .ok (.file _ mode) => some mode
  | _ => none

/-- The contents of a file. -/
def readBytes (files : FileSystem) (path : Path) : Except SystemCause Bytes := do
  match ← files.stat path with
  | .file contents _ => pure contents
  | _ => .error .isDirectory

/-- The text of a file. -/
def readText (files : FileSystem) (path : Path) : Except SystemCause String := do
  match Utf8.decode? (← files.readBytes path) with
  | some text => pure text
  | none => .error .notText

/-- The text of a file, with one replacement character for each damaged run. -/
def readLossy (files : FileSystem) (path : Path) : Except SystemCause String :=
  (files.readBytes path).map Utf8.decodeLossy

/-- Say which path a system cause belongs to. -/
def concerning {Value : Type} (path : Path) (result : Except SystemCause Value) :
    Except Error Value :=
  result.mapError (Error.system path)

end FileSystem

end ElmWorkbench
