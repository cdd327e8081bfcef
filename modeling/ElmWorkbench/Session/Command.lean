import ElmWorkbench.Edit.Encoding
import ElmWorkbench.Json.Variant
/-!
# Commands of the host

What a host can ask for, how it is written in a message, and how it is read.
-/

namespace ElmWorkbench

open Json (Field Passage Reader Shape Value Variant)

/-- A request of the host. -/
inductive Command where
  /-- Replace the text between two positions of a file. -/
  | replaceInFile (path : Path) (first last : Position) (replacement : String)
  /-- List the files of a search index with their contents. -/
  | listFilesForIndex (projectRoot : Option Path)
  /-- List the sources of a project. -/
  | listUserSourceFiles (projectRoot : Option Path)
  /-- Record a text in the error log. -/
  | errorLogRequested (message : String)
  deriving DecidableEq, Repr

namespace Command

/-- The name of a command in messages. -/
def tag : Command → String
  | .replaceInFile _ _ _ _ => "ReplaceInFile"
  | .listFilesForIndex _ => "ListFilesForIndex"
  | .listUserSourceFiles _ => "ListUserSourceFiles"
  | .errorLogRequested _ => "ErrorLogRequested"

/-- A project root in a message; a command that names none says so. -/
def rootToJson : Option Path → Value
  | none => .null
  | some root => .path root

/-- The contents of a command in a message. -/
def dataToJson : Command → Value
  | .replaceInFile path first last replacement =>
    .object
      [("path", .path path), ("from", first.toJson), ("to", last.toJson),
       ("replacement", .text replacement)]
  | .listFilesForIndex root => .object [("project_root", rootToJson root)]
  | .listUserSourceFiles root => .object [("project_root", rootToJson root)]
  | .errorLogRequested message => .text message

/-- A command as a message. -/
def toJson (command : Command) : Value :=
  .object [(Json.tagKey, .text command.tag), (Json.dataKey, command.dataToJson)]

/-- The parts of a replacement that have been read. -/
structure ReplacementDraft where
  path : Option Path
  first : Option Position
  last : Option Position
  replacement : Option String

/-- The fields of a replacement. -/
def replacementShape (passage : Passage) : Shape ReplacementDraft Command where
  title := "struct variant Command::ReplaceInFile"
  empty := { path := none, first := none, last := none, replacement := none }
  fields :=
    [{ name := "path", isOptional := false, isFilled := fun draft => draft.path.isSome
       read := fun draft => do
         let path ← Reader.path
         pure { draft with path := some path } },
     { name := "from", isOptional := false, isFilled := fun draft => draft.first.isSome
       read := fun draft => do
         let first ← Position.read passage
         pure { draft with first := some first } },
     { name := "to", isOptional := false, isFilled := fun draft => draft.last.isSome
       read := fun draft => do
         let last ← Position.read passage
         pure { draft with last := some last } },
     { name := "replacement", isOptional := false
       isFilled := fun draft => draft.replacement.isSome
       read := fun draft => do
         let replacement ← Reader.text
         pure { draft with replacement := some replacement } }]
  build := fun draft => do
    let path ← Json.required "path" draft.path
    let first ← Json.required "from" draft.first
    let last ← Json.required "to" draft.last
    let replacement ← Json.required "replacement" draft.replacement
    pure (.replaceInFile path first last replacement)

/-- The single field of a listing; `none` means that it has not been read. -/
def listingShape (title : String) (build : Option Path → Command) :
    Shape (Option (Option Path)) Command where
  title := "struct variant Command::" ++ title
  empty := none
  fields :=
    [{ name := "project_root", isOptional := true, isFilled := Option.isSome
       read := fun _ => some <$> Reader.optional Reader.path }]
  build := fun draft => .ok (build (draft.getD none))

/-- A kind of command whose contents cannot be left out. -/
def variant (name : String) (read : Passage → Reader Command) : Variant Command where
  name := name
  read := read
  withoutData := .error (.fieldMissing Json.dataKey)

/-- All kinds of commands. -/
def variants : List (Variant Command) :=
  [variant "ReplaceInFile" fun passage => Reader.fields (replacementShape passage),
   variant "ListFilesForIndex" fun _ =>
    Reader.fields (listingShape "ListFilesForIndex" .listFilesForIndex),
   variant "ListUserSourceFiles" fun _ =>
    Reader.fields (listingShape "ListUserSourceFiles" .listUserSourceFiles),
   variant "ErrorLogRequested" fun _ => .errorLogRequested <$> Reader.text]

/-- Read a command from the bytes of a message. -/
def ofBytes (bytes : Bytes) : Except Error Command :=
  match Reader.runWhole (Reader.message "adjacently tagged enum Command" variants) bytes with
  | .ok command => .ok command
  | .error failure => .error (.commandUnreadable failure.message)

end Command

end ElmWorkbench
