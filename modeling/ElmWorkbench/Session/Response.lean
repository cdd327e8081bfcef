import ElmWorkbench.Json.Variant
import ElmWorkbench.Project.Index
/-!
# Responses to the host

What a host is answered, how it is written in a message, and how it is read.
-/

namespace ElmWorkbench

open Json (Field Passage Reader Shape Value Variant)

namespace IndexEntry

/-- An entry in a message. -/
def toJson (entry : IndexEntry) : Value :=
  .object [("path", .path entry.path), ("content", .text entry.content)]

/-- The parts of an entry that have been read. -/
structure Draft where
  path : Option Path
  content : Option String

/-- The fields of an entry. -/
def shape : Shape Draft IndexEntry where
  title := "struct IndexEntry"
  empty := { path := none, content := none }
  fields :=
    [{ name := "path", isOptional := false, isFilled := fun draft => draft.path.isSome
       read := fun draft => do
         let path ← Reader.path
         pure { draft with path := some path } },
     { name := "content", isOptional := false, isFilled := fun draft => draft.content.isSome
       read := fun draft => do
         let content ← Reader.text
         pure { draft with content := some content } }]
  build := fun draft => do
    let path ← Json.required "path" draft.path
    let content ← Json.required "content" draft.content
    pure { path, content }

end IndexEntry

/-- An answer to the host. -/
inductive Response where
  | fileReplaced
  | filesForIndex (entries : List IndexEntry)
  | userSourceFiles (paths : List Path)
  | logged
  | failed (kind : ErrorKind) (message : String)
  deriving DecidableEq, Repr

namespace Response

/-- The answer to a command that fails. -/
def ofError (error : Error) : Response :=
  .failed error.kind error.message

/-- The name of a response in messages. -/
def tag : Response → String
  | .fileReplaced => "FileReplaced"
  | .filesForIndex _ => "FilesForIndex"
  | .userSourceFiles _ => "UserSourceFiles"
  | .logged => "Logged"
  | .failed _ _ => "Failed"

/-- The contents of a response in a message, if it has any. -/
def dataToJson? : Response → Option Value
  | .fileReplaced => none
  | .filesForIndex entries => some (.list (entries.map IndexEntry.toJson))
  | .userSourceFiles paths => some (.list (paths.map Value.path))
  | .logged => none
  | .failed kind message =>
    some (.object [("kind", .text kind.name), ("message", .text message)])

/-- A response as a message. -/
def toJson (response : Response) : Value :=
  .object ((Json.tagKey, .text response.tag)
    :: response.dataToJson?.toList.map fun contents => (Json.dataKey, contents))

/-- The parts of a failure that have been read. -/
structure FailureDraft where
  kind : Option ErrorKind
  message : Option String

/-- The fields of a failure. -/
def failureShape (passage : Passage) : Shape FailureDraft Response where
  title := "struct variant Response::Failed"
  empty := { kind := none, message := none }
  fields :=
    [{ name := "kind", isOptional := false, isFilled := fun draft => draft.kind.isSome
       read := fun draft => do
         let kind ← Reader.name (ErrorKind.all.map fun kind => (kind.name, kind)) passage
         pure { draft with kind := some kind } },
     { name := "message", isOptional := false, isFilled := fun draft => draft.message.isSome
       read := fun draft => do
         let message ← Reader.text
         pure { draft with message := some message } }]
  build := fun draft => do
    let kind ← Json.required "kind" draft.kind
    let message ← Json.required "message" draft.message
    pure (.failed kind message)

/-- A kind of response that has no contents. -/
def bare (name : String) (response : Response) : Variant Response where
  name := name
  read := fun _ => do
    Reader.noContents ("unit variant Response::" ++ name)
    pure response
  withoutData := .ok response

/-- A kind of response whose contents cannot be left out. -/
def variant (name : String) (read : Passage → Reader Response) : Variant Response where
  name := name
  read := read
  withoutData := .error (.fieldMissing Json.dataKey)

/-- All kinds of responses. -/
def variants : List (Variant Response) :=
  [bare "FileReplaced" .fileReplaced,
   variant "FilesForIndex" fun passage =>
    .filesForIndex <$> Reader.listOf (Reader.record passage IndexEntry.shape),
   variant "UserSourceFiles" fun _ => .userSourceFiles <$> Reader.listOf Reader.path,
   bare "Logged" .logged,
   variant "Failed" fun passage => Reader.fields (failureShape passage)]

/-- Read a response from the bytes of a message. -/
def ofBytes (bytes : Bytes) : Except Json.Failure Response :=
  Reader.runWhole (Reader.message "adjacently tagged enum Response" variants) bytes

end Response

end ElmWorkbench
