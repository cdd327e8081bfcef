import ElmWorkbench.FileSystem.AtomicWrite
import ElmWorkbench.Json.Sorted
import ElmWorkbench.Settings.Basic
import ElmWorkbench.Text.LowerCase
import ElmWorkbench.Toml.Document
import ElmWorkbench.Toml.Writer
import ElmWorkbench.Yaml.Writer
/-!
# Settings files

The extension of a file tells the format that settings, or values of any shape, are
stored in. A file is read as a whole, and written as a whole.
-/

namespace ElmWorkbench

open Json (Reader Value)

namespace DataFormat

/-- The format that an extension in lower case tells. -/
def ofExtension? (extension : String) : Option DataFormat :=
  if extension = "toml" then some .toml
  else if extension = "json" then some .json
  else if extension = "yaml" || extension = "yml" then some .yaml
  else none

/-- The format of a file. -/
def ofPath (path : Path) : Except Error DataFormat :=
  let extension := Text.lower ((path.extension?.map Utf8.decodeLossy).getD "")
  match ofExtension? extension with
  | some format => .ok format
  | none => .error (.formatUnknown extension)

/-- What is told about a document that does not hold what it should. -/
def malformed : String :=
  "the document is malformed"

/-- What is told about a value that has no form. -/
def formless : String :=
  "the value has no form"

/-- A result, or else the fault of a document. -/
def orMalformed {Value : Type} : Option Value → Except String Value
  | some value => .ok value
  | none => .error malformed

/-- Read JSON from a text. -/
def readJson {Value : Type} (reader : Reader Value) (content : String) : Except String Value :=
  (Reader.runWhole reader (Utf8.encode content)).mapError Json.Failure.message

/-- Read settings from a text; the fault if that is impossible. -/
def readSettings (format : DataFormat) (content : String) : Except String Settings :=
  match format with
  | .toml => orMalformed ((Toml.read? content).bind Settings.ofToml?)
  | .json => readJson (Reader.record .direct Settings.shape) content
  | .yaml => orMalformed ((Yaml.Document.ofText? content).bind Settings.ofYaml?)

/-- Read a value of any shape from a text; the fault if that is impossible. -/
def readValue (format : DataFormat) (content : String) : Except String Value :=
  Value.sorted <$> match format with
  | .toml => orMalformed (Toml.read? content)
  | .json => readJson (Reader.value Json.nestingBound) content
  | .yaml => orMalformed (Yaml.read? content)

/-- Write a value; the fault if it has no form. -/
def write (format : DataFormat) (value : Value) : Except String String :=
  match format with
  | .toml => (Toml.write? value).elim (.error formless) .ok
  | .json =>
    let output := value.pretty
    if output.complete then .ok (String.ofList output.text) else .error Json.pathNotText
  | .yaml => (Yaml.write? value).elim (.error formless) .ok

/-- Load a file in the format that its extension tells. -/
def load {Value : Type} (read : DataFormat → String → Except String Value)
    (files : FileSystem) (path : Path) : Except Error Value := do
  let format ← ofPath path
  let content ← FileSystem.concerning path (files.readText path)
  (read format content).mapError (Error.settingsUnreadable format path)

/-- Save a value in the format that the extension of a file tells. -/
def save (processId : Nat) (path : Path) (value : Value) : Attempt Unit := do
  let content ← Attempt.look fun _ => do
    let format ← ofPath path
    (write format value).mapError (Error.settingsUnwritable format path)
  AtomicWrite.write processId path (Utf8.encode content)

end DataFormat

namespace Settings

/-- Load settings from a file. -/
def load (files : FileSystem) (path : Path) : Except Error Settings :=
  DataFormat.load DataFormat.readSettings files path

/-- Load settings from a file; those of a file that does not exist are the defaults. -/
def loadOrDefault (files : FileSystem) (path : Path) : Except Error Settings :=
  match load files path with
  | .error (.system _ .notFound) => .ok default
  | other => other

/-- Save settings in a file. -/
def save (processId : Nat) (path : Path) (settings : Settings) : Attempt Unit :=
  DataFormat.save processId path settings.toValue

/-- Where settings are looked for if no file is given. -/
def defaultPath? (environment : Environment) : Option Path :=
  environment.settingsDirectory?.map fun directory =>
    (directory.child "elm-ide").child "config.toml"

/-- The settings at the default place, or the defaults. -/
def discover (files : FileSystem) (environment : Environment) : Except Error Settings :=
  match defaultPath? environment with
  | some path => loadOrDefault files path
  | none => .ok default

end Settings

/-- Load a value of any shape from a file. -/
def loadValue (files : FileSystem) (path : Path) : Except Error Value :=
  DataFormat.load DataFormat.readValue files path

/-- Save a value of any shape in a file. -/
def saveValue (processId : Nat) (path : Path) (value : Value) : Attempt Unit :=
  DataFormat.save processId path value.sorted

end ElmWorkbench
