import ElmWorkbench.Json.Record
import ElmWorkbench.Project.PackageStore
import ElmWorkbench.Yaml.Reading
/-!
# Settings

What a user can set, and how settings are read from stored values. Every setting may be
left out, and keys that are no settings are skipped.
-/

namespace ElmWorkbench

open Json (Reader Shape Value)

/-- What a user can set. -/
structure Settings where
  /-- A store of packages that is used as it is, before any Elm home. -/
  dependencyCacheRoot : Option Path
  /-- An Elm home to use instead of the one that the environment tells. -/
  elmHome : Option Path
  /-- Whether files of an index may be read at the same time. -/
  parallelReads : Bool
  deriving DecidableEq, Repr

namespace Settings

/-- The settings of a user who sets nothing. -/
def default : Settings where
  dependencyCacheRoot := none
  elmHome := none
  parallelReads := true

/-- The store of packages that the settings choose. -/
def packageStore (settings : Settings) : PackageStore :=
  match settings.dependencyCacheRoot, settings.elmHome with
  | some root, _ => .fixed root
  | none, some home => .elmHome home
  | none, none => .discover

/-- The key of the store of packages. -/
def dependencyCacheRootKey : String := "dependency_cache_root"

/-- The key of the Elm home. -/
def elmHomeKey : String := "elm_home"

/-- The key of parallel reads. -/
def parallelReadsKey : String := "parallel_reads"

/-- An entry with a path, if there is one. -/
def pathEntry (key : String) (path : Option Path) : List (String × Value) :=
  path.toList.map fun written => (key, .path written)

/-- Settings as a stored value; paths that are not set are left out. -/
def toValue (settings : Settings) : Value :=
  .object (pathEntry dependencyCacheRootKey settings.dependencyCacheRoot
    ++ pathEntry elmHomeKey settings.elmHome
    ++ [(parallelReadsKey, .boolean settings.parallelReads)])

/-- Settings of which some have been read. -/
structure Draft where
  dependencyCacheRoot : Option (Option Path)
  elmHome : Option (Option Path)
  parallelReads : Option Bool

namespace Draft

/-- Settings of which none has been read. -/
def empty : Draft where
  dependencyCacheRoot := none
  elmHome := none
  parallelReads := none

/-- The settings, with defaults for those that have not been read. -/
def settings (draft : Draft) : Settings where
  dependencyCacheRoot := draft.dependencyCacheRoot.getD default.dependencyCacheRoot
  elmHome := draft.elmHome.getD default.elmHome
  parallelReads := draft.parallelReads.getD default.parallelReads

end Draft

/-- The fields of settings in JSON. -/
def shape : Shape Draft Settings where
  title := "struct IdeConfig"
  empty := Draft.empty
  fields :=
    [{ name := dependencyCacheRootKey, isOptional := true
       isFilled := fun draft => draft.dependencyCacheRoot.isSome
       read := fun draft => do
         let path ← Reader.optional Reader.path
         pure { draft with dependencyCacheRoot := some path } },
     { name := elmHomeKey, isOptional := true
       isFilled := fun draft => draft.elmHome.isSome
       read := fun draft => do
         let path ← Reader.optional Reader.path
         pure { draft with elmHome := some path } },
     { name := parallelReadsKey, isOptional := true
       isFilled := fun draft => draft.parallelReads.isSome
       read := fun draft => do
         let value ← Reader.boolean
         pure { draft with parallelReads := some value } }]
  build := fun draft => .ok draft.settings

/-- The value of a key. -/
def valueAt? (entries : List (String × Value)) (key : String) : Option Value :=
  (entries.find? fun entry => entry.1 = key).map Prod.snd

/-- A path that a stored value sets, if it is there; it must be a text. -/
def pathOf? : Option Value → Option (Option Path)
  | none => some none
  | some (.text written) => some (some (Path.ofString written))
  | some _ => none

/-- A truth value that a stored value sets, or else the given one. -/
def booleanOf? (otherwise : Bool) : Option Value → Option Bool
  | none => some otherwise
  | some (.boolean value) => some value
  | some _ => none

/-- Settings from the value of a TOML document. -/
def ofToml? : Value → Option Settings
  | .object entries => do
    let dependencyCacheRoot ← pathOf? (valueAt? entries dependencyCacheRootKey)
    let elmHome ← pathOf? (valueAt? entries elmHomeKey)
    let parallelReads ← booleanOf? default.parallelReads (valueAt? entries parallelReadsKey)
    pure { dependencyCacheRoot, elmHome, parallelReads }
  | _ => none

/-- A path in a YAML document: any scalar, as its text, or none if it is a missing
value. -/
def yamlPath (node : Yaml.Node) : Yaml.Read (Option Path) := do
  let written ← Yaml.Read.optionalText node
  pure (written.map Path.ofString)

/-- Read the setting of a key in a YAML document. Other keys are skipped. -/
def readYamlEntry (draft : Draft) (key : String) (node : Yaml.Node) : Yaml.Read Draft := do
  if key = dependencyCacheRootKey then
    if draft.dependencyCacheRoot.isSome then failure
    let path ← yamlPath node
    pure { draft with dependencyCacheRoot := some path }
  else if key = elmHomeKey then
    if draft.elmHome.isSome then failure
    let path ← yamlPath node
    pure { draft with elmHome := some path }
  else if key = parallelReadsKey then
    if draft.parallelReads.isSome then failure
    let value ← Yaml.Read.boolean node
    pure { draft with parallelReads := some value }
  else pure draft

/-- Read settings from the entries of a YAML mapping. -/
def readYamlEntries (entries : List (Yaml.Node × Yaml.Node)) : Yaml.Read Draft :=
  entries.foldlM (fun draft entry => do
    let key ← Yaml.Read.text entry.1
    readYamlEntry draft key entry.2) Draft.empty

/-- Read settings from the elements of a YAML list, in the order of the settings. -/
def readYamlElements (elements : List Yaml.Node) : Yaml.Read Draft := do
  let keys := [dependencyCacheRootKey, elmHomeKey, parallelReadsKey]
  if keys.length < elements.length then failure
  (keys.zip elements).foldlM (fun draft entry => readYamlEntry draft entry.1 entry.2) Draft.empty

/-- Read settings from a node of a YAML document. An empty plain scalar sets nothing. -/
def readYaml (node : Yaml.Node) : Yaml.Read Settings := do
  match ← Yaml.Read.follow node with
  | .mapping _ entries => Draft.settings <$> readYamlEntries entries
  | .list _ elements => Draft.settings <$> readYamlElements elements
  | .scalar _ .plain "" => pure default
  | _ => failure

/-- Settings from a YAML document. -/
def ofYaml? (document : Yaml.Document) : Option Settings :=
  match document.root with
  | none => some default
  | some root => (readYaml root).run document

end Settings

end ElmWorkbench
