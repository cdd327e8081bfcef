import ElmWorkbench.Proofs.Settings.Toml
import ElmWorkbench.Proofs.Yaml.Text
/-!
# Settings in YAML

Settings whose paths are texts without control characters are written in lines and read back
(`Settings.readSettings_yaml`).
-/

namespace ElmWorkbench

open Json (Value)

namespace Yaml

/-- A text that is written without marks is no missing value. -/
theorem not_missing_of_plain {text : String} (solid : Text.AreSolid text.toList)
    (plain : Style.of text = .plain) : (text.isEmpty || isNullWord text) = false := by
  rcases style_cases solid with ⟨-, isWord, -⟩ | ⟨single, -⟩ | double
  · refine Bool.eq_false_iff.mpr fun missing => ?_
    rw [Meaning.of, if_pos missing] at isWord
    cases isWord
  · rw [single] at plain
    cases plain
  · rw [double] at plain
    cases plain

/-- The scalar that is written for a text is not missing. -/
theorem optionalText_markOf {text : String} (solid : Text.AreSolid text.toList) :
    Read.optionalText (.scalar none (markOf text) text) = pure (some text) := by
  funext document count
  rw [markOf]
  split
  · next plain =>
    have present := not_missing_of_plain solid plain
    change some (if (text.isEmpty || isNullWord text) = true then none else some text, count) = _
    rw [present]
    rfl
  · rfl

end Yaml

namespace Settings

open Yaml (markOf)

/-- The scalar that a text is written as is read back as its path. -/
theorem yamlPath_markOf {text : String} (solid : Text.AreSolid text.toList) :
    yamlPath (.scalar none (markOf text) text) = pure (some (Path.ofString text)) := by
  rw [yamlPath, Yaml.optionalText_markOf solid]
  rfl

/-- The keys of settings are written as they are. -/
theorem isKey_of_setting {key : String}
    (setting : key ∈ [dependencyCacheRootKey, elmHomeKey, parallelReadsKey]) :
    Yaml.Layout.IsKey key := by
  simp only [List.mem_cons, List.not_mem_nil, or_false] at setting
  rcases setting with rfl | rfl | rfl <;>
    exact ⟨by decide +kernel, by decide +kernel, by decide +kernel, ⟨_, _, rfl, by decide⟩,
      by decide +kernel, by decide +kernel, by decide +kernel⟩

/-- The scalar that is read for the text of a path, if there is one. -/
def scalarEntry (key : String) (text : Option String) :
    List (String × Yaml.ScalarStyle × List Char) :=
  text.toList.map fun written => (key, markOf written, written.toList)

/-- The line of a path, if it is set, comes before the others and is read back as its text. -/
theorem exists_yamlLines_pathEntry (key : String) {text : Option String}
    {entries : List (String × Value)} {written : List Char}
    {scalars : List (String × Yaml.ScalarStyle × List Char)} (isKey : Yaml.Layout.IsKey key)
    (solid : ∀ inside ∈ text, Text.AreSolid inside.toList)
    (others : Yaml.Lines entries written scalars) :
    ∃ written, Yaml.Lines (pathEntry key (text.map Path.ofString) ++ entries) written
      (scalarEntry key text ++ scalars) := by
  cases text with
  | none => exact ⟨written, others⟩
  | some inside =>
    have stands := Yaml.stands_path (Path.text?_eq_some_iff.mpr rfl) (solid inside rfl)
    exact ⟨_, .cons isKey stands others⟩

/-- Read the setting of one entry of a mapping. -/
def readYamlNext (draft : Draft) (entry : Yaml.Node × Yaml.Node) : Yaml.Read Draft := do
  let key ← Yaml.Read.text entry.1
  readYamlEntry draft key entry.2

/-- The scalar of a path that is set is read into its field, and one that is not set leaves the
draft as it is. -/
theorem foldlM_scalarEntry {key : String} {text : Option String} {draft filled : Draft}
    {others : List (String × Yaml.ScalarStyle × List Char)}
    (set : ∀ written ∈ text,
      readYamlEntry draft key (.scalar none (markOf written) written) = pure filled)
    (unset : text = none → draft = filled) :
    ((scalarEntry key text ++ others).map Yaml.entryNodes).foldlM readYamlNext draft =
      (others.map Yaml.entryNodes).foldlM readYamlNext filled := by
  cases text with
  | none => rw [unset rfl]; rfl
  | some written =>
    have read : readYamlNext draft (Yaml.entryNodes (key, markOf written, written.toList)) =
        pure filled := by
      rw [Yaml.entryNodes, String.ofList_toList]
      exact set written rfl
    change List.foldlM _ _ (Yaml.entryNodes (key, markOf written, written.toList) :: _) = _
    rw [List.foldlM_cons, read]
    rfl

/-- The scalar under the key of the cache is taken for its path. -/
theorem readYamlEntry_cache {draft : Draft} {text : String} (solid : Text.AreSolid text.toList)
    (free : draft.dependencyCacheRoot = none) :
    readYamlEntry draft dependencyCacheRootKey (.scalar none (markOf text) text) =
      pure { draft with dependencyCacheRoot := some (some (.ofString text)) } := by
  rw [readYamlEntry, if_pos rfl, free, yamlPath_markOf solid]
  rfl

/-- The scalar under the key of the Elm home is taken for its path. -/
theorem readYamlEntry_home {draft : Draft} {text : String} (solid : Text.AreSolid text.toList)
    (free : draft.elmHome = none) :
    readYamlEntry draft elmHomeKey (.scalar none (markOf text) text) =
      pure { draft with elmHome := some (some (.ofString text)) } := by
  rw [readYamlEntry, if_neg (by decide), if_pos rfl, free, yamlPath_markOf solid]
  rfl

/-- The nodes of settings are read back. -/
theorem readYaml_scalars {cache home : Option String} (parallel : Bool)
    (solidCache : ∀ text ∈ cache, Text.AreSolid text.toList)
    (solidHome : ∀ text ∈ home, Text.AreSolid text.toList) :
    readYaml (.mapping none ((scalarEntry dependencyCacheRootKey cache
        ++ (scalarEntry elmHomeKey home
          ++ [(parallelReadsKey, Yaml.ScalarStyle.plain, (toString parallel).toList)])).map
            Yaml.entryNodes)) =
      pure (ofTexts cache home parallel) := by
  let withCache : Draft := ⟨cache.map (some ∘ Path.ofString), none, none⟩
  let withHome : Draft := { withCache with elmHome := home.map (some ∘ Path.ofString) }
  have cacheSet : ∀ text ∈ cache, readYamlEntry Draft.empty dependencyCacheRootKey
      (.scalar none (markOf text) text) = pure withCache := by
    rintro text rfl
    exact readYamlEntry_cache (solidCache text rfl) rfl
  have cacheUnset : cache = none → Draft.empty = withCache := by
    rintro rfl
    rfl
  have homeSet : ∀ text ∈ home, readYamlEntry withCache elmHomeKey
      (.scalar none (markOf text) text) = pure withHome := by
    rintro text rfl
    exact readYamlEntry_home (solidHome text rfl) rfl
  have homeUnset : home = none → withCache = withHome := by
    rintro rfl
    rfl
  change Draft.settings <$> List.foldlM readYamlNext Draft.empty _ = _
  rw [foldlM_scalarEntry cacheSet cacheUnset, foldlM_scalarEntry homeSet homeUnset]
  cases cache <;> cases home <;> cases parallel <;> rfl

/-- Settings are written in lines and read back. -/
theorem readSettings_yaml {settings : Settings} (solid : settings.AreSolid) :
    ∃ content, DataFormat.write .yaml settings.toValue = .ok content ∧
      DataFormat.readSettings .yaml content = .ok settings := by
  obtain ⟨cache, home, parallel, rfl, solidCache, solidHome⟩ := solid.exists_texts
  have flag :
      Yaml.Lines [(parallelReadsKey, Value.boolean parallel)] _ [(parallelReadsKey, _, _)] :=
    .cons (isKey_of_setting (by simp)) (Yaml.stands_boolean parallel) .nil
  obtain ⟨_, fromHome⟩ :=
    exists_yamlLines_pathEntry elmHomeKey (isKey_of_setting (by simp)) solidHome flag
  obtain ⟨text, lines⟩ := exists_yamlLines_pathEntry dependencyCacheRootKey
    (isKey_of_setting (by simp)) solidCache fromHome
  refine ⟨String.ofList text, ?_, ?_⟩
  · rw [DataFormat.write, toValue, List.append_assoc, ofTexts, lines.write?_eq (by simp)]
    rfl
  · rw [DataFormat.readSettings, lines.ofText?_eq (by simp), Option.bind_some, ofYaml?]
    dsimp only
    rw [readYaml_scalars parallel solidCache solidHome]
    rfl

end Settings

end ElmWorkbench
