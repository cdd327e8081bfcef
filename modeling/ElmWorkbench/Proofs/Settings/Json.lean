import ElmWorkbench.Proofs.Json.Message
import ElmWorkbench.Settings.File
/-!
# Settings in JSON

Settings whose paths are UTF-8 are written in full and read back (`Settings.readSettings_json`).
-/

namespace ElmWorkbench

open Json (Passes Reader Takes Value reads_fieldAfter)

namespace Json

/-- A truth value is read back. -/
theorem Takes.boolean (flag : Bool) : Takes Reader.boolean (.boolean flag) flag := by
  have means : Means (Value.boolean flag).bytes (.boolean flag) := by
    cases flag with
    | true => exact .yes
    | false => exact .no
  exact (means.takes trivial).tell fun rest => Reader.reads_pure flag rest

end Json

namespace Settings

/-- The paths that are set. -/
def paths (settings : Settings) : List Path :=
  settings.dependencyCacheRoot.toList ++ settings.elmHome.toList

/-- A path that is set is read into its field, and one that is not set leaves it as it is. -/
theorem passes_pathEntry {key : String} {field : Json.Field Draft} {draft next final : Draft}
    {path : Option Path} {others : List (String × Value)} {fill : Option Path → Draft}
    (isText : ∀ written ∈ path.toList, written.text?.isSome)
    (named : shape.fields.find? (fun field => field.name = key) = some field)
    (free : field.isFilled draft = false)
    (reads : field.read draft = do
      let path ← Reader.optional Reader.path
      pure (fill path))
    (set : ∀ written, path = some written → fill (some written) = next)
    (unset : path = none → draft = next)
    (more : Passes (Reader.fieldAfter shape.fields) next others final) :
    Passes (Reader.fieldAfter shape.fields) draft (pathEntry key path ++ others) final := by
  cases path with
  | none => exact unset rfl ▸ more
  | some written =>
    refine .entry (reads_fieldAfter named free ?_) more
    rw [reads, ← set written rfl]
    exact (Takes.present (isText written List.mem_cons_self)).tell fun rest =>
      Reader.reads_pure _ rest

/-- The object of settings is read back. -/
theorem takes_toValue {settings : Settings} (isText : ∀ path ∈ settings.paths, path.text?.isSome) :
    Takes (Reader.record .direct shape) settings.toValue settings := by
  obtain ⟨cacheIsText, homeIsText⟩ := List.forall_mem_append.mp isText
  obtain ⟨cache, home, parallel⟩ := settings
  let filled : Draft := ⟨cache.map some, home.map some, some parallel⟩
  have built : shape.build filled = .ok ⟨cache, home, parallel⟩ := by
    cases cache <;> cases home <;> rfl
  have flag : Passes (Reader.fieldAfter shape.fields) { filled with parallelReads := none }
      [(parallelReadsKey, .boolean parallel)] filled :=
    .entry (reads_fieldAfter rfl rfl
      ((Takes.boolean parallel).tell fun rest => Reader.reads_pure _ rest)) .done
  have fromHome : Passes (Reader.fieldAfter shape.fields)
      { filled with elmHome := none, parallelReads := none }
      (pathEntry elmHomeKey home ++ [(parallelReadsKey, .boolean parallel)]) filled :=
    passes_pathEntry homeIsText rfl rfl rfl (fun written set => by simp [filled, set])
      (fun unset => by simp [filled, unset]) flag
  have fromCache : Passes (Reader.fieldAfter shape.fields) shape.empty
      (pathEntry dependencyCacheRootKey cache
        ++ (pathEntry elmHomeKey home ++ [(parallelReadsKey, .boolean parallel)])) filled :=
    passes_pathEntry cacheIsText rfl rfl rfl
      (fun written set => by simp [filled, set, shape, Draft.empty])
      (fun unset => by simp [filled, unset, shape, Draft.empty]) fromHome
  rw [toValue, List.append_assoc]
  exact fromCache.takes_record built rfl

/-- The paths in the encoding of settings are the paths that are set. -/
theorem holds_toValue_iff {settings : Settings} {path : Path} :
    settings.toValue.Holds path ↔ path ∈ settings.paths := by
  obtain ⟨cache | cache, home | home, parallel⟩ := settings <;>
    simp [toValue, pathEntry, paths]

/-- Settings are written in lines and read back. -/
theorem readSettings_json {settings : Settings}
    (isText : ∀ path ∈ settings.paths, path.text?.isSome) :
    ∃ content, DataFormat.write .json settings.toValue = .ok content ∧
      DataFormat.readSettings .json content = .ok settings := by
  have complete : settings.toValue.pretty.complete := by
    refine (Value.write_complete_iff (.lines 0) _).mpr fun path holds => ?_
    exact isText path (holds_toValue_iff.mp holds)
  have spells : settings.toValue.Spells (Utf8.encodeChars settings.toValue.pretty.text) :=
    ⟨_, [], Value.spaced_write (.lines 0) complete, by decide, (List.append_nil _).symm⟩
  refine ⟨String.ofList settings.toValue.pretty.text, if_pos complete, ?_⟩
  rw [DataFormat.readSettings, DataFormat.readJson, Utf8.encode, String.toList_ofList,
    (takes_toValue isText).runWhole spells]
  rfl

end Settings

end ElmWorkbench
