import ElmWorkbench.Proofs.Settings.Json
import ElmWorkbench.Proofs.Toml.Document
/-!
# Settings in TOML

Settings whose paths are texts without control characters are written in lines and read back
(`Settings.readSettings_toml`).
-/

namespace ElmWorkbench

open Json (Value)

namespace Toml

variable {text : String} {path : Path}

/-- A text begins with one of two marks. -/
theorem exists_cons_writeText (text : String) :
    ∃ mark inside, writeText text = mark :: inside ∧ (mark = '"' ∨ mark = '\x27') := by
  rw [writeText]
  cases styleOf text.toList with
  | basic => exact ⟨_, _, rfl, .inl rfl⟩
  | literal => exact ⟨_, _, rfl, .inr rfl⟩
  | basicLines => exact ⟨_, _, rfl, .inl rfl⟩
  | literalLines => exact ⟨_, _, rfl, .inr rfl⟩

/-- A path is read back as a text. -/
theorem stands_path (isText : path.text? = some text) (solid : Text.AreSolid text.toList) :
    Stands (.path path) (writeText text) (.text text) where
  isPlain := rfl
  writes := by rw [writeValue?, isText, Option.map_some]
  begins := by
    obtain ⟨mark, inside, same, isMark⟩ := exists_cons_writeText text
    rw [same]
    rintro _ ⟨⟩
    rcases isMark with rfl | rfl <;> decide
  reads rest := by
    have taken : scalar.Takes (writeText text) (.text text) ('\n' :: rest) :=
      ((takes_writeText solid rest).map Value.text).orElse
    obtain ⟨mark, inside, same, isMark⟩ := exists_cons_writeText text
    rw [same] at taken ⊢
    refine (Scan.takes_peek _).bind ?_
    rcases isMark with rfl | rfl <;> exact taken

/-- A flag is read back from its word. -/
theorem stands_boolean (flag : Bool) :
    Stands (.boolean flag) (toString flag).toList (.boolean flag) where
  isPlain := rfl
  writes := rfl
  begins := by cases flag <;> (rintro _ ⟨⟩; decide)
  reads rest := by cases flag <;> rfl

end Toml

namespace Settings

variable {settings : Settings}

/-- Every path that is set is a text without control characters. -/
def AreSolid (settings : Settings) : Prop :=
  ∀ path ∈ settings.paths, ∃ text : String, path = .ofString text ∧ Text.AreSolid text.toList

/-- Settings whose paths are texts. -/
def ofTexts (cache home : Option String) (parallel : Bool) : Settings where
  dependencyCacheRoot := cache.map Path.ofString
  elmHome := home.map Path.ofString
  parallelReads := parallel

/-- A path that is set to a solid text, or not set, is a text without control characters, or
none. -/
theorem exists_text {path : Option Path} (solid : ∀ written ∈ path.toList,
    ∃ text : String, written = .ofString text ∧ Text.AreSolid text.toList) :
    ∃ text : Option String, path = text.map Path.ofString ∧
      ∀ written ∈ text, Text.AreSolid written.toList := by
  cases path with
  | none => exact ⟨none, rfl, by simp⟩
  | some written =>
    obtain ⟨text, rfl, inside⟩ := solid written List.mem_cons_self
    exact ⟨some text, rfl, fun _ isText => Option.some.inj isText ▸ inside⟩

/-- Settings with solid paths are told by the texts of their paths. -/
theorem AreSolid.exists_texts (solid : settings.AreSolid) :
    ∃ cache home parallel, settings = ofTexts cache home parallel ∧
      (∀ text ∈ cache, Text.AreSolid text.toList) ∧ ∀ text ∈ home, Text.AreSolid text.toList := by
  obtain ⟨cache, sameCache, solidCache⟩ :=
    exists_text fun path isCache => solid path (List.mem_append_left _ isCache)
  obtain ⟨home, sameHome, solidHome⟩ :=
    exists_text fun path isHome => solid path (List.mem_append_right _ isHome)
  refine ⟨cache, home, settings.parallelReads, ?_, solidCache, solidHome⟩
  rw [ofTexts, ← sameCache, ← sameHome]

/-- The entry that is read for the text of a path, if there is one. -/
def textEntry (key : String) (text : Option String) : List (String × Value) :=
  text.toList.map fun written => (key, .text written)

/-- The line of a path, if it is set, comes before the others and is read back as its text. -/
theorem exists_lines_pathEntry (key : String) {text : Option String}
    {entries values : List (String × Value)} {written : List Char} (bare : Toml.isBare key.toList)
    (solid : ∀ inside ∈ text, Text.AreSolid inside.toList)
    (others : Toml.Lines entries written values) :
    ∃ written, Toml.Lines (pathEntry key (text.map Path.ofString) ++ entries) written
      (textEntry key text ++ values) := by
  cases text with
  | none => exact ⟨written, others⟩
  | some inside =>
    have stands := Toml.stands_path (Path.text?_eq_some_iff.mpr rfl) (solid inside rfl)
    exact ⟨_, .cons bare stands others⟩

/-- Settings are written in lines and read back. -/
theorem readSettings_toml (solid : settings.AreSolid) :
    ∃ content, DataFormat.write .toml settings.toValue = .ok content ∧
      DataFormat.readSettings .toml content = .ok settings := by
  obtain ⟨cache, home, parallel, rfl, solidCache, solidHome⟩ := solid.exists_texts
  let values := textEntry dependencyCacheRootKey cache
    ++ (textEntry elmHomeKey home ++ [(parallelReadsKey, Value.boolean parallel)])
  have flag : Toml.Lines [(parallelReadsKey, Value.boolean parallel)] _ [(parallelReadsKey, _)] :=
    .cons (by decide) (Toml.stands_boolean parallel) .nil
  obtain ⟨_, fromHome⟩ := exists_lines_pathEntry elmHomeKey (by decide) solidHome flag
  obtain ⟨text, lines⟩ :=
    exists_lines_pathEntry dependencyCacheRootKey (by decide) solidCache fromHome
  have different : (values.map Prod.fst).Nodup := by
    cases cache <;> cases home <;> simp [values, textEntry] <;> decide
  have built : ofToml? (.object values) = some (ofTexts cache home parallel) := by
    cases cache <;> cases home <;> rfl
  refine ⟨String.ofList text, ?_, ?_⟩
  · rw [DataFormat.write, toValue, List.append_assoc, ofTexts, Toml.write?_of_lines lines]
    rfl
  · rw [DataFormat.readSettings, Toml.read?_of_lines lines different, Option.bind_some, built]
    rfl

end Settings

end ElmWorkbench
