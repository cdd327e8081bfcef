import ElmWorkbench.Proofs.Project.Index
import ElmWorkbench.Proofs.Text.Boundary
/-!
# Names that are texts

Where all entries have names in UTF-8, only a path in UTF-8 leads anywhere
(`FileSystem.HasTextNames.isText_of_locate`). So all paths that are listed can be written as texts,
those of the sources and those of an index.
-/

namespace ElmWorkbench

namespace Path

/-- Texts with separators between them are a text. -/
theorem isText_ofParts {parts : List Bytes} (texts : ∀ part ∈ parts, (Utf8.decode? part).isSome) :
    (ofParts parts).text?.isSome := by
  induction parts with
  | nil => decide
  | cons part others inductionHypothesis =>
    obtain ⟨here, later⟩ := List.forall_mem_cons.mp texts
    cases others with
    | nil => simpa [ofParts, text?, List.intercalate] using here
    | cons next others =>
      have front := Utf8.isSome_decode?_append here
        (show (Utf8.decode? [separator]).isSome by decide)
      simpa [ofParts, text?, List.intercalate] using
        Utf8.isSome_decode?_append front (inductionHypothesis later)

/-- A path whose parts are UTF-8 is UTF-8. -/
theorem isText_of_parts {path : Path} (texts : ∀ part ∈ path.parts, (Utf8.decode? part).isSome) :
    path.text?.isSome := by
  have whole : ofParts path.parts = path := by
    rw [ofParts, parts, List.intercalate_splitOn]
  exact whole ▸ isText_ofParts texts

/-- A path is UTF-8 if what it is joined from is. -/
theorem isText_join {path : Path} {name : Bytes} (pathIsText : path.text?.isSome)
    (nameIsText : (Utf8.decode? name).isSome) : (path.join ⟨name⟩).text?.isSome := by
  rw [join]
  split
  · exact nameIsText
  · split
    · exact Utf8.isSome_decode?_append pathIsText nameIsText
    · exact Utf8.isSome_decode?_append pathIsText (Utf8.isSome_decode?_append
        (show (Utf8.decode? [separator]).isSome by decide) nameIsText)

end Path

namespace FileSystem

/-- Every entry has a name that is UTF-8, and so have the directories that it lies in. -/
def HasTextNames (files : FileSystem) : Prop :=
  ∀ item ∈ files.entries, ∀ name ∈ item.1, (Utf8.decode? name).isSome

instance (files : FileSystem) : Decidable files.HasTextNames :=
  inferInstanceAs (Decidable (∀ item ∈ files.entries, ∀ name ∈ item.1, (Utf8.decode? name).isSome))

namespace HasTextNames

variable {files : FileSystem}

/-- The names that a directory lists are UTF-8. -/
theorem isText_of_names (texts : files.HasTextNames) {location : Location} {name : Bytes}
    (listed : name ∈ files.names location) : (Utf8.decode? name).isSome := by
  obtain ⟨item, member, below⟩ := mem_names_iff.mp listed
  exact texts item member name (by simp [eq_of_nameBelow? below])

/-- The name of an entry is UTF-8. -/
theorem isText_of_find? (texts : files.HasTextNames) {current : Location} {name : Bytes}
    {entry : Entry} (found : files.find? (current ++ [name]) = some entry) :
    (Utf8.decode? name).isSome :=
  texts.isText_of_names (mem_names_of_find? found)

/-- Parts that lead somewhere are names of entries, or are written with dots. -/
theorem isText_of_reaches (texts : files.HasTextNames) {links left : Nat}
    {current final : Location} {parts : List Bytes}
    (reaches : files.Reaches links current parts final left) :
    ∀ part ∈ parts, (Utf8.decode? part).isSome := by
  induction reaches with
  | done => exact List.forall_mem_nil _
  | @stay _ _ _ _ part _ directory void further inductionHypothesis =>
    refine List.forall_mem_cons.mpr ⟨?_, inductionHypothesis⟩
    have dots : part = [] ∨ part = Path.dot := by simpa [Path.isVoid] using void
    rcases dots with rfl | rfl <;> decide
  | leave directory further inductionHypothesis =>
    exact List.forall_mem_cons.mpr ⟨by decide, inductionHypothesis⟩
  | enter directory isName short found notLink further inductionHypothesis =>
    exact List.forall_mem_cons.mpr ⟨texts.isText_of_find? found, inductionHypothesis⟩
  | jump directory isName short found further inductionHypothesis =>
    exact List.forall_mem_cons.mpr
      ⟨texts.isText_of_find? found, (List.forall_mem_append.mp inductionHypothesis).2⟩

/-- A path that leads somewhere is UTF-8. -/
theorem isText_of_locate (texts : files.HasTextNames) {path : Path} {location : Location}
    (located : files.locate path = .ok location) : path.text?.isSome := by
  obtain ⟨left, leads⟩ := exists_leads located
  exact Path.isText_of_parts (texts.isText_of_reaches leads.reaches)

/-! ## Paths that are listed -/

/-- What a walk lists is a name in a directory that was opened. -/
theorem isText_of_finds (texts : files.HasTextNames) {walk : Walk} {above : List Location}
    {directory : Path} {names : List Bytes} (finds : walk.Finds files above directory names) :
    (directory.below names).text?.isSome := by
  induction finds with
  | file opened listed kind kept =>
    exact Path.isText_join (texts.isText_of_locate opened) (texts.isText_of_names listed)
  | inside opened listed kind kept further inductionHypothesis => exact inductionHypothesis

/-- The paths that a walk lists are UTF-8. -/
theorem isText_of_run (texts : files.HasTextNames) {walk : Walk} {paths : List Path}
    (ran : walk.run files = .ok paths) : ∀ path ∈ paths, path.text?.isSome := by
  obtain ⟨location, -, rfl⟩ := Walk.exists_of_run ran
  intro path listed
  obtain ⟨names, rfl, finds⟩ := Walk.exists_finds_of_mem listed
  exact texts.isText_of_finds finds

/-- The listed sources are UTF-8. -/
theorem isText_of_listSources (texts : files.HasTextNames) {projectRoot : Path}
    {paths : List Path} (listed : listSources files projectRoot = .ok paths) :
    ∀ path ∈ paths, path.text?.isSome := by
  obtain ⟨root, manifest, -, -, ran⟩ := listSources_eq_ok_iff.mp listed
  exact texts.isText_of_run ran

/-- The paths of the index are UTF-8. -/
theorem isText_of_build (texts : files.HasTextNames) {environment : Environment}
    {store : PackageStore} {projectRoot : Path} {entries : List IndexEntry}
    (built : Index.build files environment store projectRoot = .ok entries) :
    ∀ entry ∈ entries, entry.path.text?.isSome := by
  obtain ⟨root, manifest, storeRoot, own, others, -, gathers, rfl⟩ :=
    Index.build_eq_ok_iff.mp built
  have ownAreTexts := texts.isText_of_run gathers.ranOwn
  have othersAreTexts := texts.isText_of_run gathers.ranOthers
  rw [List.forall_mem_map] at ownAreTexts othersAreTexts
  exact List.forall_mem_append.mpr ⟨ownAreTexts, othersAreTexts⟩

end HasTextNames

end FileSystem

end ElmWorkbench
