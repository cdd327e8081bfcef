import ElmWorkbench.Proofs.Edit.InFile
import ElmWorkbench.Proofs.FileSystem.Shape
import ElmWorkbench.Proofs.Project.Index
/-!
# Projects whose files are edited

An edit of a file that is not the manifest keeps the sources of a project
(`Edits.listSources_eq`). An index that is built afterwards has the same paths, and only entries
for the edited file have other contents (`Edits.exists_build`).
-/

namespace ElmWorkbench

/-- Only the file that a path leads to has become another one: it held a text, and now holds what
an edit makes of it. -/
structure Edits (files after : FileSystem) (target : Path) (edit : String → Except Error String) :
    Prop where
  sameShape : files.SameShape after
  others : ∀ path, files.locate path ≠ files.locate target → after.stat path = files.stat path
  edited : ∃ contents mode content result, files.stat target = .ok (.file contents mode) ∧
    Utf8.decode? contents = some content ∧ edit content = .ok result ∧
    after.stat target = .ok (.file (Utf8.encode result) mode)

/-- An entry of an index before and after an edit: it keeps its path, and its content is edited just
if the path leads to the edited file. -/
structure Index.Follows (files : FileSystem) (target : Path) (edit : String → Except Error String)
    (old new : IndexEntry) : Prop where
  samePath : new.path = old.path
  edited : files.locate old.path = files.locate target → edit old.content = .ok new.content
  kept : files.locate old.path ≠ files.locate target → new.content = old.content

section Editing

variable {files after : FileSystem} {temporary target root projectRoot : Path} {manifest : Manifest}
  {edit : String → Except Error String} {environment : Environment} {store : PackageStore}

/-- Where there are no links, an edit that is carried out changes the file that its path leads
to. -/
theorem EditOutcome.edits (outcome : EditOutcome files temporary target edit (.ok (), after))
    (unlinked : ∀ location link, files.find? location ≠ some (.link link)) :
    Edits files after target edit := by
  cases outcome with
  | @carriedOut location _ contents mode content result looked decoded spliced replaces clean =>
    obtain ⟨final, left, leads, found⟩ := FileSystem.exists_leads_of_stat looked
    obtain rfl := leads.eq_of_place? found unlinked replaces.named
    have same := replaces.sameShape found
    refine ⟨same, fun path elsewhere => ?_, contents, mode, content, result, looked, decoded,
      spliced, ?_⟩
    · refine same.stat_eq fun other located => replaces.others other ?_
      rintro rfl
      exact elsewhere (located.trans leads.locate_eq.symm)
    · rw [FileSystem.stat, same.locate_eq, leads.locate_eq, Except.ok_bind, replaces.now]
      rfl

namespace Edits

variable (edits : Edits files after target edit)

include edits

/-! ## Sources -/

/-- An edit of another file leaves alone what the manifest says. -/
theorem load_eq (notManifest : files.locate root.manifest ≠ files.locate target) :
    Manifest.load after root = Manifest.load files root := by
  rw [Manifest.load, Manifest.load, FileSystem.readText, FileSystem.readText, FileSystem.readBytes,
    FileSystem.readBytes, edits.others _ notManifest]

/-- A project whose manifest is not edited keeps its sources. -/
theorem listSources_eq (notManifest : ∀ root, files.canonical projectRoot = .ok root →
      files.locate root.manifest ≠ files.locate target) {paths : List Path}
    (listed : listSources files projectRoot = .ok paths) :
    listSources after projectRoot = .ok paths := by
  obtain ⟨root, manifest, canonical, loaded, ran⟩ := listSources_eq_ok_iff.mp listed
  refine listSources_eq_ok_iff.mpr ⟨root, manifest, ?_, ?_, ?_⟩
  · rwa [edits.sameShape.canonical_eq]
  · rwa [edits.load_eq (notManifest root canonical)]
  · rwa [Walk.run_eq_of_sameShape _ edits.sameShape]

/-! ## Index -/

/-- The content that a file has afterwards follows from the one that it had. -/
theorem exists_follows {entry : IndexEntry} (holds : Index.HasContents files entry) :
    ∃ new, Index.Follows files target edit entry new ∧ Index.HasContents after new := by
  obtain ⟨path, content⟩ := entry
  obtain ⟨bytes, mode, looked, told⟩ := holds
  by_cases here : files.locate path = files.locate target
  · obtain ⟨contents, mode, text, result, before, decoded, spliced, now⟩ := edits.edited
    have hereAfter : after.locate path = after.locate target := by
      rwa [edits.sameShape.locate_eq, edits.sameShape.locate_eq]
    have same : content = text := by
      rw [FileSystem.stat_congr here, before] at looked
      obtain rfl : contents = bytes := by cases looked; rfl
      exact told.trans (Utf8.decodeLossy_of_decode? decoded)
    refine ⟨⟨path, result⟩, ⟨rfl, fun _ => ?_, fun elsewhere => absurd here elsewhere⟩,
      Utf8.encode result, mode, ?_, ?_⟩
    · rwa [same]
    · rw [FileSystem.stat_congr hereAfter, now]
    · rw [Utf8.decodeLossy_of_decode? (Utf8.decode?_encode result)]
  · exact ⟨⟨path, content⟩, ⟨rfl, fun same => absurd same here, fun _ => rfl⟩, bytes, mode,
      (edits.others path here).trans looked, told⟩

/-- Entries that held the contents of their files have successors that hold them after the edit. -/
theorem exists_forall_follows {entries : List IndexEntry}
    (hold : ∀ entry ∈ entries, Index.HasContents files entry) :
    ∃ changed, List.Forall₂ (Index.Follows files target edit) entries changed ∧
      ∀ entry ∈ changed, Index.HasContents after entry := by
  induction entries with
  | nil => exact ⟨[], .nil, by simp⟩
  | cons entry entries inductionHypothesis =>
    obtain ⟨first, others⟩ := List.forall_mem_cons.mp hold
    obtain ⟨new, follows, holds⟩ := edits.exists_follows first
    obtain ⟨changed, allFollow, allHold⟩ := inductionHypothesis others
    exact ⟨new :: changed, .cons follows allFollow, List.forall_mem_cons.mpr ⟨holds, allHold⟩⟩

omit edits in
/-- The entries before and after an edit have the same paths. -/
theorem paths_eq_of_follows {entries changed : List IndexEntry}
    (follow : List.Forall₂ (Index.Follows files target edit) entries changed) :
    changed.map IndexEntry.path = entries.map IndexEntry.path := by
  induction follow with
  | nil => rfl
  | cons follows _ inductionHypothesis =>
    rw [List.map_cons, List.map_cons, follows.samePath, inductionHypothesis]

/-- If the manifest of a project is not edited an index that is built afterwards has the same
paths, and contents that follow from those before. -/
theorem exists_build (notManifest : ∀ root, files.canonical projectRoot = .ok root →
      files.locate root.manifest ≠ files.locate target) {entries : List IndexEntry}
    (built : Index.build files environment store projectRoot = .ok entries) :
    ∃ changed, Index.build after environment store projectRoot = .ok changed ∧
      List.Forall₂ (Index.Follows files target edit) entries changed := by
  obtain ⟨root, manifest, storeRoot, own, others, located, gathers, rfl⟩ :=
    Index.build_eq_ok_iff.mp built
  have same := edits.sameShape
  obtain ⟨ownHold, othersHold⟩ := List.forall_mem_append.mp gathers.contents
  obtain ⟨ownChanged, ownFollow, ownHoldAfter⟩ := edits.exists_forall_follows ownHold
  obtain ⟨othersChanged, othersFollow, othersHoldAfter⟩ := edits.exists_forall_follows othersHold
  have locatedAfter :
      Index.Located after environment store projectRoot root manifest storeRoot :=
    { canonical := (same.canonical_eq _).trans located.canonical
      loaded := (edits.load_eq (notManifest root located.canonical)).trans located.loaded
      stored := located.stored }
  have gathersAfter :
      Index.Gathers after root manifest storeRoot ownChanged othersChanged :=
    { storeExists := (same.isDirectory_eq _).trans gathers.storeExists
      packagesExist := fun dependency member =>
        (same.isDirectory_eq _).trans (gathers.packagesExist dependency member)
      ranOwn := by
        rw [Walk.run_eq_of_sameShape _ same, paths_eq_of_follows ownFollow, gathers.ranOwn]
      ranOthers := by
        rw [Walk.run_eq_of_sameShape _ same, paths_eq_of_follows othersFollow, gathers.ranOthers]
      contents := List.forall_mem_append.mpr ⟨ownHoldAfter, othersHoldAfter⟩ }
  exact ⟨ownChanged ++ othersChanged,
    Index.build_eq_ok_iff.mpr ⟨root, manifest, storeRoot, _, _, locatedAfter, gathersAfter, rfl⟩,
    List.rel_append ownFollow othersFollow⟩

end Edits

end Editing

end ElmWorkbench
