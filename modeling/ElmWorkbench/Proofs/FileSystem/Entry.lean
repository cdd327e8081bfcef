import ElmWorkbench.FileSystem.Basic
/-!
# Entries after a change

What is found at a location after an entry has been put somewhere, and when two changes
amount to one or to none.
-/

namespace ElmWorkbench.FileSystem

variable {files : FileSystem} {location other : Location} {entry : Entry}

/-- Nothing but a directory is found at the root. -/
theorem ne_nil_of_find? {standing : Option Entry} (found : files.find? location = standing)
    (noRoot : standing ≠ some (.directory directoryMode)) : location ≠ [] := by
  rintro rfl
  exact noRoot (found.symm.trans (if_pos rfl))

/-- An entry that was put at a location is found there. -/
theorem find?_insert_self (proper : location ≠ []) :
    (files.insert location entry).find? location = some entry := by
  simp [find?, insert, proper]

/-- Nothing is found where an entry was removed. -/
theorem find?_erase_self (proper : location ≠ []) : (files.erase location).find? location = none := by
  simp [find?, erase, proper]

/-- Removing an entry changes no other. -/
theorem find?_erase_of_ne (different : other ≠ location) :
    (files.erase location).find? other = files.find? other := by
  by_cases root : other = []
  · rw [find?, find?, if_pos root, if_pos root]
  · rw [find?, find?, if_neg root, if_neg root, erase, List.find?_filter]
    congr 2
    funext item
    by_cases same : item.1 = other
    · simp [same, different]
    · simp [same]

/-- Putting an entry at a location changes no other. -/
theorem find?_insert_of_ne (different : other ≠ location) :
    (files.insert location entry).find? other = files.find? other := by
  by_cases root : other = []
  · rw [find?, find?, if_pos root, if_pos root]
  · have kept : (files.erase location).find? other = files.find? other :=
      find?_erase_of_ne different
    rw [find?, if_neg root] at kept
    rw [← kept, find?, if_neg root, insert, List.find?_cons_of_neg]
    simpa using different.symm

/-- An entry is found at the place where it was put in, and elsewhere what was found before. -/
theorem find?_insert (proper : location ≠ []) (entry : Entry) (other : Location) :
    (files.insert location entry).find? other =
      if other = location then some entry else files.find? other := by
  split
  · next here => rw [here, find?_insert_self proper]
  · next elsewhere => exact find?_insert_of_ne elsewhere

/-- Nothing is found at the place that was cleared, and elsewhere what was found before. -/
theorem find?_erase (proper : location ≠ []) (other : Location) :
    (files.erase location).find? other = if other = location then none else files.find? other := by
  split
  · next here => rw [here, find?_erase_self proper]
  · next elsewhere => exact find?_erase_of_ne elsewhere

/-- The later of two entries for a location counts. -/
theorem insert_insert (first second : Entry) :
    (files.insert location first).insert location second = files.insert location second := by
  simp [insert, erase]

/-- Removing an entry that stands at a location which was free takes back that it was put
there. -/
theorem erase_insert (free : files.find? location = none) :
    (files.insert location entry).erase location = files := by
  have proper : location ≠ [] := ne_nil_of_find? free (by simp)
  have absent : ∀ item ∈ files.entries, item.1 ≠ location := by
    simpa [find?, proper] using free
  have kept : files.entries.filter (fun item => item.1 ≠ location) = files.entries := by
    rw [List.filter_eq_self]
    intro item stored
    simpa using absent item stored
  cases files
  simpa [insert, erase] using kept

/-- What is a directory has an entry. -/
theorem find?_of_hasDirectory (directory : files.hasDirectory location) :
    ∃ mode, files.find? location = some (.directory mode) := by
  rw [hasDirectory] at directory
  split at directory
  · next mode found => exact ⟨mode, found⟩
  · cases directory

/-- No directory is at a free place. -/
theorem hasDirectory_of_free (free : files.find? location = none) :
    files.hasDirectory location = false := by
  rw [hasDirectory, free]

/-- Putting an entry somewhere else than a directory keeps all directories. -/
theorem hasDirectory_insert (noDirectory : files.hasDirectory location = false) (entry : Entry)
    (directory : files.hasDirectory other) : (files.insert location entry).hasDirectory other := by
  have different : other ≠ location := by
    rintro rfl
    simp [noDirectory] at directory
  rwa [hasDirectory, find?_insert_of_ne different]

end ElmWorkbench.FileSystem
