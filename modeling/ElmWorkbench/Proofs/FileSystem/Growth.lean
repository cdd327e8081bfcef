import ElmWorkbench.Proofs.FileSystem.Temporary
/-!
# Growing file systems

A file system grows when directories are created in it. What a path means does not depend on how far
that has gone: it is the place that the path names as soon as the directories on its way exist, and
there is only one such place (`Means.unique`). A file system in which further files stand, or others,
does not give a path another meaning as long as all its directories and links are there
(`Passes.means`).
-/

namespace ElmWorkbench.FileSystem

/-- The file system as a process sees it that works in a directory. -/
def seenFrom (files : FileSystem) (start : Location) : FileSystem :=
  { files with workingDirectory := start }

@[simp] theorem find?_seenFrom (files : FileSystem) (start location : Location) :
    (files.seenFrom start).find? location = files.find? location := rfl

/-- A file system is seen as it is from its own working directory. -/
theorem seenFrom_workingDirectory (files : FileSystem) :
    files.seenFrom files.workingDirectory = files := rfl

/-- All that ways can go by in a file system, its directories and its links, stands in another one
as well. -/
structure Passes (files later : FileSystem) : Prop where
  start : later.workingDirectory = files.workingDirectory
  kept : ∀ {location entry}, files.find? location = some entry →
    (∀ contents mode, entry ≠ .file contents mode) → later.find? location = some entry

/-- A file system that has the entries of another one, and besides nothing but directories that were
created. -/
structure Grows (files later : FileSystem) : Prop where
  start : later.workingDirectory = files.workingDirectory
  kept : ∀ {location entry}, files.find? location = some entry → later.find? location = some entry
  created : ∀ {location entry}, files.find? location = none → later.find? location = some entry →
    entry = .directory directoryMode

/-- A path means the place that it names as soon as the directories on its way exist. -/
def Means (files : FileSystem) (path : Path) (location : Location) : Prop :=
  ∃ later, files.Grows later ∧ later.place? path = some location

section Places

variable {files later : FileSystem} {path : Path} {location : Location}

/-! ## Ways that are kept -/

/-- A directory is still one in a file system that has all that ways can go by. -/
theorem Passes.hasDirectory (passes : files.Passes later)
    (directory : files.hasDirectory location) : later.hasDirectory location := by
  obtain ⟨mode, found⟩ := find?_of_hasDirectory directory
  rw [FileSystem.hasDirectory, passes.kept found (by simp)]

/-- Parts that lead to a directory still do so in a file system that has all that ways can go by. -/
theorem Passes.reaches {links left : Nat} {current final : Location} {parts : List Bytes}
    (passes : files.Passes later) (reaches : files.Reaches links current parts final left)
    (directory : files.hasDirectory final) : later.Reaches links current parts final left :=
  reaches.ofEntriesKept (fun _ => passes.hasDirectory) fun further isName found =>
    passes.kept found (further.ne_file directory isName found)

/-- A path goes on naming a place as long as all directories and links are there. -/
theorem Passes.place?_eq (passes : files.Passes later) (named : files.place? path = some location) :
    later.place? path = some location := by
  obtain ⟨limits, front, name, slash, directory, left, splitting, reaches, isDirectory, rfl⟩ :=
    place?_eq_some_iff.mp named
  refine place?_eq_some_iff.mpr ⟨limits, front, name, slash, directory, left, splitting, ?_,
    passes.hasDirectory isDirectory, rfl⟩
  have origin : later.origin path = files.origin path := by rw [origin, origin, passes.start]
  rw [origin]
  exact passes.reaches reaches isDirectory

/-! ## Growth -/

/-- A file system has grown from itself. -/
theorem Grows.refl (files : FileSystem) : files.Grows files :=
  ⟨rfl, id, fun free found => by simp [free] at found⟩

/-- What ways can go by still stands when a file system has grown. -/
theorem Grows.passes (grows : files.Grows later) : files.Passes later :=
  ⟨grows.start, fun found _ => grows.kept found⟩

/-- A file system has grown wherever it is seen from. -/
theorem Grows.seenFrom (grows : files.Grows later) (start : Location) :
    (files.seenFrom start).Grows (later.seenFrom start) :=
  ⟨rfl, grows.kept, grows.created⟩

/-- What has grown twice has grown. -/
theorem Grows.trans {further : FileSystem} (first : files.Grows later)
    (second : later.Grows further) : files.Grows further where
  start := second.start.trans first.start
  kept found := second.kept (first.kept found)
  created {location entry} free found := by
    cases between : later.find? location with
    | none => exact second.created between found
    | some standing =>
      rw [second.kept between] at found
      obtain rfl := Option.some.inj found
      exact first.created free between

/-- A file system grows by a directory that is created where nothing stood. -/
theorem grows_insert (free : files.find? location = none) :
    files.Grows (files.insert location (.directory directoryMode)) := by
  have proper : location ≠ [] := ne_nil_of_find? free (by simp)
  refine ⟨rfl, fun {other entry} found => ?_, fun {other entry} nothing found => ?_⟩
  · rwa [find?_insert proper, if_neg (by rintro rfl; simp [free] at found)]
  · rw [find?_insert proper] at found
    split at found
    · exact (Option.some.inj found).symm
    · simp [nothing] at found

/-- A directory that is created where nothing stood lets a file system grow further, unless it had
grown there already. -/
theorem Grows.exists_create (grows : files.Grows later) (free : files.find? location = none) :
    ∃ further, files.Grows further ∧ later.Grows further ∧
      further.find? location = some (.directory directoryMode) := by
  cases grown : later.find? location with
  | some entry =>
    obtain rfl := grows.created free grown
    exact ⟨later, grows, .refl later, grown⟩
  | none =>
    exact ⟨_, grows.trans (grows_insert grown), grows_insert grown,
      find?_insert_self (ne_nil_of_find? grown (by simp))⟩

/-- Two file systems that one has grown to have directories where the other has, and can grow to one
again. -/
theorem Grows.exists_common {other : FileSystem} (first : files.Grows later)
    (second : files.Grows other) : ∃ common, later.Grows common ∧ other.Grows common := by
  have united (location : Location) :
      ({ later with entries := later.entries ++ other.entries } : FileSystem).find? location =
        (later.find? location).or (other.find? location) := by
    by_cases root : location = []
    · simp [find?, root]
    · simp only [find?, if_neg root, List.find?_append, Option.map_or]
  refine ⟨{ later with entries := later.entries ++ other.entries }, ⟨rfl, ?_, ?_⟩,
    ⟨first.start.trans second.start.symm, ?_, ?_⟩⟩
  · intro location entry found
    rw [united, found, Option.some_or]
  · intro location entry nothing found
    rw [united, nothing, Option.none_or] at found
    refine second.created (Option.eq_none_iff_forall_ne_some.mpr fun standing here => ?_) found
    rw [first.kept here] at nothing
    cases nothing
  · intro location entry found
    rw [united]
    cases here : later.find? location with
    | none => exact found
    | some standing =>
      rw [Option.some_or]
      cases before : files.find? location with
      | none => rw [first.created before here, second.created before found]
      | some old =>
        rw [first.kept before] at here
        rw [second.kept before] at found
        exact here.symm.trans found
  · intro location entry nothing found
    rw [united, nothing, Option.or_none] at found
    refine first.created (Option.eq_none_iff_forall_ne_some.mpr fun standing here => ?_) found
    rw [second.kept here] at nothing
    cases nothing

/-! ## Meaning -/

/-- A path means one place at most. -/
theorem Means.unique {other : Location} (first : files.Means path location)
    (second : files.Means path other) : location = other := by
  obtain ⟨later, grows, named⟩ := first
  obtain ⟨further, growsToo, namedToo⟩ := second
  obtain ⟨common, grown, grownToo⟩ := grows.exists_common growsToo
  have here := grown.passes.place?_eq named
  rw [grownToo.passes.place?_eq namedToo] at here
  exact (Option.some.inj here).symm

/-- What a path names it means, whatever files stand anywhere. -/
theorem Passes.means {now : FileSystem} (passes : now.Passes later) (grows : files.Grows later)
    (named : now.place? path = some location) : files.Means path location :=
  ⟨later, grows, passes.place?_eq named⟩

/-- No path means the root. -/
theorem Means.ne_nil (means : files.Means path location) : location ≠ [] := by
  obtain ⟨later, -, named⟩ := means
  exact ne_nil_of_place? named

/-- The location that a path means ends with the file name of the path. -/
theorem Means.getLast?_eq (means : files.Means path location) :
    path.fileName? = location.getLast? := by
  obtain ⟨later, -, named⟩ := means
  exact getLast?_of_place? named

end Places

end ElmWorkbench.FileSystem
