import ElmWorkbench.Proofs.FileSystem.ReadBack
import Mathlib.Data.List.Induction
/-!
# The directories around a path

Before a file is written the directories around its path are created. That comes out exactly if all
paths around it lead to directories afterwards (`AtomicWrite.prepare_eq_ok_iff`), and whether or not
it does, nothing has changed but that directories stand where these paths mean and nothing stood
(`AtomicWrite.growsAround_prepare`).
-/

namespace ElmWorkbench

namespace FileSystem

variable {files changed : FileSystem} {path parent : Path} {location : Location}

/-! ## Trees -/

/-- Every entry lies in a directory. -/
def IsClosed (files : FileSystem) : Prop :=
  ∀ location name, files.find? (location ++ [name]) ≠ none → files.hasDirectory location

/-- Where nothing stands there is nothing below. -/
theorem IsClosed.find?_append (closed : files.IsClosed) (free : files.find? location = none)
    (below : Location) : files.find? (location ++ below) = none := by
  induction below using List.reverseRecOn with
  | nil => rwa [List.append_nil]
  | append_singleton front last inductionHypothesis =>
    by_contra standing
    rw [← List.append_assoc] at standing
    have isDirectory := closed _ _ standing
    rw [hasDirectory_of_free inductionHypothesis] at isDirectory
    cases isDirectory

/-- In a tree nothing but directories comes to stand in directories that are created. -/
theorem Grows.eq_directory {entry : Entry} (grows : files.Grows changed) (closed : files.IsClosed)
    (free : files.find? location = none) (below : Location)
    (found : changed.find? (location ++ below) = some entry) : entry = .directory directoryMode :=
  grows.created (closed.find?_append free below) found

/-! ## Paths to directories -/

/-- A path is a directory if it leads to one. -/
theorem isDirectory_iff_leads : files.isDirectory path ↔
    ∃ final left, files.Leads path final left ∧ files.hasDirectory final := by
  rw [isDirectory_iff]
  constructor
  · rintro ⟨final, located, isDirectory⟩
    obtain ⟨left, leads⟩ := exists_leads located
    exact ⟨final, left, leads, isDirectory⟩
  · rintro ⟨final, left, leads, isDirectory⟩
    exact ⟨final, leads.locate_eq, isDirectory⟩

/-- The parent of a path is within the limits that the path is within. -/
theorem checkLimits_parent (limits : checkLimits path = .ok ())
    (found : path.parent? = some parent) (filled : parent.bytes ≠ []) :
    checkLimits parent = .ok () := by
  obtain ⟨noZero, -, short⟩ := checkLimits_eq_ok_iff.mp limits
  have isFront := Path.bytes_prefix_of_parent? found
  exact checkLimits_eq_ok_iff.mpr
    ⟨fun zero => noZero (isFront.subset zero), filled, isFront.length_le.trans_lt short⟩

/-- A path that leads to a directory goes by the directory of its parent. -/
theorem isDirectory_parent (isDirectory : files.isDirectory path)
    (found : path.parent? = some parent) (filled : parent.bytes ≠ []) :
    files.isDirectory parent := by
  obtain ⟨final, left, leads, -⟩ := isDirectory_iff_leads.mp isDirectory
  obtain ⟨front, next, rest, void, parts, parentParts, empty, absolute⟩ :=
    Path.exists_of_parent? found filled
  have reaches := leads.reaches
  rw [parts] at reaches
  obtain ⟨middle, between, first, second⟩ := reaches.exists_middle
  have meaningless : ∀ part ∈ void, Path.isVoid part := by
    rcases empty with rfl | rfl
    · simp
    · decide
  refine isDirectory_iff_leads.mpr ⟨middle, between,
    ⟨checkLimits_parent leads.limits found filled, ?_⟩, second.hasDirectory⟩
  have origin : files.origin parent = files.origin path := by
    rw [FileSystem.origin, FileSystem.origin, absolute]
  rw [origin, parentParts]
  exact first.addVoid second.hasDirectory meaningless

/-- All that encloses a directory is a directory. -/
theorem isDirectory_of_encloses {outer : Path} (encloses : outer.Encloses path)
    (isDirectory : files.isDirectory path) (filled : outer.bytes ≠ []) :
    files.isDirectory outer := by
  induction encloses with
  | parent found => exact isDirectory_parent isDirectory found filled
  | @further parent path found more inductionHypothesis =>
    refine inductionHypothesis (isDirectory_parent isDirectory found fun empty => ?_)
    obtain rfl : parent = ⟨[]⟩ := congrArg Path.mk empty
    exact Path.not_encloses_nil _ more

/-- A directory that has been created is one that its path leads to. -/
theorem isDirectory_of_makeDirectory (created : files.makeDirectory path = .ok changed) :
    changed.isDirectory path := by
  obtain ⟨⟨directory, ending⟩, located, further⟩ := Except.bind_eq_ok_iff.mp created
  obtain ⟨limits, front, left, splitting, reaches, isDirectory⟩ := exists_of_locateParent located
  obtain ⟨rest, whole, names⟩ := exists_splitEnding path.parts
  rw [splitting] at whole names
  cases ending with
  | special => cases further
  | name name slash =>
    obtain ⟨isName, more, rfl, empty, -⟩ := names name slash rfl
    dsimp only at further
    split at further
    · cases further
    · next short =>
      split at further
      · cases further
      · next free =>
        obtain rfl := Except.ok.inj further
        have nothing : files.find? (directory ++ [name]) = none := by simpa using free
        have now : (files.insert (directory ++ [name]) (.directory directoryMode)).find?
            (directory ++ [name]) = some (.directory directoryMode) :=
          find?_insert_self (List.concat_ne_nil _ _)
        have here : (files.insert (directory ++ [name]) (.directory directoryMode)).hasDirectory
            (directory ++ [name]) := by
          rw [hasDirectory, now]
        refine isDirectory_iff_leads.mpr ⟨directory ++ [name], left, ⟨limits, ?_⟩, here⟩
        have parts : path.parts = front ++ [name] ++ more := by simp [whole]
        rw [parts]
        refine Reaches.addVoid ?_ here (Path.isVoid_of_eq_nil empty)
        exact (reaches.insert_free nothing _).append (.enter
          (hasDirectory_insert (hasDirectory_of_free nothing) _ isDirectory) isName
          (Nat.not_lt.mp short) now (by simp) .done)

end FileSystem

/-! ## Creating directories -/

namespace Attempt

variable {files : FileSystem} {path parent : Path}

/-- A missing directory is no path to a directory. -/
theorem not_isDirectory_of_notFound (filled : path.bytes ≠ [])
    (missing : files.makeDirectory path = .error .notFound) : ¬ files.isDirectory path := by
  intro isDirectory
  obtain ⟨final, left, leads, -⟩ := FileSystem.isDirectory_iff_leads.mp isDirectory
  obtain ⟨cause, refused, notMissing⟩ := FileSystem.makeDirectory_eq filled leads.reaches
  rw [missing] at refused
  exact notMissing (Except.error.inj refused).symm

/-- A directory comes to exist exactly if its creation comes out, given that without the directories
around it there is none. -/
theorem createFrom_cons_eq_ok_iff {outer : List Path} (filled : path.bytes ≠ [])
    (needed : (createFrom files outer).1 ≠ .ok () →
      files.makeDirectory path = .error .notFound →
        ¬ (createFrom files outer).2.isDirectory path) :
    (createFrom files (path :: outer)).1 = .ok () ↔
      (createFrom files (path :: outer)).2.isDirectory path := by
  rw [createFrom, if_neg filled]
  split
  · next changed created => simp [FileSystem.isDirectory_of_makeDirectory created]
  · next cause refused =>
    split
    · next missing =>
      rw [missing] at refused
      split
      · next outerCause changed failed =>
        have absent := needed (by simp [failed]) refused
        rw [failed] at absent
        simpa using absent
      · next changed done =>
        split
        · next created again => simp [FileSystem.isDirectory_of_makeDirectory again]
        · split
          · next isDirectory => simp [isDirectory]
          · next noDirectory => simpa using noDirectory
    · split
      · next isDirectory => simp [isDirectory]
      · next noDirectory => simpa using noDirectory

/-- Directories are created up to one exactly if its path leads to one afterwards. -/
theorem createFrom_ancestors_eq_ok_iff (bound : Nat) (filled : path.bytes ≠ []) :
    (createFrom files (ancestors bound path)).1 = .ok () ↔
      (createFrom files (ancestors bound path)).2.isDirectory path := by
  induction bound generalizing path with
  | zero =>
    exact createFrom_cons_eq_ok_iff filled fun _ missing =>
      not_isDirectory_of_notFound filled missing
  | succ bound inductionHypothesis =>
    rw [ancestors]
    split
    · exact createFrom_cons_eq_ok_iff filled fun _ missing =>
        not_isDirectory_of_notFound filled missing
    · next parent found =>
      refine createFrom_cons_eq_ok_iff filled fun failed _ isDirectory => failed ?_
      by_cases empty : parent.bytes = []
      · obtain ⟨others, listed⟩ := exists_ancestors bound parent
        rw [listed, createFrom, if_pos empty]
      · exact (inductionHypothesis empty).mpr
          (FileSystem.isDirectory_parent isDirectory found empty)

/-- Creating the directories of a path is creating its ancestors, and the error names the path. -/
theorem createDirectories_eq (files : FileSystem) (path : Path) :
    createDirectories path files =
      ((createFrom files (ancestors path.bytes.length path)).1.mapError (Error.system path),
        (createFrom files (ancestors path.bytes.length path)).2) := by
  rw [createDirectories]
  rcases createFrom files (ancestors path.bytes.length path) with ⟨cause | done, changed⟩ <;> rfl

/-- The directories that are created for a path are around each path that it is the parent of. -/
theorem encloses_of_mem_ancestors {bound : Nat} {directory : Path}
    (found : path.parent? = some parent) (listed : directory ∈ ancestors bound parent) :
    directory.Encloses path := by
  induction bound generalizing path parent with
  | zero =>
    obtain rfl := List.mem_singleton.mp listed
    exact .parent found
  | succ bound inductionHypothesis =>
    rw [ancestors] at listed
    split at listed
    · obtain rfl := List.mem_singleton.mp listed
      exact .parent found
    · next further foundFurther =>
      rcases List.mem_cons.mp listed with rfl | outer
      · exact .parent found
      · exact .further found (inductionHypothesis foundFurther outer)

end Attempt

namespace AtomicWrite

variable {files : FileSystem} {path : Path}

/-- The directories around a path come to exist exactly if their creation comes out. -/
theorem prepare_eq_ok_iff : (prepare path files).1 = .ok () ↔
    ∀ outer : Path, outer.Encloses path → outer.bytes ≠ [] →
      (prepare path files).2.isDirectory outer := by
  rw [prepare]
  cases found : path.parent? with
  | none =>
    refine iff_of_true rfl fun outer encloses => ?_
    cases encloses with
    | parent foundOuter => simp [found] at foundOuter
    | further foundParent more => simp [found] at foundParent
  | some parent =>
    by_cases empty : parent.bytes = []
    · simp only [if_pos empty]
      refine iff_of_true rfl fun outer encloses filled => ?_
      cases encloses with
      | parent foundOuter =>
        rw [found] at foundOuter
        obtain rfl := Option.some.inj foundOuter
        exact absurd empty filled
      | further foundParent more =>
        rw [found] at foundParent
        obtain rfl := Option.some.inj foundParent
        obtain rfl : parent = ⟨[]⟩ := congrArg Path.mk empty
        exact absurd more (Path.not_encloses_nil _)
    · simp only [if_neg empty]
      have created :=
        @Attempt.createFrom_ancestors_eq_ok_iff files parent parent.bytes.length empty
      have outcome (result : Except SystemCause Unit) :
          result.mapError (Error.system parent) = .ok () ↔ result = .ok () := by
        cases result <;> simp [Except.mapError]
      rw [Attempt.createDirectories_eq, outcome, created]
      constructor
      · intro isDirectory outer encloses filled
        cases encloses with
        | parent foundOuter =>
          rw [found] at foundOuter
          exact Option.some.inj foundOuter ▸ isDirectory
        | further foundParent more =>
          rw [found] at foundParent
          obtain rfl := Option.some.inj foundParent
          exact FileSystem.isDirectory_of_encloses more isDirectory filled
      · exact fun complete => complete parent (.parent found) empty

/-- A file system has grown by directories around a path. -/
structure GrowsAround (files : FileSystem) (path : Path) (grown : FileSystem) : Prop where
  grows : files.Grows grown
  /-- A directory was created where a path around the path means. -/
  onWay : ∀ location, files.find? location = none → grown.find? location ≠ none →
    ∃ outer : Path, outer.Encloses path ∧ files.Means outer location
  /-- In a tree nothing but directories has come to stand in what was created. -/
  bare : files.IsClosed → ∀ location below entry, files.find? location = none →
    grown.find? (location ++ below) = some entry → entry = .directory directoryMode

/-- To prepare a write grows the file system by directories around the path. -/
theorem growsAround_prepare (path : Path) (files : FileSystem) :
    GrowsAround files path (prepare path files).2 := by
  refine prepare_related (fun before after => GrowsAround files path before →
    GrowsAround files path after) (fun _ around => around)
    (fun first second around => second (first around)) path files ?_
    ⟨.refl files, fun location free grown => absurd free grown,
      fun closed location below _ nothing =>
        (FileSystem.Grows.refl files).eq_directory closed nothing below⟩
  intro parent found _ directory listed before after created around
  obtain ⟨place, named, free, rfl⟩ := FileSystem.exists_of_makeDirectory created
  have grows := around.grows.trans (FileSystem.grows_insert free)
  refine ⟨grows, fun location nothing grown => ?_,
    fun closed location below _ nothing => grows.eq_directory closed nothing below⟩
  by_cases here : location = place
  · subst here
    exact ⟨directory, Attempt.encloses_of_mem_ancestors found listed, before, around.grows, named⟩
  · rw [FileSystem.find?_insert_of_ne here] at grown
    exact around.onWay location nothing grown

end AtomicWrite

end ElmWorkbench
