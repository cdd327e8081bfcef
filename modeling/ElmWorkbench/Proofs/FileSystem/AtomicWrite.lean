import ElmWorkbench.Proofs.FileSystem.Temporary
/-!
# Atomic writes

What writing to a path that leads to a file does: the entry that the path names becomes
a file with the new contents and the mode of the old one, or nothing changes at all
(`AtomicWrite.write_of_stat`).
-/

namespace ElmWorkbench

/-! ## Sequences of steps -/

namespace Attempt

variable {Value Result : Type} {attempt : Attempt Value} {next : Value → Attempt Result}
  {files changed : FileSystem}

/-- After a success, an attempt goes on with the value and the changed file system. -/
theorem bind_of_ok {value : Value} (done : attempt files = (.ok value, changed)) :
    (attempt >>= next) files = next value changed := by
  simp only [bind, ExceptT.bind, ExceptT.mk, ExceptT.bindCont, StateT.bind, done]

/-- An attempt ends with its first error and keeps what was changed so far. -/
theorem bind_of_error {error : Error} (failed : attempt files = (.error error, changed)) :
    (attempt >>= next) files = (.error error, changed) := by
  simp only [bind, ExceptT.bind, ExceptT.mk, ExceptT.bindCont, StateT.bind, failed]
  rfl

/-- A change that is carried out is a step without an error. -/
theorem step_of_ok {path : Path} {change : FileSystem → Except SystemCause FileSystem}
    (done : change files = .ok changed) : step path change files = (.ok (), changed) := by
  rw [step, done]

/-- A change that is refused is an error at the path and leaves the file system as it is. -/
theorem step_of_error {path : Path} {change : FileSystem → Except SystemCause FileSystem}
    {cause : SystemCause} (failed : change files = .error cause) :
    step path change files = (.error (.system path cause), files) := by
  rw [step, failed]

/-- The innermost of the ancestors is the path itself. -/
theorem exists_ancestors (bound : Nat) (path : Path) :
    ∃ outer, ancestors bound path = path :: outer := by
  cases bound with
  | zero => exact ⟨[], rfl⟩
  | succ bound =>
    rw [ancestors]
    split
    · exact ⟨[], rfl⟩
    · exact ⟨_, rfl⟩

/-- Nothing is created where the path of the directory leads already. -/
theorem createDirectories_keeps {path : Path} {final : Location} {left : Nat}
    (nonempty : path.bytes ≠ [])
    (reaches : files.Reaches linkLimit (files.origin path) path.parts final left) :
    ∃ result, createDirectories path files = (result, files) := by
  obtain ⟨outer, listed⟩ := exists_ancestors path.bytes.length path
  obtain ⟨cause, refused, notMissing⟩ := FileSystem.makeDirectory_eq nonempty reaches
  simp only [createDirectories, listed, createFrom, if_neg nonempty, refused, if_neg notMissing]
  split
  · next changed created =>
    split at created <;> cases created
    exact ⟨.ok (), rfl⟩
  · next outerCause changed failed =>
    split at failed <;> cases failed
    exact ⟨_, rfl⟩

/-- What holds whenever a directory is created, and can be composed, holds when directories are
created one after the other. -/
theorem createFrom_related (Related : FileSystem → FileSystem → Prop)
    (refl : ∀ files, Related files files)
    (trans : ∀ {before between after}, Related before between → Related between after →
      Related before after)
    (files : FileSystem) (directories : List Path)
    (create : ∀ path ∈ directories, ∀ {before after : FileSystem},
      before.makeDirectory path = .ok after → Related before after) :
    Related files (createFrom files directories).2 := by
  induction directories with
  | nil => exact refl files
  | cons path outer inductionHypothesis =>
    have around := inductionHypothesis fun directory member =>
      create directory (List.mem_cons_of_mem _ member)
    have here := @create path List.mem_cons_self
    rw [createFrom]
    split
    · exact refl files
    · split
      · next changed created => exact here created
      · split
        · split
          · next created => rwa [created] at around
          · next created =>
            rw [created] at around
            split
            · next again => exact trans around (here again)
            · split <;> exact around
        · split <;> exact refl files

/-- A directory that exists need not be created. -/
theorem createDirectories_of_isDirectory {path : Path} (nonempty : path.bytes ≠ [])
    (isDirectory : files.isDirectory path) :
    createDirectories path files = (.ok (), files) := by
  obtain ⟨entry, looked⟩ : ∃ entry, files.stat path = .ok entry := by
    rw [FileSystem.isDirectory] at isDirectory
    split at isDirectory
    · next mode looked => exact ⟨_, looked⟩
    · cases isDirectory
  obtain ⟨final, left, leads, -⟩ := FileSystem.exists_leads_of_stat looked
  obtain ⟨outer, listed⟩ := exists_ancestors path.bytes.length path
  obtain ⟨cause, refused, notMissing⟩ := FileSystem.makeDirectory_eq nonempty leads.reaches
  simp only [createDirectories, listed, createFrom, if_neg nonempty, refused, if_neg notMissing,
    if_pos isDirectory]

end Attempt

namespace AtomicWrite

variable {files changed : FileSystem} {temporary path : Path} {attempt : Attempt Unit}

/-! ## Cleaning up -/

/-- Nothing is cleaned up after a success. -/
theorem cleaningUp_of_ok (done : attempt files = (.ok (), changed)) :
    cleaningUp temporary attempt files = (.ok (), changed) := by
  simp only [cleaningUp, tryCatch, tryCatchThe, MonadExceptOf.tryCatch, ExceptT.tryCatch,
    ExceptT.mk, bind, StateT.bind, done]
  rfl

/-- If the temporary file cannot be removed, the first error still is the answer. -/
theorem cleaningUp_of_error {error : Error} {cause : SystemCause}
    (failed : attempt files = (.error error, changed))
    (refused : changed.remove temporary = .error cause) :
    cleaningUp temporary attempt files = (.error error, changed) := by
  simp only [cleaningUp, tryCatch, tryCatchThe, MonadExceptOf.tryCatch, ExceptT.tryCatch,
    ExceptT.mk, bind, StateT.bind, failed, ExceptT.bind, ExceptT.bindCont, Attempt.tryStep, refused]
  rfl

/-- After an error the temporary file is removed. -/
theorem cleaningUp_of_removed {error : Error} {cleaned : FileSystem}
    (failed : attempt files = (.error error, changed))
    (removed : changed.remove temporary = .ok cleaned) :
    cleaningUp temporary attempt files = (.error error, cleaned) := by
  simp only [cleaningUp, tryCatch, tryCatchThe, MonadExceptOf.tryCatch, ExceptT.tryCatch,
    ExceptT.mk, bind, StateT.bind, failed, ExceptT.bind, ExceptT.bindCont, Attempt.tryStep, removed]
  rfl

/-- Cleaning up does not change how an attempt comes out. -/
theorem fst_cleaningUp (temporary : Path) (attempt : Attempt Unit) (files : FileSystem) :
    (cleaningUp temporary attempt files).1 = (attempt files).1 := by
  cases tried : attempt files with
  | mk outcome middle =>
    cases outcome with
    | ok value => rw [cleaningUp_of_ok tried]
    | error error =>
      cases removed : middle.remove temporary with
      | error cause => rw [cleaningUp_of_error tried removed]
      | ok cleaned => rw [cleaningUp_of_removed tried removed]

/-! ## Creating the directories around a file -/

/-- A preorder that every created directory respects relates the file systems before and after the
preparation. -/
theorem prepare_related (Related : FileSystem → FileSystem → Prop)
    (refl : ∀ files, Related files files)
    (trans : ∀ {before between after}, Related before between → Related between after →
      Related before after)
    (path : Path) (files : FileSystem)
    (create : ∀ parent, path.parent? = some parent → parent.bytes ≠ [] →
      ∀ directory ∈ Attempt.ancestors parent.bytes.length parent, ∀ {before after : FileSystem},
        before.makeDirectory directory = .ok after → Related before after) :
    Related files (prepare path files).2 := by
  rw [prepare]
  cases found : path.parent? with
  | none => exact refl files
  | some parent =>
    by_cases empty : parent.bytes = []
    · simp only [if_pos empty]
      exact refl files
    · simp only [if_neg empty]
      have related := Attempt.createFrom_related Related refl trans files _ (create parent found empty)
      rw [Attempt.createDirectories]
      split
      · next created => rwa [created] at related
      · next created => rwa [created] at related

/-! ## Replacing a file -/

/-- What an attempt to replace the entry that a path names comes to. It is replaced and
nothing else has changed, or nothing has changed at all. -/
inductive Outcome (files : FileSystem) (temporary path : Path) (entry : Entry) :
    Except Error Unit × FileSystem → Prop where
  | replaced {location : Location} {after : FileSystem}
      (replaces : files.Replaces after path location entry) (clean : after.IsFree temporary) :
      Outcome files temporary path entry (.ok (), after)
  | refused {error : Error} : Outcome files temporary path entry (.error error, files)

/-- If the temporary file cannot be written nothing has changed. -/
theorem cleaningUp_of_overwrite_error {cause : SystemCause} {contents : Bytes}
    (bare : files.IsBare temporary) (refused : files.overwrite temporary contents = .error cause) :
    cleaningUp temporary (replace temporary path contents) files =
      (.error (.system temporary cause), files) := by
  obtain ⟨left, nothing⟩ := bare.remove_eq
  have failed : replace temporary path contents files = (.error (.system temporary cause), files) :=
    Attempt.bind_of_error (Attempt.step_of_error refused)
  exact cleaningUp_of_error failed nothing

section Replacing

variable {directory final place : Location} {name temporaryPart : Bytes} {links left : Nat}
  {old contents : Bytes} {mode given : Nat}

/-- The temporary file gets the mode of the file that the path leads to. -/
theorem copyMode_eq (leads : files.Leads path final left)
    (found : files.find? final = some (.file old mode))
    (temporaryLeads : files.Leads temporary place links)
    (written : files.find? place = some (.file contents given)) :
    copyMode temporary path files = (.ok (), files.insert place (.file contents mode)) := by
  have looked : Attempt.look (fun files => .ok (files.mode? path)) files =
      (.ok (some mode), files) := by
    rw [Attempt.look, leads.mode?_eq found]
  rw [copyMode, Attempt.bind_of_ok looked]
  exact Attempt.step_of_ok (temporaryLeads.changeMode_eq written mode)

/-- The temporary file gets the contents and the mode, and is then moved. Nothing of it
is left. -/
theorem replace_eq (names : files.Names path directory name links)
    (leads : files.Leads path final left) (found : files.find? final = some (.file old mode))
    (noDirectory : files.hasDirectory (directory ++ [name]) = false)
    (short : name.length ≤ nameLimit)
    (temporaryNames : files.Names temporary directory temporaryPart links)
    (temporaryShort : temporaryPart.length ≤ nameLimit)
    (free : files.find? (directory ++ [temporaryPart]) = none)
    (different : directory ++ [name] ≠ directory ++ [temporaryPart]) (contents : Bytes) :
    replace temporary path contents files =
      (.ok (), files.insert (directory ++ [name]) (.file contents mode)) := by
  have written : files.overwrite temporary contents = .ok _ :=
    (temporaryNames.overwrite_eq free contents).trans (if_neg (Nat.not_lt.mpr temporaryShort))
  -- What the temporary file is given does not matter for where the paths lead.
  have staged (entry : Entry) :
      (files.insert (directory ++ [temporaryPart]) entry).find? (directory ++ [temporaryPart]) =
        some entry :=
    FileSystem.find?_insert_self (by simp)
  have elsewhere : final ≠ directory ++ [temporaryPart] := by
    intro same
    rw [same, free] at found
    cases found
  have copied := copyMode_eq (leads.insert_free free (.file contents fileMode))
    ((FileSystem.find?_insert_of_ne elsewhere).trans found)
    ((temporaryNames.insert_free free _).leads temporaryShort (staged _) (by simp)) (staged _)
  rw [FileSystem.insert_insert] at copied
  have moved := (temporaryNames.insert_free free (.file contents mode)).rename_eq
    (names.insert_free free _) short (staged _)
    (by rwa [FileSystem.hasDirectory, FileSystem.find?_insert_of_ne different])
  rw [FileSystem.erase_insert free] at moved
  rw [replace, Attempt.bind_of_ok (Attempt.step_of_ok written), Attempt.bind_of_ok copied]
  exact Attempt.step_of_ok moved

end Replacing

/-! ## Writing to a file that exists -/

section Writing

variable {opening : Option Path.Component} {upper : List Bytes} {last : Bytes}
  {directory final : Location} {links left : Nat} {old contents : Bytes} {mode : Nat}

/-- The path of the directory that a path names a place in leads there. -/
theorem reaches_parent (ends : path.EndsIn opening upper last)
    (reaches : files.Reaches linkLimit (files.origin path) (Path.openingParts opening ++ upper)
      directory links)
    (isDirectory : files.hasDirectory directory) :
    files.Reaches linkLimit (files.origin (Path.assemble opening (Path.trimParts upper)))
      (Path.assemble opening (Path.trimParts upper)).parts directory links := by
  obtain ⟨void, whole, meaningless⟩ := Path.exists_void upper
  obtain ⟨further, parts, nothing⟩ := ends.parts_parent
  have furtherMeaningless : ∀ part ∈ further, Path.isVoid part := by
    intro part member
    rw [nothing part member]
    rfl
  rw [whole, ← List.append_assoc] at reaches
  have parentReaches := (reaches.dropVoid meaningless).addVoid isDirectory furtherMeaningless
  rw [← parts] at parentReaches
  rwa [FileSystem.origin, ends.isAbsolute_parent]

/-- The directory that a path names a place in need not be created. -/
theorem prepare_keeps (ends : path.EndsIn opening upper last)
    (reaches : files.Reaches linkLimit (files.origin path) (Path.openingParts opening ++ upper)
      directory links)
    (isDirectory : files.hasDirectory directory) :
    ∃ result, prepare path files = (result, files) := by
  rw [prepare, ends.parent?_eq]
  by_cases empty : (Path.assemble opening (Path.trimParts upper)).bytes = []
  · exact ⟨.ok (), by simp only [if_pos empty]; rfl⟩
  · simp only [if_neg empty]
    exact Attempt.createDirectories_keeps empty (reaches_parent ends reaches isDirectory)

/-- Nothing can be written below a file. -/
theorem overwrite_below (ends : path.EndsIn opening upper Path.dotDot)
    (leads : files.Leads path final left) (noDirectory : files.hasDirectory final = false)
    (processId : Nat) :
    ∃ cause, files.overwrite (AtomicWrite.temporary processId path) contents = .error cause := by
  have cut := separator_not_mem_temporaryBytes processId path
  have parts : (AtomicWrite.temporary processId path).parts =
      path.parts ++ [temporaryBytes processId path] := by
    rw [temporary_eq_below ends, Path.parts_join _ cut]
    rw [ends.parts_eq]
    simp [Path.dotDot]
  have origin : files.origin (AtomicWrite.temporary processId path) = files.origin path := by
    rw [temporary_eq_below ends, FileSystem.origin_join _ _ cut]
  rw [FileSystem.overwrite, FileSystem.resolve]
  cases limits : FileSystem.checkLimits (AtomicWrite.temporary processId path) with
  | error cause => exact ⟨cause, rfl⟩
  | ok accepted =>
    rw [parts, origin, Except.ok_bind, leads.reaches.follow_append (.inl rfl), FileSystem.follow,
      noDirectory]
    exact ⟨.notDirectory, rfl⟩

section Beside

variable (ends : path.EndsIn opening upper last) (notUp : last ≠ Path.dotDot)
  (upperReaches : files.Reaches linkLimit (files.origin path) (Path.openingParts opening ++ upper)
    directory links)
  {processId : Nat} (free : files.IsFree (AtomicWrite.temporary processId path))

include ends notUp upperReaches free

/-- A temporary file whose path or name is not accepted is not written. -/
theorem overwrite_unaccepted (isDirectory : files.hasDirectory directory)
    (unaccepted : ¬ (FileSystem.checkLimits (AtomicWrite.temporary processId path) = .ok () ∧
      (temporaryBytes processId path).length ≤ nameLimit)) (contents : Bytes) :
    ∃ cause, files.overwrite (AtomicWrite.temporary processId path) contents = .error cause := by
  cases limits : FileSystem.checkLimits (AtomicWrite.temporary processId path) with
  | error cause =>
    refine ⟨cause, ?_⟩
    rw [FileSystem.overwrite, FileSystem.resolve, limits]
    rfl
  | ok accepted =>
    have temporaryNames := names_temporary ends notUp upperReaches isDirectory limits
    have long : nameLimit < (temporaryBytes processId path).length :=
      Nat.not_le.mp fun short => unaccepted ⟨limits, short⟩
    exact ⟨.nameTooLong, (temporaryNames.overwrite_eq (temporaryNames.isFree_iff.mp free)
      contents).trans (if_pos long)⟩

/-- A file is replaced by way of a temporary file in the same directory. -/
theorem replace_beside (leads : files.Leads path final left)
    (found : files.find? final = some (.file old mode))
    (reaches : files.Reaches links directory [last] final left)
    (limits : FileSystem.checkLimits (AtomicWrite.temporary processId path) = .ok ())
    (temporaryShort : (temporaryBytes processId path).length ≤ nameLimit) (contents : Bytes) :
    ∃ after, replace (AtomicWrite.temporary processId path) path contents files = (.ok (), after) ∧
      files.Replaces after path (directory ++ [last]) (.file contents mode) ∧
      after.IsFree (AtomicWrite.temporary processId path) := by
  have noDirectory : files.hasDirectory final = false := by
    rw [FileSystem.hasDirectory, found]
  have isName : Path.IsName last := ⟨ends.notVoid, notUp⟩
  have names : files.Names path directory last links :=
    ⟨leads.limits, isName, ⟨_, ends.parts_eq, upperReaches⟩, reaches.hasDirectory⟩
  have temporaryNames := names_temporary ends notUp upperReaches reaches.hasDirectory limits
  have nothing := temporaryNames.isFree_iff.mp free
  obtain ⟨short, entry, standing⟩ := reaches.exists_entry isName
  have different : directory ++ [temporaryBytes processId path] ≠ directory ++ [last] := by
    intro same
    rw [same, standing] at nothing
    cases nothing
  refine ⟨_, replace_eq names leads found (reaches.noDirectory_at_name isName noDirectory) short
    temporaryNames temporaryShort nothing different.symm contents,
    names.replaces_insert reaches noDirectory _, ?_⟩
  rwa [(temporaryNames.insert_leaf reaches noDirectory isName _).isFree_iff,
    FileSystem.find?_insert_of_ne different]

/-- A write to a path that leads to a regular file replaces it or changes nothing. -/
theorem outcome_beside (leads : files.Leads path final left)
    (found : files.find? final = some (.file old mode))
    (reaches : files.Reaches links directory [last] final left) (contents : Bytes) :
    Outcome files (AtomicWrite.temporary processId path) path (.file contents mode)
      (cleaningUp (AtomicWrite.temporary processId path)
        (replace (AtomicWrite.temporary processId path) path contents) files) := by
  by_cases accepted : FileSystem.checkLimits (AtomicWrite.temporary processId path) = .ok () ∧
      (temporaryBytes processId path).length ≤ nameLimit
  · obtain ⟨after, done, replaces, clean⟩ :=
      replace_beside ends notUp upperReaches free leads found reaches accepted.1 accepted.2 contents
    rw [cleaningUp_of_ok done]
    exact .replaced replaces clean
  · obtain ⟨cause, refused⟩ :=
      overwrite_unaccepted ends notUp upperReaches free reaches.hasDirectory accepted contents
    rw [cleaningUp_of_overwrite_error free.isBare refused]
    exact .refused

end Beside

/-- Writing to a path that leads to a file replaces the entry that the path names by a file
with the new contents and the old mode and leaves no temporary file, or it changes
nothing. -/
theorem write_of_stat {processId : Nat} (looked : files.stat path = .ok (.file old mode))
    (free : files.IsFree (AtomicWrite.temporary processId path)) (contents : Bytes) :
    Outcome files (AtomicWrite.temporary processId path) path (.file contents mode)
      (write processId path contents files) := by
  obtain ⟨final, left, leads, found⟩ := FileSystem.exists_leads_of_stat looked
  have noDirectory : files.hasDirectory final = false := by
    rw [FileSystem.hasDirectory, found]
  obtain ⟨front, last, directory, links, parts, notVoid, upperReaches, reaches⟩ :=
    leads.exists_last found
  obtain ⟨opening, upper, ends, rfl⟩ := Path.EndsIn.exists_of_parts parts notVoid
  obtain ⟨result, prepared⟩ := prepare_keeps ends upperReaches reaches.hasDirectory
  cases result with
  | error error =>
    rw [write, Attempt.bind_of_error prepared]
    exact .refused
  | ok done =>
    rw [write, Attempt.bind_of_ok prepared]
    -- A path that ends with `..` leads to a file only where the working directory has lost
    -- the directories around it.
    by_cases up : last = Path.dotDot
    · subst up
      obtain ⟨cause, refused⟩ := overwrite_below ends leads noDirectory processId
      rw [cleaningUp_of_overwrite_error free.isBare refused]
      exact .refused
    · exact outcome_beside ends up upperReaches free leads found reaches contents

end Writing

end AtomicWrite

end ElmWorkbench
