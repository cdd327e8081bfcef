import ElmWorkbench.Proofs.FileSystem.AtomicWrite
import ElmWorkbench.Proofs.FileSystem.Moving
/-!
# Reading back what was written

After a write nothing but its contents is found at its path, and they are found there unless a link
stood at the place of the file or of its temporary file (`AtomicWrite.exists_readBack`).
-/

namespace ElmWorkbench

namespace FileSystem

variable {files now later : FileSystem} {path : Path} {location : Location}

/-- A path means a place at which a link stands. -/
def MeansLink (files : FileSystem) (path : Path) : Prop :=
  ∃ location target, files.Means path location ∧ files.find? location = some (.link target)

/-- A link at the place that a path names stood there before any directory was created. -/
theorem Passes.meansLink {target : Path} (passes : now.Passes later) (grows : files.Grows later)
    (named : now.place? path = some location) (found : now.find? location = some (.link target)) :
    files.MeansLink path := by
  refine ⟨location, target, passes.means grows named, ?_⟩
  have grown := passes.kept found (by simp)
  cases before : files.find? location with
  | none => cases grows.created before grown
  | some entry => rw [← grown, grows.kept before]

end FileSystem

namespace Attempt

variable {files changed : FileSystem}

/-- Two attempts that came out together came out one after the other. -/
theorem exists_of_bind {Value Result : Type} {attempt : Attempt Value}
    {next : Value → Attempt Result} {result : Result}
    (done : (attempt >>= next) files = (.ok result, changed)) :
    ∃ value middle, attempt files = (.ok value, middle) ∧
      next value middle = (.ok result, changed) := by
  cases tried : attempt files with
  | mk outcome middle =>
    cases outcome with
    | error error =>
      rw [bind_of_error tried] at done
      cases done
    | ok value =>
      rw [bind_of_ok tried] at done
      exact ⟨value, middle, rfl, done⟩

/-- The change of a step that came out was carried out. -/
theorem of_step {path : Path} {change : FileSystem → Except SystemCause FileSystem}
    (done : step path change files = (.ok (), changed)) : change files = .ok changed := by
  cases tried : change files with
  | error cause =>
    rw [step_of_error tried] at done
    cases done
  | ok after =>
    rw [step_of_ok tried] at done
    rw [(Prod.mk.inj done).2]

end Attempt

namespace AtomicWrite

variable {files after : FileSystem} {path : Path} {processId : Nat} {contents : Bytes}

/-- Creating the directories around a file lets a file system grow. -/
theorem grows_prepare (path : Path) (files : FileSystem) : files.Grows (prepare path files).2 := by
  refine prepare_related FileSystem.Grows .refl .trans path files fun _ _ _ directory _ => ?_
  intro before after created
  obtain ⟨location, -, free, rfl⟩ := FileSystem.exists_of_makeDirectory created
  exact FileSystem.grows_insert free

/-- An attempt that came out had nothing to clean up. -/
theorem of_cleaningUp {temporary : Path} {attempt : Attempt Unit}
    (done : cleaningUp temporary attempt files = (.ok (), after)) :
    attempt files = (.ok (), after) := by
  have outcome := fst_cleaningUp temporary attempt files
  rw [done] at outcome
  have tried : attempt files = (.ok (), (attempt files).2) := Prod.ext outcome.symm rfl
  rw [cleaningUp_of_ok tried] at done
  rw [tried, done]

/-- A write that is done has moved a temporary file with its contents to its path. Besides that file
nothing has changed since the directories around it were created. -/
theorem exists_staged (done : write processId path contents files = (.ok (), after)) :
    ∃ (staged : FileSystem) (mode : Nat),
      staged.stat (temporary processId path) = .ok (.file contents mode) ∧
        staged.Passes (prepare path files).2 ∧
        staged.rename (temporary processId path) path = .ok after := by
  obtain ⟨_, prepared, preparing, further⟩ := Attempt.exists_of_bind done
  obtain ⟨_, written, writing, further⟩ := Attempt.exists_of_bind (of_cleaningUp further)
  obtain ⟨_, staged, staging, moving⟩ := Attempt.exists_of_bind further
  obtain ⟨mode, stands, passes⟩ := FileSystem.stat_of_overwrite (Attempt.of_step writing)
  have moved := Attempt.of_step moving
  rw [preparing]
  obtain ⟨mode?, looked, looking, changing⟩ := Attempt.exists_of_bind staging
  obtain rfl : written = looked := (Prod.mk.inj looking).2
  cases mode? with
  | none =>
    obtain rfl : written = staged := (Prod.mk.inj changing).2
    exact ⟨written, mode, stands, passes, moved⟩
  | some given =>
    obtain ⟨standsToo, passesToo⟩ :=
      FileSystem.stat_of_changeMode stands (Attempt.of_step changing)
    exact ⟨staged, given, standsToo, passesToo.trans passes, moved⟩

/-- The temporary file of a path is named in the directory that the path is named in. -/
theorem names_temporary_of_names {directory : Location} {name : Bytes} {left : Nat}
    (names : files.Names path directory name left)
    (limits : FileSystem.checkLimits (temporary processId path) = .ok ()) :
    files.Names (temporary processId path) directory (temporaryBytes processId path) left := by
  obtain ⟨front, parts, reaches⟩ := names.reaches
  obtain ⟨opening, upper, ends, rfl⟩ := Path.EndsIn.exists_of_parts parts names.isName.notVoid
  exact names_temporary ends names.isName.notUp reaches names.isDirectory limits

/-- After a write nothing but a file with its contents is found at its path, and one is found there
unless a link stood at the place of the file or of its temporary file. -/
theorem exists_readBack (done : write processId path contents files = (.ok (), after)) :
    ∃ mode, (∀ entry, after.stat path = .ok entry → entry = .file contents mode) ∧
      (¬ files.MeansLink path → ¬ files.MeansLink (temporary processId path) →
        after.stat path = .ok (.file contents mode)) := by
  obtain ⟨staged, mode, stands, passes, moved⟩ := exists_staged done
  obtain ⟨directory, name, left, names⟩ := FileSystem.exists_names_of_rename moved
  obtain ⟨_, _, leads, -⟩ := FileSystem.exists_leads_of_stat stands
  have temporaryNames := names_temporary_of_names names leads.limits
  obtain ⟨short, entry, moves⟩ := temporaryNames.moves names moved
  refine ⟨mode, fun found looked => moves.eq_of_stat temporaryNames names stands looked,
    fun noLink temporaryNoLink => ?_⟩
  have grows := grows_prepare path files
  refine moves.stat_eq temporaryNames names stands short ?_ ?_
  · exact fun target found =>
      temporaryNoLink (passes.meansLink grows temporaryNames.place?_eq found)
  · exact fun target found => noLink (passes.meansLink grows names.place?_eq found)

end AtomicWrite

end ElmWorkbench
