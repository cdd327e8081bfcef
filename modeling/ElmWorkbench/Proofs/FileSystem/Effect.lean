import ElmWorkbench.Proofs.FileSystem.Around
import Mathlib
/-!
# What a write does

A write creates directories, puts a temporary file where nothing stood, and moves that file or
removes it again. So if it comes out, the path has become a file with the contents, and if it does
not, nothing has changed but that directories were created (`AtomicWrite.write_effect`). Whether it
comes out depends on what the directories that were created, and the names, allow
(`AtomicWrite.Accepts`).

What becomes of the fixed file systems below is computed by `cbv`, which takes the equations of strings
and bytes from the whole library.
-/

namespace ElmWorkbench

namespace FileSystem

variable {files : FileSystem} {path : Path} {directory final location : Location} {name : Bytes}
  {left : Nat} {entry : Entry}

/-! ## Names of files -/

/-- A way that goes by a file ends there. -/
theorem Reaches.eq_of_file {links : Nat} {current : Location} {part : Bytes} {rest : List Bytes}
    {contents : Bytes} {mode : Nat}
    (reaches : files.Reaches links current (part :: rest) final left) (isName : Path.IsName part)
    (found : files.find? (current ++ [part]) = some (.file contents mode)) :
    final = current ++ [part] := by
  rw [← List.singleton_append] at reaches
  obtain ⟨middle, between, first, second⟩ := reaches.exists_middle
  obtain rfl := first.eq_of_name isName found (by simp)
  cases rest with
  | nil =>
    cases second
    rfl
  | cons next others =>
    have isDirectory := second.hasDirectory
    rw [FileSystem.hasDirectory, found] at isDirectory
    cases isDirectory

/-- A path leads to the entry that it names if that is no link. -/
theorem Leads.eq_of_name {front : List Bytes} (leads : files.Leads path final left)
    (parts : path.parts = front ++ [name]) (isName : Path.IsName name)
    (named : files.place? path = some location) (found : files.find? location = some entry)
    (notLink : ∀ target, entry ≠ .link target) : final = location := by
  obtain ⟨-, front', name', slash, directory, between, splitting, upper, -, rfl⟩ :=
    place?_eq_some_iff.mp named
  rw [parts, splitEnding_concat isName] at splitting
  obtain ⟨rfl, ending⟩ := Prod.mk.inj splitting
  obtain ⟨rfl, -⟩ := Ending.name.inj ending
  have reaches := leads.reaches
  rw [parts] at reaches
  obtain ⟨middle, links, first, last⟩ := reaches.exists_middle
  obtain rfl := first.final_unique upper
  exact last.eq_of_name isName found notLink

/-- A path names the same place in a file system that has all that ways can go by. -/
theorem Passes.names {later : FileSystem} (passes : files.Passes later)
    (names : files.Names path directory name left) : later.Names path directory name left := by
  obtain ⟨front, parts, reaches⟩ := names.reaches
  have origin : later.origin path = files.origin path := by
    rw [FileSystem.origin, FileSystem.origin, passes.start]
  exact ⟨names.limits, names.isName,
    ⟨front, parts, origin ▸ passes.reaches reaches names.isDirectory⟩,
    passes.hasDirectory names.isDirectory⟩

/-! ## A file where nothing stood -/

section Staged

variable {contents : Bytes} {mode : Nat} (free : files.find? location = none)

include free

/-- A new entry at a place where nothing stood stands in no way. -/
theorem passes_insert_free (entry : Entry) : files.Passes (files.insert location entry) where
  start := rfl
  kept {other standing} found _ := by
    rwa [find?_insert_of_ne]
    rintro rfl
    rw [free] at found
    cases found

/-- What a path leads to stays, and nothing else is found but the new file. -/
theorem stat_insert_free {standing : Entry} :
    (files.insert location (.file contents mode)).stat path = .ok standing →
      files.stat path = .ok standing ∨ standing = .file contents mode := by
  have proper : location ≠ [] := ne_nil_of_find? free (by simp)
  intro looked
  obtain ⟨final, left, leads, found⟩ := exists_leads_of_stat looked
  by_cases here : final = location
  · rw [here, find?_insert_self proper] at found
    exact .inr (Option.some.inj found).symm
  · rw [find?_insert_of_ne here] at found
    have passes : (files.insert location (.file contents mode)).Passes files :=
      passes_insert_file proper contents mode
    have before : files.Reaches linkLimit (files.origin path) path.parts final left := by
      refine leads.reaches.ofEntriesKept (fun _ => passes.hasDirectory)
        fun {_ current part _ _} further isName standing => ?_
      rwa [find?_insert_of_ne] at standing
      intro same
      -- A way by the new file would end there.
      have newFile : (files.insert location (.file contents mode)).find? (current ++ [part]) =
          some (.file contents mode) := by
        rw [same, find?_insert_self proper]
      exact here ((further.eq_of_file isName newFile).trans same)
    exact .inl (Leads.stat_eq ⟨leads.limits, before⟩ found)

/-- A new entry at a free place leaves alone what paths lead to. -/
theorem stat_kept (entry : Entry) {standing : Entry} (looked : files.stat path = .ok standing) :
    (files.insert location entry).stat path = .ok standing := by
  obtain ⟨final, left, leads, found⟩ := exists_leads_of_stat looked
  refine (leads.insert_free free entry).stat_eq ?_
  rwa [find?_insert_of_ne]
  rintro rfl
  rw [free] at found
  cases found

/-- A file with the mode of new ones does not change which mode a new file gets. -/
theorem mode?_insert_free (path : Path) (contents : Bytes) :
    ((files.insert location (.file contents fileMode)).mode? path).getD fileMode =
      (files.mode? path).getD fileMode := by
  cases before : files.stat path with
  | ok standing => rw [mode?, mode?, before, stat_kept free _ before]
  | error cause =>
    cases looked : (files.insert location (.file contents fileMode)).stat path with
    | error later => rw [mode?, mode?, before, looked]
    | ok standing =>
      rcases stat_insert_free free looked with kept | rfl
      · rw [before] at kept
        cases kept
      · rw [mode?, mode?, before, looked]
        rfl

/-- A file that was put where nothing stood can be removed. -/
theorem remove_insert (named : files.place? path = some location) :
    (files.insert location (.file contents mode)).remove path = .ok files := by
  have proper : location ≠ [] := ne_nil_of_find? free (by simp)
  have now := (passes_insert_free free (.file contents mode)).place?_eq named
  rw [place?] at now
  split at now
  · next directory name slash located =>
    obtain rfl := Option.some.inj now
    rw [remove, located, Except.ok_bind]
    simp only [find?_insert_self proper, erase_insert free]
    rfl
  · cases now

end Staged

/-! ## Places without a file -/

/-- Nothing stands where a path means if no entry has the name that the path ends with. -/
theorem Means.find?_eq_none (means : files.Means path location)
    (unnamed : ∀ item ∈ files.entries, item.1.getLast? ≠ path.fileName?) :
    files.find? location = none := by
  have absent : files.entries.find? (fun item => item.1 = location) = none := by
    refine List.find?_eq_none.mpr fun item member same => unnamed item member ?_
    rw [means.getLast?_eq, of_decide_eq_true same]
  rw [find?, if_neg means.ne_nil, absent]
  rfl

section Growing

variable {later : FileSystem} (grows : files.Grows later)

include grows

/-- Where every place that a path means is free, it is bare in a file system that has grown. -/
theorem Grows.isBare (free : ∀ location, files.Means path location → files.find? location = none) :
    later.IsBare path := by
  intro location entry named found
  exact ⟨_, grows.created (free location ⟨later, grows, named⟩) found⟩

/-- What a path leads to is kept. -/
theorem Grows.stat_eq (looked : files.stat path = .ok entry) : later.stat path = .ok entry := by
  obtain ⟨final, left, leads, found⟩ := exists_leads_of_stat looked
  have origin : later.origin path = files.origin path := by
    rw [FileSystem.origin, FileSystem.origin, grows.start]
  have reaches : later.Reaches linkLimit (later.origin path) path.parts final left :=
    origin ▸ leads.reaches.ofEntriesKept (fun _ => grows.passes.hasDirectory)
      fun _ _ standing => grows.kept standing
  exact Leads.stat_eq ⟨leads.limits, reaches⟩ (grows.kept found)

/-- A file that is there keeps its mode while the file system grows. -/
theorem Grows.mode?_eq {mode : Nat} (known : files.mode? path = some mode) :
    later.mode? path = some mode := by
  cases looked : files.stat path with
  | error cause => simp [mode?, looked] at known
  | ok entry => rwa [mode?, grows.stat_eq looked, ← looked, ← mode?]

end Growing

end FileSystem

namespace AtomicWrite

variable {files grown changed after : FileSystem} {path : Path} {processId mode : Nat}
  {contents : Bytes} {place directory : Location} {name : Bytes}

/-! ## The temporary file -/

/-- A temporary file that can be written stands where nothing stood. -/
theorem exists_place_of_overwrite (bare : grown.IsBare (temporary processId path))
    (written : grown.overwrite (temporary processId path) contents = .ok changed) :
    ∃ place, grown.place? (temporary processId path) = some place ∧ grown.find? place = none ∧
      changed = grown.insert place (.file contents fileMode) := by
  obtain ⟨target, resolved, further⟩ := Except.bind_eq_ok_iff.mp written
  obtain ⟨front, parts⟩ := exists_parts_temporary processId path
  have notLink (location : Location) (link : Path)
      (named : grown.place? (temporary processId path) = some location) :
      grown.find? location ≠ some (.link link) := by
    intro found
    obtain ⟨mode, same⟩ := bare location _ named found
    cases same
  obtain ⟨place, named, rfl | rfl⟩ :=
    FileSystem.exists_place_of_resolve parts (isName_temporaryBytes _ _) notLink resolved
  · dsimp only at further
    split at further
    · next old mode found =>
      obtain ⟨mode, same⟩ := bare place _ named found
      cases same
    · cases further
  · obtain ⟨accepted, limits, followed⟩ := Except.bind_eq_ok_iff.mp resolved
    have vacant := FileSystem.reaches_of_vacant (.file contents fileMode) (by simp) followed
    exact ⟨place, named, vacant.1, (Except.ok.inj further).symm⟩

/-- It gets the mode of what the path leads to, or that of new files. -/
theorem copyMode_insert (named : grown.place? (temporary processId path) = some place)
    (free : grown.find? place = none)
    (written : grown.overwrite (temporary processId path) contents =
      .ok (grown.insert place (.file contents fileMode))) :
    copyMode (temporary processId path) path (grown.insert place (.file contents fileMode)) =
      (.ok (), grown.insert place (.file contents ((grown.mode? path).getD fileMode))) := by
  have proper : place ≠ [] := FileSystem.ne_nil_of_find? free (by simp)
  obtain ⟨front, parts⟩ := exists_parts_temporary processId path
  obtain ⟨mode, stands, -⟩ := FileSystem.stat_of_overwrite written
  obtain ⟨final, left, leads, -⟩ := FileSystem.exists_leads_of_stat stands
  have now : (grown.insert place (.file contents fileMode)).find? place =
      some (.file contents fileMode) := FileSystem.find?_insert_self proper
  obtain rfl := leads.eq_of_name parts (isName_temporaryBytes _ _)
    ((FileSystem.passes_insert_free free _).place?_eq named) now (by simp)
  have same := FileSystem.mode?_insert_free free path contents
  have looked : Attempt.look (fun files => .ok (files.mode? path))
      (grown.insert final (.file contents fileMode)) =
      (.ok ((grown.insert final (.file contents fileMode)).mode? path),
        grown.insert final (.file contents fileMode)) := rfl
  rw [copyMode, Attempt.bind_of_ok looked, ← same]
  cases (grown.insert final (.file contents fileMode)).mode? path with
  | none => rfl
  | some given =>
    refine Attempt.step_of_ok ((leads.changeMode_eq now given).trans ?_)
    rw [FileSystem.insert_insert]
    rfl

/-- A temporary file that has been written and got its mode is to be moved. -/
theorem exists_replace_eq (bare : grown.IsBare (temporary processId path))
    (written : grown.overwrite (temporary processId path) contents = .ok changed) :
    ∃ place, grown.place? (temporary processId path) = some place ∧ grown.find? place = none ∧
      replace (temporary processId path) path contents grown =
        Attempt.step path (fun files => files.rename (temporary processId path) path)
          (grown.insert place (.file contents ((grown.mode? path).getD fileMode))) := by
  obtain ⟨place, named, free, rfl⟩ := exists_place_of_overwrite bare written
  refine ⟨place, named, free, ?_⟩
  rw [replace, Attempt.bind_of_ok (Attempt.step_of_ok written),
    Attempt.bind_of_ok (copyMode_insert named free written)]

/-! ## When a write comes out -/

/-- A write to a path can be carried out where all directories around it have been created: it names
a place without a directory, and the temporary file can be written beside it. -/
structure Accepts (grown : FileSystem) (processId : Nat) (path : Path) (directory : Location)
    (name : Bytes) : Prop where
  names : ∃ left, grown.Names path directory name left
  short : name.length ≤ nameLimit
  noDirectory : grown.hasDirectory (directory ++ [name]) = false
  temporaryLimits : FileSystem.checkLimits (temporary processId path) = .ok ()
  temporaryShort : (temporaryBytes processId path).length ≤ nameLimit
  temporaryFree : grown.find? (directory ++ [temporaryBytes processId path]) = none

/-- What was written and could be moved was accepted, and it was moved from where nothing stood. -/
theorem accepts_of_rename (named : grown.place? (temporary processId path) = some place)
    (free : grown.find? place = none)
    (written : grown.overwrite (temporary processId path) contents = .ok changed)
    (moved : (grown.insert place (.file contents mode)).rename (temporary processId path) path =
      .ok after) :
    ∃ directory name, Accepts grown processId path directory name ∧
      after = grown.insert (directory ++ [name]) (.file contents mode) := by
  have proper : place ≠ [] := FileSystem.ne_nil_of_find? free (by simp)
  obtain ⟨directory, name, left, staged⟩ := FileSystem.exists_names_of_rename moved
  have names := (FileSystem.passes_insert_file proper contents mode).names staged
  have limits : FileSystem.checkLimits (temporary processId path) = .ok () := by
    obtain ⟨target, resolved, -⟩ := Except.bind_eq_ok_iff.mp written
    obtain ⟨accepted, limits, -⟩ := Except.bind_eq_ok_iff.mp resolved
    exact limits
  have temporaryNames := names_temporary_of_names names limits
  obtain rfl := Option.some.inj (named.symm.trans temporaryNames.place?_eq)
  have temporaryShort : (temporaryBytes processId path).length ≤ nameLimit := by
    by_contra long
    rw [temporaryNames.overwrite_eq free, if_pos (Nat.not_le.mp long)] at written
    cases written
  obtain ⟨short, entry, moves⟩ := (temporaryNames.insert_free free _).moves staged moved
  have isFile : entry = .file contents mode := by
    have found := moves.found
    rw [FileSystem.find?_insert_self proper] at found
    exact (Option.some.inj found).symm
  have noDirectory : grown.hasDirectory (directory ++ [name]) = false := by
    rw [← Bool.not_eq_true]
    intro isDirectory
    have still := FileSystem.hasDirectory_insert (FileSystem.hasDirectory_of_free free)
      (.file contents mode) isDirectory
    rw [moves.noDirectory] at still
    cases still
  refine ⟨directory, name, ⟨⟨left, names⟩, short, noDirectory, limits, temporaryShort, free⟩, ?_⟩
  rw [moves.moved, isFile, FileSystem.erase_insert free]

/-- The place that a write is to and the place of its temporary file are two. -/
theorem Accepts.ne (accepts : Accepts grown processId path directory name) :
    directory ++ [name] ≠ directory ++ [temporaryBytes processId path] := by
  obtain ⟨left, names⟩ := accepts.names
  intro same
  have fileName := FileSystem.getLast?_of_place? names.place?_eq
  rw [List.getLast?_concat] at fileName
  exact temporaryBytes_ne_fileName fileName processId
    (List.singleton_inj.mp (List.append_cancel_left same)).symm

/-- The temporary file is moved within the directory. -/
theorem Accepts.moves (accepts : Accepts grown processId path directory name) (entry : Entry) :
    (grown.insert (directory ++ [temporaryBytes processId path]) entry).Moves
      (grown.insert (directory ++ [name]) entry) directory (temporaryBytes processId path) name
      entry where
  found := FileSystem.find?_insert_self (by simp)
  noDirectory := by
    rw [FileSystem.hasDirectory, FileSystem.find?_insert_of_ne accepts.ne]
    exact accepts.noDirectory
  moved := by rw [FileSystem.erase_insert accepts.temporaryFree]

/-- What is accepted is carried out: the path names a file with the contents, and nothing else has
changed. -/
theorem Accepts.replace_eq (accepts : Accepts grown processId path directory name)
    (contents : Bytes) :
    replace (temporary processId path) path contents grown =
      (.ok (), grown.insert (directory ++ [name])
        (.file contents ((grown.mode? path).getD fileMode))) := by
  obtain ⟨left, names⟩ := accepts.names
  have temporaryNames := names_temporary_of_names names accepts.temporaryLimits
  have free := accepts.temporaryFree
  have bare : grown.IsBare (temporary processId path) := by
    intro location entry named found
    rw [temporaryNames.place?_eq] at named
    rw [← Option.some.inj named, free] at found
    cases found
  have written := (temporaryNames.overwrite_eq free contents).trans
    (if_neg (Nat.not_lt.mpr accepts.temporaryShort))
  obtain ⟨place, named, -, moving⟩ := exists_replace_eq bare written
  obtain rfl := Option.some.inj (named.symm.trans temporaryNames.place?_eq)
  have moves := accepts.moves (.file contents ((grown.mode? path).getD fileMode))
  rw [moving]
  refine Attempt.step_of_ok (((temporaryNames.insert_free free _).rename_eq
    (names.insert_free free _) accepts.short moves.found moves.noDirectory).trans ?_)
  rw [← moves.moved]

/-- What is not accepted fails, and the temporary file is removed again. -/
theorem exists_error_of_not_accepts (bare : grown.IsBare (temporary processId path))
    (refuses : ∀ directory name, ¬ Accepts grown processId path directory name)
    (contents : Bytes) :
    ∃ error, cleaningUp (temporary processId path)
      (replace (temporary processId path) path contents) grown = (.error error, grown) := by
  cases written : grown.overwrite (temporary processId path) contents with
  | error cause => exact ⟨_, cleaningUp_of_overwrite_error bare written⟩
  | ok changed =>
    obtain ⟨place, named, free, moving⟩ := exists_replace_eq bare written
    cases moved : (grown.insert place (.file contents ((grown.mode? path).getD fileMode))).rename
        (temporary processId path) path with
    | ok after =>
      obtain ⟨directory, name, accepts, -⟩ := accepts_of_rename named free written moved
      exact absurd accepts (refuses directory name)
    | error cause =>
      rw [Attempt.step_of_error moved] at moving
      exact ⟨_, cleaningUp_of_removed moving (FileSystem.remove_insert free named)⟩

/-! ## The effect of a write -/

/-- What a file system has become where a write came out, given how it had grown before. -/
structure Written (files grown after : FileSystem) (processId : Nat) (path : Path)
    (contents : Bytes) (directory : Location) (name : Bytes) : Prop where
  /-- All paths around the path lead to directories now. -/
  complete : ∀ outer : Path, outer.Encloses path → outer.bytes ≠ [] → grown.isDirectory outer
  accepts : Accepts grown processId path directory name
  /-- The path names a file with the contents and the mode of what it led to, if that was anything,
  and nothing else has changed. -/
  changed : after = grown.insert (directory ++ [name])
    (.file contents ((grown.mode? path).getD fileMode))
  /-- What the path led to before, it led to when all directories around it existed. -/
  known : ∀ mode, files.mode? path = some mode → grown.mode? path = some mode
  /-- Nothing else than the file is found at the path, and it is found there unless it took the
  place of a link. -/
  found : ∀ entry, after.stat path = .ok entry →
    entry = .file contents ((grown.mode? path).getD fileMode)
  readBack : (∀ target, files.find? (directory ++ [name]) ≠ some (.link target)) →
    after.stat path = .ok (.file contents ((grown.mode? path).getD fileMode))
  clean : after.find? (directory ++ [temporaryBytes processId path]) = none

/-- What a write comes to. -/
inductive Effect (files : FileSystem) (processId : Nat) (path : Path) (contents : Bytes) :
    Except Error Unit × FileSystem → Prop where
  | written {grown after : FileSystem} {directory : Location} {name : Bytes}
      (around : GrowsAround files path grown)
      (written : Written files grown after processId path contents directory name) :
      Effect files processId path contents (.ok (), after)
  /-- Nothing but directories has been created, or one of them could not be. -/
  | refused {grown : FileSystem} {error : Error} (around : GrowsAround files path grown)
      (refuses : (∀ outer : Path, outer.Encloses path → outer.bytes ≠ [] →
        grown.isDirectory outer) → ∀ directory name, ¬ Accepts grown processId path directory name)
      (clean : grown.IsBare (temporary processId path)) :
      Effect files processId path contents (.error error, grown)

/-- The file system that a write leaves is written if the temporary file was moved to the place. -/
theorem Accepts.written (accepts : Accepts grown processId path directory name)
    (grows : files.Grows grown) (contents : Bytes)
    (complete : ∀ outer : Path, outer.Encloses path → outer.bytes ≠ [] →
      grown.isDirectory outer) :
    Written files grown (grown.insert (directory ++ [name])
      (.file contents ((grown.mode? path).getD fileMode)))
      processId path contents directory name := by
  obtain ⟨left, names⟩ := accepts.names
  have moves := accepts.moves (.file contents ((grown.mode? path).getD fileMode))
  have staged := names.insert_free accepts.temporaryFree
    (.file contents ((grown.mode? path).getD fileMode))
  refine ⟨complete, accepts, rfl, fun mode => grows.mode?_eq,
    fun entry => moves.eq_of_file staged,
    fun noLink => moves.stat_of_noLink staged accepts.short fun target found => ?_, ?_⟩
  · rw [FileSystem.find?_insert_of_ne accepts.ne] at found
    cases before : files.find? (directory ++ [name]) with
    | none => cases grows.created before found
    | some entry =>
      rw [grows.kept before] at found
      exact noLink target (before.trans found)
  · rw [FileSystem.find?_insert_of_ne accepts.ne.symm, accepts.temporaryFree]

/-- A write to a path comes out if the directories around it can be created and what they, and the
names, allow is enough. Then the path names a file with exactly the contents and with the mode of
what the path led to when these directories existed, or the mode of new files if it led nowhere, and
besides that file nothing has changed but that the missing directories were created. Otherwise the
write fails, and nothing has changed but that some of them were created. Nothing of the temporary
file is left if nothing stood at its place. -/
theorem write_effect (contents : Bytes)
    (free : ∀ location, files.Means (temporary processId path) location →
      files.find? location = none) :
    Effect files processId path contents (write processId path contents files) := by
  have around := growsAround_prepare path files
  have bare : (prepare path files).2.IsBare (temporary processId path) := around.grows.isBare free
  have outcome := @prepare_eq_ok_iff files path
  generalize preparing : prepare path files = prepared at around bare outcome
  obtain ⟨result, grown⟩ := prepared
  cases result with
  | error error =>
    rw [write, Attempt.bind_of_error preparing]
    refine .refused around (fun complete => ?_) bare
    cases outcome.mpr complete
  | ok done =>
    have complete := outcome.mp rfl
    rw [write, Attempt.bind_of_ok preparing]
    by_cases accepted : ∃ directory name, Accepts grown processId path directory name
    · obtain ⟨directory, name, accepts⟩ := accepted
      rw [cleaningUp_of_ok (accepts.replace_eq contents)]
      exact .written around (accepts.written around.grows contents complete)
    · push Not at accepted
      obtain ⟨error, failed⟩ := exists_error_of_not_accepts bare accepted contents
      rw [failed]
      exact .refused around (fun _ => accepted) bare

/-- A directory and a link to it. -/
def linkedDirectory : FileSystem where
  entries := [([[0x73]], .directory directoryMode), ([[0x6C]], .link ⟨[0x73]⟩)]
  workingDirectory := []

/-- A file is written behind the link, in a directory that is missing. -/
theorem write_effect_linked :
    (∀ location, linkedDirectory.Means (temporary 7 (.ofString "l/n/f")) location →
        linkedDirectory.find? location = none) ∧
      Effect linkedDirectory 7 (.ofString "l/n/f") [0x74]
        (write 7 (.ofString "l/n/f") [0x74] linkedDirectory) := by
  have free (location : Location)
      (means : linkedDirectory.Means (temporary 7 (.ofString "l/n/f")) location) :
      linkedDirectory.find? location = none := means.find?_eq_none (by decide)
  exact ⟨free, write_effect [0x74] free⟩

/-- A path that led nowhere leads to the directory as soon as the missing one exists, and the file
gets its mode. The file takes the place of the link on the way, so nothing is found at the path. -/
theorem write_effect_circling :
    linkedDirectory.stat (.ofString "l/n/../../l") = .error .notFound ∧
      (∀ location, linkedDirectory.Means (temporary 7 (.ofString "l/n/../../l")) location →
        linkedDirectory.find? location = none) ∧
      (write 7 (.ofString "l/n/../../l") [0x74] linkedDirectory).1 = .ok () ∧
      (write 7 (.ofString "l/n/../../l") [0x74] linkedDirectory).2.find? [[0x6C]] =
        some (.file [0x74] directoryMode) ∧
      (write 7 (.ofString "l/n/../../l") [0x74] linkedDirectory).2.stat
        (.ofString "l/n/../../l") = .error .notDirectory := by
  refine ⟨by cbv, fun location means => means.find?_eq_none (by decide), ?_, ?_, ?_⟩
  · cbv
  · cbv
  · cbv

end AtomicWrite

end ElmWorkbench
