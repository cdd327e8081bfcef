import ElmWorkbench.FileSystem.Change
import ElmWorkbench.Proofs.Except
import ElmWorkbench.Proofs.FileSystem.Reach
/-!
# Places that paths name

A path names a place in the directory that its other parts lead to, whether an entry
stands there or not; a link there is not followed. Lookups and changes through a path
depend on the way there only as far as `Leads` and `Names` tell.
-/

namespace ElmWorkbench

/-- The location that a path leads to, whether an entry stands there or not. -/
def Target.location : Target → Location
  | .present location => location
  | .vacant location => location

namespace FileSystem

/-- The location that a path names in a directory, if it ends with a name. -/
def place? (files : FileSystem) (path : Path) : Option Location :=
  match files.locateParent path with
  | .ok (directory, .name name _) => some (directory ++ [name])
  | _ => none

/-- Nothing stands at the place that a path names. -/
def IsFree (files : FileSystem) (path : Path) : Prop :=
  ∀ location, files.place? path = some location → files.find? location = none

/-- Nothing but a directory stands at the place that a path names. -/
def IsBare (files : FileSystem) (path : Path) : Prop :=
  ∀ location entry, files.place? path = some location → files.find? location = some entry →
    ∃ mode, entry = .directory mode

/-- A path leads to a location with all links followed, and some more links could be
followed from there. -/
structure Leads (files : FileSystem) (path : Path) (final : Location) (left : Nat) : Prop where
  limits : checkLimits path = .ok ()
  reaches : files.Reaches linkLimit (files.origin path) path.parts final left

/-- A path names a place in a directory, and some more links could be followed from
there. -/
structure Names (files : FileSystem) (path : Path) (directory : Location) (name : Bytes)
    (left : Nat) : Prop where
  limits : checkLimits path = .ok ()
  isName : Path.IsName name
  reaches : ∃ front, path.parts = front ++ [name] ∧
    files.Reaches linkLimit (files.origin path) front directory left
  isDirectory : files.hasDirectory directory

/-- Only the entry at the place that a path names has become another one. -/
structure Replaces (files after : FileSystem) (path : Path) (location : Location) (entry : Entry) :
    Prop where
  named : files.place? path = some location
  stillNamed : after.place? path = some location
  now : after.find? location = some entry
  others : ∀ other, other ≠ location → after.find? other = files.find? other
  sameStart : after.workingDirectory = files.workingDirectory

section Places

variable {files : FileSystem} {path : Path} {directory final location : Location} {name : Bytes}
  {left : Nat}

/-! ## Following a path to its end -/

/-- A path is accepted if it is neither empty nor too long and has no zero byte. -/
theorem checkLimits_eq_ok_iff :
    checkLimits path = .ok () ↔ 0 ∉ path.bytes ∧ path.bytes ≠ [] ∧ path.bytes.length < pathLimit := by
  rw [checkLimits]
  split
  · next zero => simpa using fun noZero => absurd (by simpa using zero) noZero
  · next noZero =>
    split
    · next empty => simp [empty]
    · next filled =>
      split
      · next long => simpa using fun _ _ => long
      · next short => simpa [filled] using ⟨by simpa using noZero, Nat.not_le.mp short⟩

/-- The location that a path leads to is where it is located. -/
theorem Leads.locate_eq (leads : files.Leads path final left) : files.locate path = .ok final := by
  rw [locate, resolve, leads.limits, Except.ok_bind, leads.reaches.follow_eq]
  rfl

/-- A path without links leads where its parts do. -/
theorem leads_of_through? (limits : checkLimits path = .ok ())
    (through : files.through? (files.origin path) path.parts = some final) :
    files.Leads path final linkLimit :=
  ⟨limits, reaches_of_through? through linkLimit⟩

/-- A path without links is located where its parts lead. -/
theorem locate_of_through? (limits : checkLimits path = .ok ())
    (through : files.through? (files.origin path) path.parts = some final) :
    files.locate path = .ok final :=
  (leads_of_through? limits through).locate_eq

/-- A name that is joined to a path does not change where it starts from. -/
theorem origin_join (files : FileSystem) (directory : Path) {name : Bytes}
    (cut : Path.separator ∉ name) : files.origin (directory.join ⟨name⟩) = files.origin directory := by
  rw [origin, Path.isAbsolute_join_name _ cut, origin]

/-- A path that is located somewhere leads there. -/
theorem exists_leads (located : files.locate path = .ok final) :
    ∃ left, files.Leads path final left := by
  obtain ⟨target, resolved, ending⟩ := Except.bind_eq_ok_iff.mp located
  obtain ⟨accepted, limits, followed⟩ := Except.bind_eq_ok_iff.mp resolved
  cases target with
  | vacant location => cases ending
  | present location =>
    cases ending
    obtain ⟨left, reaches⟩ := exists_reaches_of_follow followed
    exact ⟨left, limits, reaches⟩

/-- A path is a directory if it is located at one. -/
theorem isDirectory_iff : files.isDirectory path ↔
    ∃ location, files.locate path = .ok location ∧ files.hasDirectory location := by
  rw [isDirectory, stat]
  cases located : files.locate path with
  | error cause => simp
  | ok location =>
    simp only [Except.ok_bind, Except.ok.injEq, exists_eq_left', hasDirectory]
    cases files.find? location with
    | none => rfl
    | some entry => cases entry <;> rfl

/-- What is looked up is found at the location that the path leads to. -/
theorem exists_leads_of_stat {entry : Entry} (looked : files.stat path = .ok entry) :
    ∃ final left, files.Leads path final left ∧ files.find? final = some entry := by
  obtain ⟨final, located, found⟩ := Except.bind_eq_ok_iff.mp looked
  obtain ⟨left, leads⟩ := exists_leads located
  refine ⟨final, left, leads, ?_⟩
  split at found
  · next entry here =>
    cases found
    exact here
  · cases found

/-- The entry at the location that a path leads to is looked up. -/
theorem Leads.stat_eq {entry : Entry} (leads : files.Leads path final left)
    (found : files.find? final = some entry) : files.stat path = .ok entry := by
  rw [stat, leads.locate_eq, Except.ok_bind, found]
  rfl

/-- Without links, the entry that the parts of a path lead to is looked up. -/
theorem stat_of_through? {entry : Entry} (limits : checkLimits path = .ok ())
    (through : files.through? (files.origin path) path.parts = some final)
    (found : files.find? final = some entry) : files.stat path = .ok entry :=
  (leads_of_through? limits through).stat_eq found

/-- Without links, a path is a directory if its parts lead to one. -/
theorem isDirectory_of_through? {mode : Nat} (limits : checkLimits path = .ok ())
    (through : files.through? (files.origin path) path.parts = some final)
    (found : files.find? final = some (.directory mode)) : files.isDirectory path := by
  rw [isDirectory, stat_of_through? limits through found]

/-! ## Following a path to its directory -/

/-- Parts that end with a name are split before it. -/
theorem splitEnding_concat {front : List Bytes} (isName : Path.IsName name) :
    splitEnding (front ++ [name]) = (front, .name name false) := by
  have nonempty : name ≠ [] := by
    rintro rfl
    cases isName.notVoid
  have notDot : name ≠ Path.dot := by
    rintro rfl
    cases isName.notVoid
  simp [splitEnding, nonempty, notDot, isName.notUp]

/-- Parts that end with `..` name no entry. -/
theorem splitEnding_up {front : List Bytes} :
    splitEnding (front ++ [Path.dotDot]) = (front, .special) := by
  simp [splitEnding, Path.dotDot]

/-- The directory and the name of a path are located as it names them. -/
theorem Names.locateParent_eq (names : files.Names path directory name left) :
    files.locateParent path = .ok (directory, .name name false) := by
  obtain ⟨front, parts, reaches⟩ := names.reaches
  rw [locateParent, names.limits, Except.ok_bind, parts, splitEnding_concat names.isName]
  simp only [reaches.follow_eq, Except.ok_bind, names.isDirectory]
  rfl

/-- The place of a path is its name in its directory. -/
theorem Names.place?_eq (names : files.Names path directory name left) :
    files.place? path = some (directory ++ [name]) := by
  rw [place?, names.locateParent_eq]

/-- A path that leads on to what it names can be followed in two steps. -/
theorem Names.follow_eq (names : files.Names path directory name left) (followLast : Bool) :
    files.resolve followLast path = files.follow followLast left directory [name] := by
  obtain ⟨front, parts, reaches⟩ := names.reaches
  rw [resolve, names.limits, Except.ok_bind, parts, reaches.follow_append (.inr (by simp))]

/-- A path to an entry that is no link leads to the place that it names. -/
theorem Names.leads {entry : Entry} (names : files.Names path directory name left)
    (short : name.length ≤ nameLimit) (found : files.find? (directory ++ [name]) = some entry)
    (notLink : ∀ target, entry ≠ .link target) : files.Leads path (directory ++ [name]) left := by
  obtain ⟨front, parts, reaches⟩ := names.reaches
  refine ⟨names.limits, ?_⟩
  rw [parts]
  exact reaches.append (.enter names.isDirectory names.isName short found notLink .done)

/-- A path that leads to a file ends with a part that stands for something, and it leads
there by way of that part. -/
theorem Leads.exists_last {contents : Bytes} {mode : Nat} (leads : files.Leads path final left)
    (found : files.find? final = some (.file contents mode)) :
    ∃ front last directory between, path.parts = front ++ [last] ∧ Path.isVoid last = false ∧
      files.Reaches linkLimit (files.origin path) front directory between ∧
      files.Reaches between directory [last] final left := by
  obtain ⟨front, last, parts⟩ := List.eq_nil_or_concat path.parts |>.resolve_left path.parts_ne_nil
  rw [List.concat_eq_append] at parts
  have reaches := leads.reaches
  rw [parts] at reaches
  obtain ⟨directory, between, first, second⟩ := reaches.exists_middle
  refine ⟨front, last, directory, between, parts, ?_, first, second⟩
  rw [← Bool.not_eq_true]
  intro void
  obtain ⟨rfl, -⟩ := second.eq_of_void (by simpa using void)
  have isDirectory := second.hasDirectory
  simp [hasDirectory, found] at isDirectory

/-! ## Changes that are carried out -/

/-- A free name takes a file, unless it is too long. -/
theorem Names.overwrite_eq (names : files.Names path directory name left)
    (free : files.find? (directory ++ [name]) = none) (contents : Bytes) :
    files.overwrite path contents =
      if nameLimit < name.length then .error .nameTooLong
      else .ok (files.insert (directory ++ [name]) (.file contents fileMode)) := by
  rw [overwrite, names.follow_eq]
  by_cases long : nameLimit < name.length
  · rw [follow_long names.isDirectory names.isName long, if_pos long]
    rfl
  · rw [follow_name names.isDirectory names.isName (Nat.not_lt.mp long), free, if_neg long]
    rfl

/-- Changing the mode of a file that a path leads to changes nothing else of it. -/
theorem Leads.changeMode_eq {contents : Bytes} {old : Nat} (leads : files.Leads path final left)
    (found : files.find? final = some (.file contents old)) (mode : Nat) :
    files.changeMode path mode = .ok (files.insert final (.file contents mode)) := by
  rw [changeMode, leads.locate_eq, Except.ok_bind, found]
  rfl

/-- The mode of a path is that of the file that it leads to. -/
theorem Leads.mode?_eq {contents : Bytes} {mode : Nat} (leads : files.Leads path final left)
    (found : files.find? final = some (.file contents mode)) : files.mode? path = some mode := by
  rw [mode?, leads.stat_eq found]

/-- What one path names is moved to the place that another one names, unless a directory
stands there. -/
theorem Names.rename_eq {source : Path} {sourceDirectory : Location} {sourceName : Bytes}
    {sourceLeft : Nat} {entry : Entry}
    (sourceNames : files.Names source sourceDirectory sourceName sourceLeft)
    (names : files.Names path directory name left) (short : name.length ≤ nameLimit)
    (found : files.find? (sourceDirectory ++ [sourceName]) = some entry)
    (noDirectory : files.hasDirectory (directory ++ [name]) = false) :
    files.rename source path =
      .ok ((files.erase (sourceDirectory ++ [sourceName])).insert (directory ++ [name]) entry) := by
  rw [rename, sourceNames.locateParent_eq, names.locateParent_eq]
  simp only [Except.ok_bind, found, noDirectory, if_neg (Nat.not_lt.mpr short)]
  rfl

/-! ## Changes that are refused -/

/-- A free place is bare. -/
theorem IsFree.isBare (free : files.IsFree path) : files.IsBare path := by
  intro location entry named found
  rw [free location named] at found
  cases found

/-- Nothing can be removed where no file is. -/
theorem IsBare.remove_eq (bare : files.IsBare path) :
    ∃ cause, files.remove path = .error cause := by
  rw [remove]
  cases located : files.locateParent path with
  | error cause => exact ⟨cause, rfl⟩
  | ok parent =>
    obtain ⟨directory, ending⟩ := parent
    cases ending with
    | special => exact ⟨_, rfl⟩
    | name name slash =>
      rw [Except.ok_bind]
      cases found : files.find? (directory ++ [name]) with
      | none => exact ⟨.notFound, by simp only [found]⟩
      | some entry =>
        obtain ⟨mode, rfl⟩ := bare _ entry (by rw [place?, located]) found
        exact ⟨.isDirectory, by simp only [found]⟩

/-- The parts of a path begin with those of its directory, and a name follows them, perhaps with
empty parts behind it, unless the path ends otherwise. -/
theorem exists_splitEnding (parts : List Bytes) :
    ∃ rest, parts = (splitEnding parts).1 ++ rest ∧
      ∀ name slash, (splitEnding parts).2 = .name name slash →
        Path.IsName name ∧ ∃ more, rest = name :: more ∧ (∀ part ∈ more, part = []) ∧
          (slash = false → more = []) := by
  have whole : (parts.reverse.dropWhile (· = [])).reverse
      ++ (parts.reverse.takeWhile (· = [])).reverse = parts := by
    rw [← List.reverse_append, List.takeWhile_append_dropWhile, List.reverse_reverse]
  have meant := List.head?_dropWhile_not (· = ([] : Bytes)) parts.reverse
  rw [← List.getLast?_reverse] at meant
  have counted := congrArg List.length whole
  rw [List.length_append] at counted
  simp only [splitEnding]
  generalize (parts.reverse.dropWhile (· = [])).reverse = kept at whole meant counted
  cases last : kept.getLast? with
  | none => exact ⟨[], by simp, by simp⟩
  | some name =>
    obtain ⟨front, rfl⟩ := List.getLast?_eq_some_iff.mp last
    have nonempty : name ≠ [] := by simpa using meant
    rw [List.append_assoc] at whole
    simp only [List.dropLast_concat]
    split
    · exact ⟨_, whole.symm, by simp⟩
    · next special =>
      refine ⟨_, whole.symm, fun other slash same => ?_⟩
      obtain ⟨rfl, longer⟩ := Ending.name.inj same
      simp only [Bool.or_eq_true, decide_eq_true_eq, not_or] at special
      refine ⟨⟨by simp [Path.isVoid, nonempty, special.1], special.2⟩,
        (parts.reverse.takeWhile (· = [])).reverse, rfl, fun part member => ?_, fun noSlash => ?_⟩
      · simpa using List.all_eq_true.mp List.all_takeWhile part (List.mem_reverse.mp member)
      · have notLonger := of_decide_eq_false (longer.trans noSlash)
        exact List.length_eq_zero_iff.mp (by omega)

/-- Parts that end with a name and no separator behind it are that name and what stands before. -/
theorem parts_of_splitEnding {parts front : List Bytes}
    (splitting : splitEnding parts = (front, .name name false)) :
    parts = front ++ [name] ∧ Path.IsName name := by
  obtain ⟨rest, whole, names⟩ := exists_splitEnding parts
  rw [splitting] at whole names
  obtain ⟨isName, more, rfl, -, nothing⟩ := names name false rfl
  rw [nothing rfl] at whole
  exact ⟨whole, isName⟩

/-- No directory can be created where a path leads already. -/
theorem makeDirectory_eq (nonempty : path.bytes ≠ [])
    (reaches : files.Reaches linkLimit (files.origin path) path.parts final left) :
    ∃ cause, files.makeDirectory path = .error cause ∧ cause ≠ .notFound := by
  obtain ⟨rest, whole, names⟩ := exists_splitEnding path.parts
  rw [whole] at reaches
  obtain ⟨directory, between, first, second⟩ := reaches.exists_middle
  rw [makeDirectory, locateParent]
  cases limits : checkLimits path with
  | error cause =>
    refine ⟨cause, rfl, ?_⟩
    rintro rfl
    simp only [checkLimits, if_neg nonempty] at limits
    split at limits
    · cases limits
    · split at limits <;> cases limits
  | ok accepted =>
    generalize splitEnding path.parts = split at first names
    obtain ⟨front, ending⟩ := split
    simp only [first.follow_eq, Except.ok_bind]
    by_cases isDirectory : files.hasDirectory directory
    · rw [if_pos isDirectory]
      cases ending with
      | special => exact ⟨.exists, rfl, by decide⟩
      | name name slash =>
        obtain ⟨isName, more, rfl, -⟩ := names name slash rfl
        by_cases long : nameLimit < name.length
        · exact ⟨.nameTooLong, by simp [pure, Except.pure, long], by decide⟩
        · obtain ⟨-, entry, found⟩ := second.exists_entry isName
          exact ⟨.exists, by simp [pure, Except.pure, long, found], by decide⟩
    · rw [if_neg isDirectory]
      exact ⟨.notDirectory, rfl, by decide⟩

/-! ## Named places -/

/-- The parts before the end of a path lead to its directory. -/
theorem exists_of_locateParent {ending : Ending}
    (located : files.locateParent path = .ok (directory, ending)) :
    checkLimits path = .ok () ∧ ∃ front left, splitEnding path.parts = (front, ending) ∧
      files.Reaches linkLimit (files.origin path) front directory left ∧
      files.hasDirectory directory := by
  obtain ⟨accepted, limits, further⟩ := Except.bind_eq_ok_iff.mp located
  generalize splitting : splitEnding path.parts = split at further
  obtain ⟨front, ending⟩ := split
  obtain ⟨target, followed, final⟩ := Except.bind_eq_ok_iff.mp further
  cases target with
  | vacant place => cases final
  | present place =>
    dsimp only at final
    split at final
    · next isDirectory =>
      cases final
      obtain ⟨left, reaches⟩ := exists_reaches_of_follow followed
      exact ⟨limits, front, left, rfl, reaches, isDirectory⟩
    · cases final

/-- A path names a place where its other parts lead to a directory. -/
theorem place?_eq_some_iff :
    files.place? path = some location ↔
      checkLimits path = .ok () ∧ ∃ front name slash directory left,
        splitEnding path.parts = (front, .name name slash) ∧
        files.Reaches linkLimit (files.origin path) front directory left ∧
        files.hasDirectory directory ∧ location = directory ++ [name] := by
  constructor
  · intro named
    rw [place?] at named
    split at named
    · next directory name slash located =>
      obtain ⟨limits, front, left, splitting, reaches, isDirectory⟩ :=
        exists_of_locateParent located
      exact ⟨limits, front, name, slash, directory, left, splitting, reaches, isDirectory,
        (Option.some.inj named).symm⟩
    · cases named
  · rintro ⟨limits, front, name, slash, directory, left, splitting, reaches, isDirectory, rfl⟩
    rw [place?, locateParent, limits, Except.ok_bind, splitting]
    simp only [reaches.follow_eq, Except.ok_bind, isDirectory]
    rfl

/-- The root is no place that a path names. -/
theorem ne_nil_of_place? (named : files.place? path = some location) : location ≠ [] := by
  obtain ⟨-, front, name, slash, directory, left, -, -, -, rfl⟩ := place?_eq_some_iff.mp named
  simp

/-- The place of a path lies in a directory and has the name that the path ends with. -/
theorem getLast?_of_place? (named : files.place? path = some location) :
    path.fileName? = location.getLast? := by
  obtain ⟨-, front, name, slash, directory, left, splitting, -, -, rfl⟩ :=
    place?_eq_some_iff.mp named
  obtain ⟨rest, whole, names⟩ := exists_splitEnding path.parts
  rw [splitting] at whole names
  obtain ⟨isName, more, rfl, empty, -⟩ := names name slash rfl
  rw [Path.fileName?_of_parts whole isName (Path.isVoid_of_eq_nil empty), List.getLast?_concat]

/-- A path that ends with a name can be followed only to an entry at the place it names, unless that
is a link, or to that place if it is free. -/
theorem exists_place_of_resolve {front : List Bytes} {target : Target}
    (parts : path.parts = front ++ [name]) (isName : Path.IsName name)
    (notLink : ∀ location link, files.place? path = some location →
      files.find? location ≠ some (.link link))
    (resolved : files.resolve true path = .ok target) :
    ∃ location, files.place? path = some location ∧
      (target = .present location ∨ target = .vacant location) := by
  obtain ⟨accepted, limits, followed⟩ := Except.bind_eq_ok_iff.mp resolved
  rw [parts] at followed
  obtain ⟨directory, between, reaches, last⟩ :=
    exists_reaches_of_follow_append followed (.inl (by simp))
  by_cases isDirectory : files.hasDirectory directory
  · have named : files.place? path = some (directory ++ [name]) := by
      refine place?_eq_some_iff.mpr ⟨limits, front, name, false, directory, between, ?_, reaches,
        isDirectory, rfl⟩
      rw [parts, splitEnding_concat isName]
    refine ⟨_, named, ?_⟩
    by_cases long : nameLimit < name.length
    · rw [follow_long isDirectory isName long] at last
      cases last
    · rw [follow_name isDirectory isName (Nat.not_lt.mp long)] at last
      split at last
      · rw [if_pos rfl] at last
        exact .inr (Except.ok.inj last).symm
      · next link found => exact absurd found (notLink _ link named)
      · rw [follow] at last
        exact .inl (Except.ok.inj last).symm
  · rw [follow] at last
    simp [isDirectory] at last

/-! ## What a change has done -/

/-- A directory that could be created is new, at the place that its path names. -/
theorem exists_of_makeDirectory {changed : FileSystem}
    (created : files.makeDirectory path = .ok changed) :
    ∃ location, files.place? path = some location ∧ files.find? location = none ∧
      changed = files.insert location (.directory directoryMode) := by
  obtain ⟨⟨directory, ending⟩, located, further⟩ := Except.bind_eq_ok_iff.mp created
  cases ending with
  | special => cases further
  | name name slash =>
    dsimp only at further
    split at further
    · cases further
    · split at further
      · cases further
      · next free =>
        exact ⟨_, by rw [place?, located], by simpa using free, (Except.ok.inj further).symm⟩

/-- A file that could be overwritten has the new contents, where its path leads. -/
theorem exists_of_overwrite {changed : FileSystem} {contents : Bytes}
    (written : files.overwrite path contents = .ok changed) :
    ∃ target mode, files.resolve true path = .ok target ∧
      changed = files.insert target.location (.file contents mode) := by
  obtain ⟨target, resolved, further⟩ := Except.bind_eq_ok_iff.mp written
  refine ⟨target, ?_⟩
  cases target with
  | vacant location => exact ⟨fileMode, resolved, (Except.ok.inj further).symm⟩
  | present location =>
    dsimp only at further
    split at further
    · next mode found => exact ⟨mode, resolved, (Except.ok.inj further).symm⟩
    · cases further

/-- A mode that could be changed is that of a file or of a directory, which stays the same
otherwise. -/
theorem exists_of_changeMode {changed : FileSystem} {mode : Nat}
    (done : files.changeMode path mode = .ok changed) :
    ∃ location, files.resolve true path = .ok (.present location) ∧
      ((∃ contents old, files.find? location = some (.file contents old) ∧
          changed = files.insert location (.file contents mode)) ∨
        ∃ old, files.find? location = some (.directory old) ∧
          changed = files.insert location (.directory mode)) := by
  obtain ⟨location, located, further⟩ := Except.bind_eq_ok_iff.mp done
  obtain ⟨target, resolved, present⟩ := Except.bind_eq_ok_iff.mp located
  cases target with
  | vacant place => cases present
  | present place =>
    cases present
    refine ⟨_, resolved, ?_⟩
    split at further
    · next contents old found => exact .inl ⟨contents, old, found, (Except.ok.inj further).symm⟩
    · next old found => exact .inr ⟨old, found, (Except.ok.inj further).symm⟩
    · cases further

/-- An entry that could be renamed stands at the new place and no longer at the old one. -/
theorem exists_of_rename {changed : FileSystem} {source : Path}
    (moved : files.rename source path = .ok changed) :
    ∃ place location entry, files.place? source = some place ∧ files.place? path = some location ∧
      files.find? place = some entry ∧ changed = (files.erase place).insert location entry := by
  obtain ⟨⟨directory, ending⟩, located, further⟩ := Except.bind_eq_ok_iff.mp moved
  obtain ⟨⟨targetDirectory, targetEnding⟩, targetLocated, last⟩ := Except.bind_eq_ok_iff.mp further
  dsimp only at last
  split at last
  · split at last
    · cases last
    · split at last
      · cases last
      · next entry found =>
        split at last
        · cases last
        · split at last
          · cases last
          · exact ⟨_, _, entry, by rw [place?, located], by rw [place?, targetLocated], found,
              (Except.ok.inj last).symm⟩
  · cases last

/-- An entry that could be removed no longer stands at the place that its path names. -/
theorem exists_of_remove {changed : FileSystem} (removed : files.remove path = .ok changed) :
    ∃ location, files.place? path = some location ∧ changed = files.erase location := by
  obtain ⟨⟨directory, ending⟩, located, further⟩ := Except.bind_eq_ok_iff.mp removed
  cases ending with
  | special => cases further
  | name name slash =>
    dsimp only at further
    split at further
    · cases further
    · cases further
    · exact ⟨_, by rw [place?, located], (Except.ok.inj further).symm⟩

/-! ## Changes elsewhere -/

/-- A new entry at a free place leaves alone where paths lead. -/
theorem Leads.insert_free (leads : files.Leads path final left) {location : Location}
    (free : files.find? location = none) (entry : Entry) :
    (files.insert location entry).Leads path final left :=
  ⟨leads.limits, leads.reaches.insert_free free entry⟩

/-- A new entry at a free place leaves alone what paths name. -/
theorem Names.insert_free (names : files.Names path directory name left) {location : Location}
    (free : files.find? location = none) (entry : Entry) :
    (files.insert location entry).Names path directory name left := by
  obtain ⟨front, parts, reaches⟩ := names.reaches
  exact ⟨names.limits, names.isName, ⟨front, parts, reaches.insert_free free entry⟩,
    hasDirectory_insert (hasDirectory_of_free free) entry names.isDirectory⟩

/-- A path names the same place after another entry has changed that did not lead to a
directory. -/
theorem Names.insert_leaf {before after : Nat} {leaf : Bytes} {start stop : Location}
    (names : files.Names path directory name left)
    (reaches : files.Reaches before start [leaf] stop after)
    (noDirectory : files.hasDirectory stop = false) (isName : Path.IsName leaf) (entry : Entry) :
    (files.insert (start ++ [leaf]) entry).Names path directory name left := by
  have noDirectoryThere := reaches.noDirectory_at_name isName noDirectory
  obtain ⟨front, parts, frontReaches⟩ := names.reaches
  exact ⟨names.limits, names.isName,
    ⟨front, parts, reaches.insert_leaf noDirectory isName entry frontReaches names.isDirectory⟩,
    hasDirectory_insert noDirectoryThere entry names.isDirectory⟩

/-- A path is free if nothing stands under its name in its directory. -/
theorem Names.isFree_iff (names : files.Names path directory name left) :
    files.IsFree path ↔ files.find? (directory ++ [name]) = none := by
  constructor
  · intro free
    exact free _ names.place?_eq
  · intro nothing location named
    rw [names.place?_eq] at named
    obtain rfl := Option.some.inj named
    exact nothing

/-- An entry in place of one that does not lead to a directory changes nothing else. -/
theorem Names.replaces_insert {after : Nat} (names : files.Names path directory name left)
    (reaches : files.Reaches left directory [name] final after)
    (noDirectory : files.hasDirectory final = false) (entry : Entry) :
    files.Replaces (files.insert (directory ++ [name]) entry) path (directory ++ [name]) entry where
  named := names.place?_eq
  stillNamed := (names.insert_leaf reaches noDirectory names.isName entry).place?_eq
  now := find?_insert_self (by simp)
  others := fun _ different => find?_insert_of_ne different
  sameStart := rfl

end Places

end FileSystem

end ElmWorkbench
