import ElmWorkbench.Proofs.FileSystem.Growth
import ElmWorkbench.Proofs.FileSystem.Shape
/-!
# Files that are written and moved

A path leads to what has just been written to it (`stat_of_overwrite`). When what a path names is
moved within its directory, nothing but the file that the path led to is found at the new path
(`Moves.eq_of_stat`), and it is found there unless a link stood at one of the two places
(`Moves.stat_eq`).
-/

namespace ElmWorkbench.FileSystem

section Writing

variable {files changed : FileSystem} {path : Path} {location final : Location} {left mode : Nat}
  {contents : Bytes}

/-- What ways can go by in a file system, and in the next one, stands in the last one. -/
theorem Passes.trans {middle later : FileSystem} (first : files.Passes middle)
    (second : middle.Passes later) : files.Passes later where
  start := second.start.trans first.start
  kept found noFile := second.kept (first.kept found noFile) noFile

/-- A file that is put somewhere adds neither a directory nor a link. -/
theorem passes_insert_file (proper : location ≠ []) (contents : Bytes) (mode : Nat) :
    (files.insert location (.file contents mode)).Passes files where
  start := rfl
  kept {other entry} found noFile := by
    rw [find?_insert proper] at found
    split at found
    · exact absurd (Option.some.inj found).symm (noFile contents mode)
    · exact found

/-- A path that leads to a file leads to what is written over it. -/
theorem stat_insert_file {old : Bytes} {oldMode : Nat} (leads : files.Leads path final left)
    (found : files.find? final = some (.file old oldMode)) (contents : Bytes) (mode : Nat) :
    (files.insert final (.file contents mode)).stat path = .ok (.file contents mode) ∧
      (files.insert final (.file contents mode)).Passes files := by
  have proper : final ≠ [] := ne_nil_of_find? found (by simp)
  refine ⟨?_, passes_insert_file proper contents mode⟩
  have now : (files.insert final (.file contents mode)).find? final = some (.file contents mode) :=
    find?_insert_self proper
  have same : files.SameShape (files.insert final (.file contents mode)) :=
    sameShape_of_file rfl found now fun _ => find?_insert_of_ne
  rw [stat, same.locate_eq, leads.locate_eq, Except.ok_bind, now]
  rfl

/-- What has been written to a path is found there. -/
theorem stat_of_overwrite (written : files.overwrite path contents = .ok changed) :
    ∃ mode, changed.stat path = .ok (.file contents mode) ∧ changed.Passes files := by
  obtain ⟨target, resolved, further⟩ := Except.bind_eq_ok_iff.mp written
  cases target with
  | present location =>
    obtain ⟨left, leads⟩ := exists_leads (Except.bind_eq_ok_iff.mpr ⟨_, resolved, rfl⟩)
    dsimp only at further
    split at further
    · next old mode found =>
      obtain rfl := Except.ok.inj further
      exact ⟨mode, stat_insert_file leads found contents mode⟩
    · cases further
  | vacant location =>
    obtain rfl := Except.ok.inj further
    obtain ⟨accepted, limits, followed⟩ := Except.bind_eq_ok_iff.mp resolved
    obtain ⟨free, left, reaches⟩ :=
      reaches_of_vacant (.file contents fileMode) (by simp) followed
    have proper : location ≠ [] := ne_nil_of_find? free (by simp)
    have leads : (files.insert location (.file contents fileMode)).Leads path location left :=
      ⟨limits, reaches⟩
    exact ⟨fileMode, leads.stat_eq (find?_insert_self proper), passes_insert_file proper _ _⟩

/-- A file that gets another mode keeps its contents. -/
theorem stat_of_changeMode {old : Nat} (looked : files.stat path = .ok (.file contents old))
    (done : files.changeMode path mode = .ok changed) :
    changed.stat path = .ok (.file contents mode) ∧ changed.Passes files := by
  obtain ⟨final, left, leads, found⟩ := exists_leads_of_stat looked
  rw [leads.changeMode_eq found] at done
  obtain rfl := Except.ok.inj done
  exact stat_insert_file leads found contents mode

end Writing

/-! ## Within a directory -/

/-- An entry is moved to another place in its directory, where no directory stands. -/
structure Moves (files after : FileSystem) (directory : Location) (source name : Bytes)
    (entry : Entry) : Prop where
  found : files.find? (directory ++ [source]) = some entry
  noDirectory : files.hasDirectory (directory ++ [name]) = false
  moved : after = (files.erase (directory ++ [source])).insert (directory ++ [name]) entry

section Moving

variable {files after : FileSystem} {source path : Path} {directory location : Location}
  {sourceName name : Bytes} {sourceLeft left : Nat} {entry : Entry}

/-- A file can only be moved to a path that ends with a name. -/
theorem exists_names_of_rename (moved : files.rename source path = .ok after) :
    ∃ directory name left, files.Names path directory name left := by
  obtain ⟨⟨sourceParent, sourceEnding⟩, -, further⟩ := Except.bind_eq_ok_iff.mp moved
  obtain ⟨⟨directory, ending⟩, located, last⟩ := Except.bind_eq_ok_iff.mp further
  obtain ⟨limits, front, left, splitting, reaches, isDirectory⟩ := exists_of_locateParent located
  dsimp only at last
  split at last
  · next sourceName sourceSlash name slash =>
    have noSlash : slash = false := by
      rw [← Bool.not_eq_true]
      rintro rfl
      split at last
      · cases last
      · split at last <;> cases last
    rw [noSlash] at splitting
    obtain ⟨parts, isName⟩ := parts_of_splitEnding splitting
    exact ⟨directory, name, left, limits, isName, ⟨front, parts, reaches⟩, isDirectory⟩
  · cases last

/-- What moving an entry to a path does. -/
theorem Names.moves (sourceNames : files.Names source directory sourceName sourceLeft)
    (names : files.Names path directory name left) (moved : files.rename source path = .ok after) :
    name.length ≤ nameLimit ∧ ∃ entry, files.Moves after directory sourceName name entry := by
  rw [rename, sourceNames.locateParent_eq, names.locateParent_eq] at moved
  simp only [Except.ok_bind] at moved
  split at moved
  · cases moved
  · next short =>
    split at moved
    · cases moved
    · next entry found =>
      rw [if_neg (by simp)] at moved
      split at moved
      · cases moved
      · next noDirectory =>
        exact ⟨Nat.not_lt.mp short, entry, found, by simpa using noDirectory,
          (Except.ok.inj moved).symm⟩

/-- A name that does not stand for a link leads to its own place. -/
theorem Reaches.eq_of_name {links : Nat} {current final : Location}
    (reaches : files.Reaches links current [name] final left) (isName : Path.IsName name)
    (found : files.find? (current ++ [name]) = some entry)
    (notLink : ∀ target, entry ≠ .link target) :
    final = current ++ [name] :=
  reaches.final_unique (.enter reaches.hasDirectory isName (reaches.exists_entry isName).1 found
    notLink .done : files.Reaches links current [name] _ links)

/-- A name that stands for a link leads where its target does. -/
theorem Reaches.exists_of_link {links : Nat} {current final : Location} {target : Path}
    (reaches : files.Reaches links current [name] final left) (isName : Path.IsName name)
    (found : files.find? (current ++ [name]) = some (.link target)) :
    ∃ fewer, files.Reaches fewer (if target.isAbsolute then [] else current) target.parts final
      left := by
  cases reaches with
  | stay directory void further => simp [isName.notVoid] at void
  | leave directory further => exact absurd rfl isName.notUp
  | enter directory isName short standing notLink further =>
    rw [found] at standing
    exact absurd (Option.some.inj standing).symm (notLink target)
  | jump directory isName short standing further =>
    rw [found] at standing
    obtain rfl := Entry.link.inj (Option.some.inj standing)
    rw [List.append_nil] at further
    exact ⟨_, further⟩

namespace Moves

/-- The entry stands at the place it was moved to. -/
theorem find?_here (moves : files.Moves after directory sourceName name entry) :
    after.find? (directory ++ [name]) = some entry := by
  rw [moves.moved, find?_insert_self (List.concat_ne_nil _ _)]

/-- What stands anywhere else stood there before. -/
theorem find?_before {standing : Entry} (moves : files.Moves after directory sourceName name entry)
    (found : after.find? location = some standing) (elsewhere : location ≠ directory ++ [name]) :
    files.find? location = some standing := by
  rw [moves.moved, find?_insert_of_ne elsewhere, find?_erase (List.concat_ne_nil _ _)] at found
  split at found
  · cases found
  · exact found

/-- Away from both places, an entry stays where it was. -/
theorem find?_after {standing : Entry} (moves : files.Moves after directory sourceName name entry)
    (found : files.find? location = some standing) (elsewhere : location ≠ directory ++ [name])
    (different : location ≠ directory ++ [sourceName]) : after.find? location = some standing := by
  rwa [moves.moved, find?_insert_of_ne elsewhere, find?_erase_of_ne different]

/-- Paths start at the same location after the move. -/
theorem origin_eq (moves : files.Moves after directory sourceName name entry) (path : Path) :
    after.origin path = files.origin path := by
  rw [moves.moved]
  rfl

/-- What is found at a path to which an entry has been moved is found by way of that entry, if the
path leads to no other directory now. -/
theorem exists_way {standing : Entry} (moves : files.Moves after directory sourceName name entry)
    (names : files.Names path directory name left) (looked : after.stat path = .ok standing)
    (kept : ∀ {front reached rest}, after.Reaches linkLimit (files.origin path) front reached rest →
      after.hasDirectory reached →
        files.Reaches linkLimit (files.origin path) front reached rest) :
    ∃ between final rest, after.Reaches between directory [name] final rest ∧
      after.find? final = some standing := by
  obtain ⟨final, rest, leads, found⟩ := exists_leads_of_stat looked
  obtain ⟨front, parts, upper⟩ := names.reaches
  have reaches := leads.reaches
  rw [moves.origin_eq, parts] at reaches
  obtain ⟨reached, between, first, second⟩ := reaches.exists_middle
  obtain rfl := (kept first second.hasDirectory).final_unique upper
  exact ⟨between, final, rest, second, found⟩

/-! ### Files -/

section File

variable {contents : Bytes} {mode : Nat}
  (moves : files.Moves after directory sourceName name (.file contents mode))

include moves

/-- All that ways can go by after a file was moved stood there before. -/
theorem passes : after.Passes files where
  start := by
    rw [moves.moved]
    rfl
  kept {other standing} found noFile := by
    by_cases here : other = directory ++ [name]
    · rw [here, moves.find?_here] at found
      exact absurd (Option.some.inj found).symm (noFile contents mode)
    · exact moves.find?_before found here

/-- What a path leads to at the new place is the file that was moved there. -/
theorem eq_of_file {standing : Entry} (names : files.Names path directory name left)
    (looked : after.stat path = .ok standing) : standing = .file contents mode := by
  obtain ⟨between, final, rest, reaches, found⟩ :=
    moves.exists_way names looked fun reaches => moves.passes.reaches reaches
  obtain rfl := reaches.eq_of_name names.isName moves.find?_here (by simp)
  rw [moves.find?_here] at found
  exact (Option.some.inj found).symm

/-- A file that takes the place of another one, or of nothing, is found at its path. -/
theorem stat_of_noLink (names : files.Names path directory name left)
    (short : name.length ≤ nameLimit)
    (noLink : ∀ target, files.find? (directory ++ [name]) ≠ some (.link target)) :
    after.stat path = .ok (.file contents mode) := by
  have passes : files.Passes after := by
    refine ⟨by rw [moves.moved]; rfl, fun {other standing} found noFile => ?_⟩
    refine moves.find?_after found ?_ ?_
    · rintro rfl
      cases standing with
      | file contents mode => exact absurd rfl (noFile contents mode)
      | directory mode => simpa [hasDirectory, found] using moves.noDirectory
      | link target => exact absurd found (noLink target)
    · rintro rfl
      rw [moves.found] at found
      exact absurd (Option.some.inj found).symm (noFile contents mode)
  obtain ⟨front, parts, upper⟩ := names.reaches
  have isDirectory := passes.hasDirectory names.isDirectory
  have namesNow : after.Names path directory name left :=
    ⟨names.limits, names.isName, ⟨front, parts, by
      rw [moves.origin_eq]
      exact passes.reaches upper names.isDirectory⟩, isDirectory⟩
  exact (namesNow.leads short moves.find?_here (by simp)).stat_eq moves.find?_here

end File

/-! ### Links -/

section Link

variable {target : Path} {links : Nat} {current final goal : Location} {parts : List Bytes}
  {contents : Bytes} {mode goalLinks goalLeft : Nat}
  (moves : files.Moves after directory sourceName name (.link target))

include moves

/-- A way leads on as it did before, or it comes by the link that was moved. -/
theorem exists_detour (reaches : after.Reaches links current parts final left) :
    files.Reaches links current parts final left ∨
      ∃ fewer rest, fewer < links ∧
        after.Reaches fewer (if target.isAbsolute then [] else directory) (target.parts ++ rest)
          final left := by
  have before {location : Location} (isDirectory : after.hasDirectory location) :
      files.hasDirectory location := by
    obtain ⟨mode, found⟩ := find?_of_hasDirectory isDirectory
    rw [FileSystem.hasDirectory, moves.find?_before found]
    rintro rfl
    rw [moves.find?_here] at found
    cases found
  induction reaches with
  | done => exact .inl .done
  | stay isDirectory void further inductionHypothesis =>
    exact inductionHypothesis.imp_left (.stay (before isDirectory) void)
  | leave isDirectory further inductionHypothesis =>
    exact inductionHypothesis.imp_left (.leave (before isDirectory))
  | enter isDirectory isName short found notLink further inductionHypothesis =>
    refine inductionHypothesis.imp_left
      (.enter (before isDirectory) isName short (moves.find?_before found ?_) notLink)
    intro here
    rw [here, moves.find?_here] at found
    exact notLink target (Option.some.inj found).symm
  | @jump links left current final part rest link isDirectory isName short found further
      inductionHypothesis =>
    by_cases here : current ++ [part] = directory ++ [name]
    · obtain ⟨rfl, -⟩ := List.append_inj' here rfl
      rw [here, moves.find?_here] at found
      obtain rfl := Entry.link.inj (Option.some.inj found)
      exact .inr ⟨links, rest, Nat.lt_succ_self links, further⟩
    · rcases inductionHypothesis with kept | ⟨fewer, others, less, again⟩
      · exact .inl (.jump (before isDirectory) isName short (moves.find?_before found here) kept)
      · exact .inr ⟨fewer, others, Nat.lt_succ_of_lt less, again⟩

/-- Nothing at the link or below it is reached from elsewhere. -/
theorem stays_outside (reaches : after.Reaches links current parts final left)
    (outside : ¬ directory ++ [name] <+: current) : ¬ directory ++ [name] <+: final := by
  induction reaches with
  | done => exact outside
  | stay isDirectory void further inductionHypothesis => exact inductionHypothesis outside
  | leave isDirectory further inductionHypothesis =>
    exact inductionHypothesis fun below => outside (below.trans (List.dropLast_prefix _))
  | enter isDirectory isName short found notLink further inductionHypothesis =>
    refine inductionHypothesis fun below => ?_
    rcases List.prefix_concat_iff.mp below with here | above
    · rw [← here, moves.find?_here] at found
      exact notLink target (Option.some.inj found).symm
    · exact outside above
  | jump isDirectory isName short found further inductionHypothesis =>
    refine inductionHypothesis ?_
    split
    · exact fun below => List.concat_ne_nil _ _ (List.prefix_nil.mp below)
    · exact outside

variable
  (leads : files.Reaches goalLinks (if target.isAbsolute then [] else directory) target.parts goal
    goalLeft)
  (isFile : files.find? goal = some (.file contents mode))

include isFile

/-- The file that the link leads to stays where it was. -/
theorem find?_goal (elsewhere : goal ≠ directory ++ [name]) :
    after.find? goal = some (.file contents mode) := by
  refine moves.find?_after isFile elsewhere ?_
  rintro rfl
  rw [moves.found] at isFile
  cases isFile

/-- No parts lead on from a regular file. -/
theorem eq_nil_of_goal (elsewhere : goal ≠ directory ++ [name])
    (reaches : after.Reaches links goal parts final left) : parts = [] := by
  cases parts with
  | nil => rfl
  | cons part rest =>
    have isDirectory := reaches.hasDirectory
    rw [hasDirectory, moves.find?_goal isFile elsewhere] at isDirectory
    cases isDirectory

include leads

/-- The target of the link leads to the same file, if it leads anywhere. -/
theorem eq_of_target
    (reaches : after.Reaches links (if target.isAbsolute then [] else directory) target.parts final
      left) : final = goal ∧ goal ≠ directory ++ [name] := by
  -- A way that comes by the link again could follow fewer links from there.
  induction links using Nat.strongRecOn generalizing final left with
  | ind links inductionHypothesis =>
    rcases moves.exists_detour reaches with kept | ⟨fewer, rest, less, again⟩
    · obtain rfl := kept.final_unique leads
      refine ⟨rfl, ?_⟩
      rintro rfl
      refine moves.stays_outside reaches ?_ List.prefix_rfl
      split
      · exact fun below => List.concat_ne_nil _ _ (List.prefix_nil.mp below)
      · intro below
        have short := below.length_le
        rw [List.length_append, List.length_singleton] at short
        omega
    · obtain ⟨middle, between, first, second⟩ := again.exists_middle
      obtain ⟨rfl, elsewhere⟩ := inductionHypothesis fewer less first
      obtain rfl := moves.eq_nil_of_goal isFile elsewhere second
      cases second
      exact ⟨rfl, elsewhere⟩

/-- What a path leads to through the moved link is the file that it leads to. -/
theorem eq_of_link {standing : Entry} (names : files.Names path directory name left)
    (looked : after.stat path = .ok standing) : standing = .file contents mode := by
  have kept {front : List Bytes} {reached : Location} {rest : Nat}
      (reaches : after.Reaches linkLimit (files.origin path) front reached rest)
      (isDirectory : after.hasDirectory reached) :
      files.Reaches linkLimit (files.origin path) front reached rest := by
    rcases moves.exists_detour reaches with kept | ⟨fewer, others, -, again⟩
    · exact kept
    · obtain ⟨middle, between, first, second⟩ := again.exists_middle
      obtain ⟨rfl, elsewhere⟩ := moves.eq_of_target leads isFile first
      obtain rfl := moves.eq_nil_of_goal isFile elsewhere second
      cases second
      rw [FileSystem.hasDirectory, moves.find?_goal isFile elsewhere] at isDirectory
      cases isDirectory
  obtain ⟨between, final, rest, reaches, found⟩ := moves.exists_way names looked kept
  obtain ⟨fewer, further⟩ := reaches.exists_of_link names.isName moves.find?_here
  obtain ⟨rfl, elsewhere⟩ := moves.eq_of_target leads isFile further
  rw [moves.find?_goal isFile elsewhere] at found
  exact (Option.some.inj found).symm

end Link

/-! ### What a path led to -/

section Standing

variable {contents : Bytes} {mode : Nat}
  (moves : files.Moves after directory sourceName name entry)
  (sourceNames : files.Names source directory sourceName sourceLeft)
  (names : files.Names path directory name left)
  (stands : files.stat source = .ok (.file contents mode))

include moves sourceNames stands

/-- A path that leads to a file names that file or a link to it. -/
theorem file_or_link :
    entry = .file contents mode ∨
      ∃ target links goal rest, entry = .link target ∧
        files.Reaches links (if target.isAbsolute then [] else directory) target.parts goal rest ∧
        files.find? goal = some (.file contents mode) := by
  obtain ⟨goal, rest, leads, found⟩ := exists_leads_of_stat stands
  obtain ⟨front, parts, upper⟩ := sourceNames.reaches
  have reaches := leads.reaches
  rw [parts] at reaches
  obtain ⟨reached, between, first, last⟩ := reaches.exists_middle
  obtain rfl := first.final_unique upper
  by_cases isLink : ∃ target, entry = .link target
  · obtain ⟨target, rfl⟩ := isLink
    obtain ⟨fewer, further⟩ := last.exists_of_link sourceNames.isName moves.found
    exact .inr ⟨target, fewer, goal, rest, rfl, further, found⟩
  · obtain rfl := last.eq_of_name sourceNames.isName moves.found fun target same =>
      isLink ⟨target, same⟩
    rw [moves.found] at found
    exact .inl (Option.some.inj found)

include names

/-- When a path that leads to a file is renamed within its directory, nothing but that file is found
at the new path. -/
theorem eq_of_stat {standing : Entry} (looked : after.stat path = .ok standing) :
    standing = .file contents mode := by
  rcases moves.file_or_link sourceNames stands with
    rfl | ⟨target, links, goal, rest, rfl, leads, found⟩
  · exact moves.eq_of_file names looked
  · exact moves.eq_of_link leads found names looked

/-- The file is found there if no link stood at either place. -/
theorem stat_eq (short : name.length ≤ nameLimit)
    (sourceNoLink : ∀ target, files.find? (directory ++ [sourceName]) ≠ some (.link target))
    (noLink : ∀ target, files.find? (directory ++ [name]) ≠ some (.link target)) :
    after.stat path = .ok (.file contents mode) := by
  rcases moves.file_or_link sourceNames stands with rfl | ⟨target, -, -, -, rfl, -, -⟩
  · exact moves.stat_of_noLink names short noLink
  · exact absurd moves.found (sourceNoLink target)

end Standing

end Moves

end Moving

end ElmWorkbench.FileSystem
