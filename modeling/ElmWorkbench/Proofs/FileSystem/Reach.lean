import ElmWorkbench.FileSystem.Access
import ElmWorkbench.Proofs.FileSystem.Entry
import ElmWorkbench.Proofs.Path
/-!
# Where paths lead

`Reaches` is the relation that following parts decides. It composes along appended parts
(`Reaches.append`, `Reaches.exists_middle`) and does not depend on how many more links could be
followed (`Reaches.moreLinks`), so what lies behind a location can be told apart from how
it was reached. A change of the entries keeps where parts lead if it keeps the entries on
the way (`Reaches.ofEntriesKept`).
-/

namespace ElmWorkbench.FileSystem

/-- Parts lead from a location to another one if every link on the way is followed. The
two numbers say how many links may be followed before and after. -/
inductive Reaches (files : FileSystem) : Nat → Location → List Bytes → Location → Nat → Prop where
  | done {links : Nat} {current : Location} : Reaches files links current [] current links
  | stay {links left : Nat} {current final : Location} {part : Bytes} {rest : List Bytes}
      (directory : files.hasDirectory current) (void : Path.isVoid part)
      (further : Reaches files links current rest final left) :
      Reaches files links current (part :: rest) final left
  | leave {links left : Nat} {current final : Location} {rest : List Bytes}
      (directory : files.hasDirectory current)
      (further : Reaches files links current.dropLast rest final left) :
      Reaches files links current (Path.dotDot :: rest) final left
  | enter {links left : Nat} {current final : Location} {part : Bytes} {rest : List Bytes}
      {entry : Entry} (directory : files.hasDirectory current) (isName : Path.IsName part)
      (short : part.length ≤ nameLimit) (found : files.find? (current ++ [part]) = some entry)
      (notLink : ∀ target, entry ≠ .link target)
      (further : Reaches files links (current ++ [part]) rest final left) :
      Reaches files links current (part :: rest) final left
  | jump {links left : Nat} {current final : Location} {part : Bytes} {rest : List Bytes}
      {target : Path} (directory : files.hasDirectory current) (isName : Path.IsName part)
      (short : part.length ≤ nameLimit)
      (found : files.find? (current ++ [part]) = some (.link target))
      (further : Reaches files links (if target.isAbsolute then [] else current)
        (target.parts ++ rest) final left) :
      Reaches files (links + 1) current (part :: rest) final left

section Following

variable {files : FileSystem} {followLast : Bool} {links left : Nat} {current final : Location}
  {part : Bytes} {parts rest : List Bytes}

/-! ## One part -/

/-- A part that stands for nothing is passed over. -/
theorem follow_stay (directory : files.hasDirectory current) (void : Path.isVoid part) :
    files.follow followLast links current (part :: rest) =
      files.follow followLast links current rest := by
  rw [follow, directory, void]
  rfl

/-- The part `..` leads to the directory around. -/
theorem follow_leave (directory : files.hasDirectory current) :
    files.follow followLast links current (Path.dotDot :: rest) =
      files.follow followLast links current.dropLast rest := by
  rw [follow, directory]
  rfl

/-- A name is looked up in the directory that has been reached. -/
theorem follow_name (directory : files.hasDirectory current) (isName : Path.IsName part)
    (short : part.length ≤ nameLimit) :
    files.follow followLast links current (part :: rest) =
      match files.find? (current ++ [part]) with
      | none => if rest = [] then .ok (.vacant (current ++ [part])) else .error .notFound
      | some (.link target) =>
        if rest = [] && !followLast then .ok (.present (current ++ [part]))
        else match links with
          | 0 => .error .tooManyLinks
          | fewer + 1 =>
            files.follow followLast fewer (if target.isAbsolute then [] else current)
              (target.parts ++ rest)
      | some _ => files.follow followLast links (current ++ [part]) rest := by
  rewrite [follow, directory, isName.notVoid, if_neg (by simp), if_neg (by simp),
    if_neg isName.notUp, if_neg (Nat.not_lt.mpr short)]
  rfl

/-- A name that is too long leads nowhere. -/
theorem follow_long (directory : files.hasDirectory current) (isName : Path.IsName part)
    (long : nameLimit < part.length) :
    files.follow followLast links current (part :: rest) = .error .nameTooLong := by
  rw [follow, directory, isName.notVoid, if_neg (by simp), if_neg (by simp), if_neg isName.notUp,
    if_pos long]

/-- A name of an entry that is no link leads to it. -/
theorem follow_enter {entry : Entry} (directory : files.hasDirectory current)
    (isName : Path.IsName part) (short : part.length ≤ nameLimit)
    (found : files.find? (current ++ [part]) = some entry)
    (notLink : ∀ target, entry ≠ .link target) :
    files.follow followLast links current (part :: rest) =
      files.follow followLast links (current ++ [part]) rest := by
  rw [follow_name directory isName short, found]
  cases entry with
  | link target => exact absurd rfl (notLink target)
  | directory mode => rfl
  | file contents mode => rfl

/-- A name of a link leads on by the parts of its target. -/
theorem follow_jump {target : Path} (directory : files.hasDirectory current)
    (isName : Path.IsName part) (short : part.length ≤ nameLimit)
    (found : files.find? (current ++ [part]) = some (.link target))
    (continued : followLast = true ∨ rest ≠ []) :
    files.follow followLast (links + 1) current (part :: rest) =
      files.follow followLast links (if target.isAbsolute then [] else current)
        (target.parts ++ rest) := by
  have followed : (rest = [] && !followLast) = false := by
    rcases continued with always | more
    · simp [always]
    · simp [more]
  rw [follow_name directory isName short, found]
  simp [followed]

/-! ## All parts -/

/-- Parts that lead somewhere can be followed first, and what follows them from there. -/
theorem Reaches.follow_append (reaches : files.Reaches links current parts final left)
    (continued : followLast = true ∨ rest ≠ []) :
    files.follow followLast links current (parts ++ rest) =
      files.follow followLast left final rest := by
  have more (front : List Bytes) : followLast = true ∨ front ++ rest ≠ [] :=
    continued.imp_right fun nonempty => List.append_ne_nil_of_right_ne_nil _ nonempty
  induction reaches with
  | done => rfl
  | stay directory void further inductionHypothesis =>
    rw [List.cons_append, follow_stay directory void, inductionHypothesis]
  | leave directory further inductionHypothesis =>
    rw [List.cons_append, follow_leave directory, inductionHypothesis]
  | enter directory isName short found notLink further inductionHypothesis =>
    rw [List.cons_append, follow_enter directory isName short found notLink, inductionHypothesis]
  | jump directory isName short found further inductionHypothesis =>
    rw [List.cons_append, follow_jump directory isName short found (more _), ← List.append_assoc,
      inductionHypothesis]

/-- Parts that reach a location are followed to it. -/
theorem Reaches.follow_eq (reaches : files.Reaches links current parts final left) :
    files.follow true links current parts = .ok (.present final) := by
  rw [← List.append_nil parts, reaches.follow_append (.inl rfl), follow]

/-- Where parts lead from a location, if no link is on the way. -/
def through? (files : FileSystem) (current : Location) : List Bytes → Option Location
  | [] => some current
  | part :: rest =>
    if !files.hasDirectory current then none
    else if Path.isVoid part then files.through? current rest
    else if part = Path.dotDot then files.through? current.dropLast rest
    else if nameLimit < part.length then none
    else match files.find? (current ++ [part]) with
      | none => none
      | some (.link _) => none
      | some _ => files.through? (current ++ [part]) rest

/-- Parts that lead to a location without links reach it. -/
theorem reaches_of_through? (through : files.through? current parts = some final) (links : Nat) :
    files.Reaches links current parts final links := by
  induction parts generalizing current with
  | nil =>
    cases through
    exact .done
  | cons part rest inductionHypothesis =>
    rw [through?] at through
    split at through
    · cases through
    · next isDirectory =>
      have directory : files.hasDirectory current := by simpa using isDirectory
      split at through
      · next void => exact .stay directory void (inductionHypothesis through)
      · next notVoid =>
        split at through
        · next up =>
          rw [up]
          exact .leave directory (inductionHypothesis through)
        · next notUp =>
          split at through
          · cases through
          · next short =>
            split at through
            · cases through
            · cases through
            · next entry notLink found =>
              exact .enter directory ⟨by simpa using notVoid, notUp⟩ (Nat.not_lt.mp short) found
                notLink (inductionHypothesis through)

/-- Where a part can be followed with others behind it, it has a step of the relation and the others
are followed from there, unless it is the last one and no entry has its name. -/
theorem exists_step_of_follow {target : Target}
    (followed : files.follow true links current (part :: rest) = .ok target) :
    files.hasDirectory current ∧
      (Path.isVoid part ∧ files.follow true links current rest = .ok target ∨
        part = Path.dotDot ∧ files.follow true links current.dropLast rest = .ok target ∨
        Path.IsName part ∧ part.length ≤ nameLimit ∧
          (rest = [] ∧ target = .vacant (current ++ [part]) ∨
            (∃ entry, files.find? (current ++ [part]) = some entry ∧
              (∀ target, entry ≠ .link target) ∧
              files.follow true links (current ++ [part]) rest = .ok target) ∨
            ∃ goal fewer, files.find? (current ++ [part]) = some (.link goal) ∧
              links = fewer + 1 ∧
              files.follow true fewer (if goal.isAbsolute then [] else current)
                (goal.parts ++ rest) = .ok target)) := by
  rw [follow] at followed
  split at followed
  · cases followed
  next isDirectory =>
  refine ⟨by simpa using isDirectory, ?_⟩
  split at followed
  · next void => exact .inl ⟨void, followed⟩
  next notVoid =>
  split at followed
  · next up => exact .inr (.inl ⟨up, followed⟩)
  next notUp =>
  split at followed
  · cases followed
  next short =>
  refine .inr (.inr ⟨⟨by simpa using notVoid, notUp⟩, Nat.not_lt.mp short, ?_⟩)
  split at followed
  · split at followed
    · next isLast =>
      cases followed
      exact .inl ⟨isLast, rfl⟩
    · cases followed
  · next goal found =>
    rw [if_neg (by simp)] at followed
    split at followed
    · cases followed
    · next fewer => exact .inr (.inr ⟨goal, fewer, found, rfl, followed⟩)
  · next entry notLink found => exact .inr (.inl ⟨entry, found, notLink, followed⟩)

/-- Where parts can be followed, those in front lead to a location, and the others are followed from
there. A link puts the parts of its target in front, with fewer links to follow. -/
theorem exists_reaches_of_follow_append {links : Nat} {current : Location}
    {front rest : List Bytes} {target : Target}
    (followed : files.follow true links current (front ++ rest) = .ok target)
    (continued : rest ≠ [] ∨ ∃ final, target = .present final) :
    ∃ middle between, files.Reaches links current front middle between ∧
      files.follow true between middle rest = .ok target := by
  cases front with
  | nil => exact ⟨_, _, .done, followed⟩
  | cons part front =>
    rw [List.cons_append] at followed
    obtain ⟨directory, ⟨void, others⟩ | ⟨rfl, others⟩ | ⟨isName, short, step⟩⟩ :=
      exists_step_of_follow followed
    · obtain ⟨middle, between, further, last⟩ := exists_reaches_of_follow_append others continued
      exact ⟨middle, between, .stay directory void further, last⟩
    · obtain ⟨middle, between, further, last⟩ := exists_reaches_of_follow_append others continued
      exact ⟨middle, between, .leave directory further, last⟩
    obtain ⟨nothing, rfl⟩ | ⟨entry, found, notLink, others⟩ |
      ⟨goal, fewer, found, rfl, others⟩ := step
    · obtain ⟨final, isPresent⟩ :=
        continued.resolve_left fun more => more (List.append_eq_nil_iff.mp nothing).2
      cases isPresent
    · obtain ⟨middle, between, further, last⟩ := exists_reaches_of_follow_append others continued
      exact ⟨middle, between, .enter directory isName short found notLink further, last⟩
    · rw [← List.append_assoc] at others
      obtain ⟨middle, between, further, last⟩ := exists_reaches_of_follow_append others continued
      exact ⟨middle, between, .jump directory isName short found further, last⟩
termination_by (links, (front ++ rest).length)

/-- Parts that can be followed to an entry lead there. -/
theorem exists_reaches_of_follow
    (followed : files.follow true links current parts = .ok (.present final)) :
    ∃ left, files.Reaches links current parts final left := by
  rw [← List.append_nil parts] at followed
  obtain ⟨middle, left, reaches, stopped⟩ :=
    exists_reaches_of_follow_append followed (.inr ⟨final, rfl⟩)
  rw [follow] at stopped
  cases stopped
  exact ⟨left, reaches⟩

/-! ## Composition -/

/-- Parts that lead to a location and those that lead on from there lead on together. -/
theorem Reaches.append {middle : Location} {between : Nat}
    (first : files.Reaches links current parts middle between)
    (second : files.Reaches between middle rest final left) :
    files.Reaches links current (parts ++ rest) final left := by
  induction first with
  | done => exact second
  | stay directory void further inductionHypothesis =>
    exact .stay directory void (inductionHypothesis second)
  | leave directory further inductionHypothesis =>
    exact .leave directory (inductionHypothesis second)
  | enter directory isName short found notLink further inductionHypothesis =>
    exact .enter directory isName short found notLink (inductionHypothesis second)
  | jump directory isName short found further inductionHypothesis =>
    have further := inductionHypothesis second
    rw [List.append_assoc] at further
    exact .jump directory isName short found further

/-- What leads somewhere leads there by way of each of its fronts. -/
theorem Reaches.exists_middle {links left : Nat} {current final : Location}
    {front rest : List Bytes} (reaches : files.Reaches links current (front ++ rest) final left) :
    ∃ middle between, files.Reaches links current front middle between ∧
      files.Reaches between middle rest final left := by
  cases front with
  | nil => exact ⟨_, _, .done, reaches⟩
  | cons part front =>
    rw [List.cons_append] at reaches
    cases reaches with
    | stay directory void further =>
      obtain ⟨middle, between, first, second⟩ := further.exists_middle
      exact ⟨middle, between, .stay directory void first, second⟩
    | leave directory further =>
      obtain ⟨middle, between, first, second⟩ := further.exists_middle
      exact ⟨middle, between, .leave directory first, second⟩
    | enter directory isName short found notLink further =>
      obtain ⟨middle, between, first, second⟩ := further.exists_middle
      exact ⟨middle, between, .enter directory isName short found notLink first, second⟩
    | jump directory isName short found further =>
      rw [← List.append_assoc] at further
      obtain ⟨middle, between, first, second⟩ := further.exists_middle
      exact ⟨middle, between, .jump directory isName short found first, second⟩
termination_by (links, (front ++ rest).length)

/-- More links to follow do not change where parts lead. -/
theorem Reaches.moreLinks (reaches : files.Reaches links current parts final left) (more : Nat) :
    files.Reaches (links + more) current parts final (left + more) := by
  induction reaches with
  | done => exact .done
  | stay directory void further inductionHypothesis =>
    exact .stay directory void inductionHypothesis
  | leave directory further inductionHypothesis =>
    exact .leave directory inductionHypothesis
  | enter directory isName short found notLink further inductionHypothesis =>
    exact .enter directory isName short found notLink inductionHypothesis
  | jump directory isName short found further inductionHypothesis =>
    rw [Nat.add_right_comm]
    exact .jump directory isName short found inductionHypothesis

/-- Parts lead to one location at most, however many links may be followed. -/
theorem Reaches.final_unique {links' left' : Nat} {final' : Location}
    (first : files.Reaches links current parts final left)
    (second : files.Reaches links' current parts final' left') : final = final' := by
  have firstFollowed := (first.moreLinks links').follow_eq
  have secondFollowed := (second.moreLinks links).follow_eq
  rw [Nat.add_comm, secondFollowed] at firstFollowed
  cases firstFollowed
  rfl

/-! ## Stability -/

/-- Something follows a location only if it is a directory. -/
theorem Reaches.hasDirectory (reaches : files.Reaches links current (part :: rest) final left) :
    files.hasDirectory current := by
  cases reaches <;> assumption

/-- A name leads on only where an entry has it. -/
theorem Reaches.exists_entry (reaches : files.Reaches links current (part :: rest) final left)
    (isName : Path.IsName part) :
    part.length ≤ nameLimit ∧ ∃ entry, files.find? (current ++ [part]) = some entry := by
  cases reaches with
  | stay directory void further => simp [isName.notVoid] at void
  | leave directory further => exact absurd rfl isName.notUp
  | enter directory _ short found notLink further => exact ⟨short, _, found⟩
  | jump directory _ short found further => exact ⟨short, _, found⟩

/-- Parts without meaning lead nowhere else. -/
theorem Reaches.eq_of_void (reaches : files.Reaches links current parts final left)
    (void : ∀ part ∈ parts, Path.isVoid part) : final = current ∧ left = links := by
  induction reaches with
  | done => exact ⟨rfl, rfl⟩
  | stay directory here further inductionHypothesis =>
    exact inductionHypothesis fun part member => void part (List.mem_cons_of_mem _ member)
  | leave => exact absurd (void _ List.mem_cons_self) (by decide)
  | enter directory isName => simp [isName.notVoid] at void
  | jump directory isName => simp [isName.notVoid] at void

/-- Parts at the end that stand for nothing can be left out. -/
theorem Reaches.dropVoid {void : List Bytes}
    (reaches : files.Reaches links current (parts ++ void) final left)
    (meaningless : ∀ part ∈ void, Path.isVoid part) :
    files.Reaches links current parts final left := by
  obtain ⟨middle, between, first, second⟩ := reaches.exists_middle
  obtain ⟨rfl, rfl⟩ := second.eq_of_void meaningless
  exact first

/-- Behind a directory they can be added. -/
theorem Reaches.addVoid {void : List Bytes}
    (reaches : files.Reaches links current parts final left)
    (directory : files.hasDirectory final) (meaningless : ∀ part ∈ void, Path.isVoid part) :
    files.Reaches links current (parts ++ void) final left := by
  refine reaches.append ?_
  induction void with
  | nil => exact .done
  | cons part rest inductionHypothesis =>
    exact .stay directory (meaningless part List.mem_cons_self)
      (inductionHypothesis fun part member => meaningless part (List.mem_cons_of_mem _ member))

/-- A change keeps where parts lead if it keeps directories and the entries by way of
which the same location is reached. -/
theorem Reaches.ofEntriesKept {changed : FileSystem}
    (reaches : files.Reaches links current parts final left)
    (directories : ∀ location, files.hasDirectory location → changed.hasDirectory location)
    (kept : ∀ {links current part rest entry},
      files.Reaches links current (part :: rest) final left → Path.IsName part →
        files.find? (current ++ [part]) = some entry → changed.find? (current ++ [part]) = some entry) :
    changed.Reaches links current parts final left := by
  induction reaches with
  | done => exact .done
  | stay directory void further inductionHypothesis =>
    exact .stay (directories _ directory) void (inductionHypothesis kept)
  | leave directory further inductionHypothesis =>
    exact .leave (directories _ directory) (inductionHypothesis kept)
  | enter directory isName short found notLink further inductionHypothesis =>
    have foundAgain := kept (.enter directory isName short found notLink further) isName found
    exact .enter (directories _ directory) isName short foundAgain notLink
      (inductionHypothesis kept)
  | jump directory isName short found further inductionHypothesis =>
    have foundAgain := kept (.jump directory isName short found further) isName found
    exact .jump (directories _ directory) isName short foundAgain (inductionHypothesis kept)

/-! ## Putting an entry somewhere -/

/-- An entry at a free location is on no way. -/
theorem Reaches.insert_free (reaches : files.Reaches links current parts final left)
    {location : Location} (free : files.find? location = none) (entry : Entry) :
    (files.insert location entry).Reaches links current parts final left := by
  refine reaches.ofEntriesKept (fun _ => hasDirectory_insert (hasDirectory_of_free free) entry)
    fun _ _ found => ?_
  rwa [find?_insert_of_ne]
  rintro rfl
  simp [free] at found

/-- The location that parts lead to is free if nothing stands there, and an entry that is put there is
reached by them. -/
theorem reaches_of_vacant {location : Location} (entry : Entry)
    (notLink : ∀ target, entry ≠ .link target)
    (followed : files.follow true links current parts = .ok (.vacant location)) :
    files.find? location = none ∧
      ∃ left, (files.insert location entry).Reaches links current parts location left := by
  have kept {current : Location} (free : files.find? location = none)
      (isDirectory : ¬ (!files.hasDirectory current) = true) :
      (files.insert location entry).hasDirectory current :=
    hasDirectory_insert (hasDirectory_of_free free) entry (by simpa using isDirectory)
  have foundAgain {other : Location} {standing : Entry} (free : files.find? location = none)
      (found : files.find? other = some standing) :
      (files.insert location entry).find? other = some standing := by
    rwa [find?_insert_of_ne]
    rintro rfl
    rw [free] at found
    cases found
  fun_induction follow files true links current parts with
  | case3 links current part rest directory void inductionHypothesis =>
    obtain ⟨free, left, further⟩ := inductionHypothesis followed
    exact ⟨free, left, .stay (kept free directory) void further⟩
  | case4 links current rest directory notVoid inductionHypothesis =>
    obtain ⟨free, left, further⟩ := inductionHypothesis followed
    exact ⟨free, left, .leave (kept free directory) further⟩
  | case6 links current part directory notVoid notUp short vacant =>
    obtain rfl : current ++ [part] = location := by simpa using followed
    exact ⟨vacant, links, .enter (kept vacant directory) ⟨by simpa using notVoid, notUp⟩
      (Nat.not_lt.mp short) (find?_insert_self (List.concat_ne_nil _ _)) notLink .done⟩
  | case10 current part rest directory notVoid notUp short target found continued fewer
      inductionHypothesis =>
    obtain ⟨free, left, further⟩ := inductionHypothesis followed
    exact ⟨free, left, .jump (kept free directory) ⟨by simpa using notVoid, notUp⟩
      (Nat.not_lt.mp short) (foundAgain free found) further⟩
  | case11 links current part rest directory notVoid notUp short standing noLink found
      inductionHypothesis =>
    obtain ⟨free, left, further⟩ := inductionHypothesis followed
    exact ⟨free, left, .enter (kept free directory) ⟨by simpa using notVoid, notUp⟩
      (Nat.not_lt.mp short) (foundAgain free found) noLink further⟩
  | _ => cases followed

/-- What a name leads to if it does not lead to a directory is never on the way to one. -/
theorem Reaches.not_hasDirectory {links' left' : Nat} {final' : Location}
    (reaches : files.Reaches links current [part] final left)
    (noDirectory : files.hasDirectory final = false)
    (beyond : files.Reaches links' current (part :: rest) final' left') :
    files.hasDirectory final' = false := by
  rw [← List.singleton_append] at beyond
  obtain ⟨middle, between, first, second⟩ := beyond.exists_middle
  obtain rfl := reaches.final_unique first
  cases rest with
  | nil =>
    cases second
    exact noDirectory
  | cons next others => simp [second.hasDirectory] at noDirectory

/-- No file is on the way to a directory. -/
theorem Reaches.ne_file {entry : Entry}
    (reaches : files.Reaches links current (part :: rest) final left)
    (directory : files.hasDirectory final) (isName : Path.IsName part)
    (found : files.find? (current ++ [part]) = some entry) (contents : Bytes) (mode : Nat) :
    entry ≠ .file contents mode := by
  rintro rfl
  have entered : files.Reaches links current [part] (current ++ [part]) links :=
    .enter reaches.hasDirectory isName (reaches.exists_entry isName).1 found (by simp) .done
  have noDirectory : files.hasDirectory (current ++ [part]) = false := by
    rw [FileSystem.hasDirectory, found]
  simp [entered.not_hasDirectory noDirectory reaches] at directory

/-- What does not lead to a directory is not a directory itself. -/
theorem Reaches.noDirectory_at_name (reaches : files.Reaches links current [part] final left)
    (isName : Path.IsName part) (noDirectory : files.hasDirectory final = false) :
    files.hasDirectory (current ++ [part]) = false := by
  rw [← Bool.not_eq_true]
  intro there
  obtain ⟨mode, found⟩ := find?_of_hasDirectory there
  have entered : files.Reaches links current [part] (current ++ [part]) links :=
    .enter reaches.hasDirectory isName (reaches.exists_entry isName).1 found (by simp) .done
  simp [reaches.not_hasDirectory noDirectory entered] at there

/-- An entry that takes the place of one that does not lead to a directory is not on the
way to any. -/
theorem Reaches.insert_leaf {start stop : Location} {before after : Nat} {name : Bytes}
    (leaf : files.Reaches before start [name] stop after)
    (noDirectory : files.hasDirectory stop = false) (isName : Path.IsName name) (entry : Entry)
    (reaches : files.Reaches links current parts final left)
    (directory : files.hasDirectory final) :
    (files.insert (start ++ [name]) entry).Reaches links current parts final left := by
  have noDirectoryThere := leaf.noDirectory_at_name isName noDirectory
  -- A step by way of the changed entry would make it lead to the directory at the end.
  refine reaches.ofEntriesKept (fun _ => hasDirectory_insert noDirectoryThere entry)
    fun {_ middle step _ _} further _ found => ?_
  rwa [find?_insert_of_ne]
  intro same
  obtain ⟨rfl, here⟩ := List.append_inj' same rfl
  obtain rfl : step = name := by simpa using here
  simp [leaf.not_hasDirectory noDirectory further] at directory

end Following

end ElmWorkbench.FileSystem
