import ElmWorkbench.Proofs.Session.Listing
/-!
# What a session remembers

Projects are opened and closed while commands are answered and files change. Whatever happens, the
settings stay and the open project is the last one that has been opened and not been closed since
(`Session.projectRoot_run_iff`). A command that leaves its root out, or names a file by a relative
path, is about that project (`Session.remembers_last_opened`).
-/

namespace ElmWorkbench.Session

/-- What can happen to a session and the files around it. -/
inductive Event where
  /-- A project is opened, which must have a manifest. -/
  | openProject (root : Path)
  /-- A project is opened that is not looked at. -/
  | withProject (root : Path)
  | closeProject
  /-- A command is answered. -/
  | answer (command : Command)
  /-- The files become others, whoever changes them. -/
  | change (files : FileSystem)

/-- A session and the files around it. -/
structure Scene where
  session : Session
  files : FileSystem

namespace Event

/-- The scene after an event, whether or not the event has come out well. -/
def apply (environment : Environment) (scene : Scene) : Event → Scene
  | .openProject root => { scene with session := (tryOpen scene.files root scene.session).2 }
  | .withProject root => { scene with session := scene.session.withProject root }
  | .closeProject => { scene with session := scene.session.closeProject }
  | .answer command =>
    { scene with files := (scene.session.answer environment command scene.files).2 }
  | .change files => { scene with files }

/-- An event opens a project in a scene. -/
inductive Opens (scene : Scene) (root : Path) : Event → Prop where
  | checked {manifest : Manifest} (loaded : Manifest.load scene.files root = .ok manifest) :
    Opens scene root (.openProject root)
  | unchecked : Opens scene root (.withProject root)

/-- After an event it does not matter any more which project was open. -/
def Ends (scene : Scene) (event : Event) : Prop :=
  event = .closeProject ∨ ∃ root, event.Opens scene root

end Event

/-- The scene after a sequence of events. -/
def run (environment : Environment) (start : Scene) (events : List Event) : Scene :=
  events.foldl (Event.apply environment) start

/-- Of the events that opened a project, the last one opened `root`, and the project has not been
closed since. -/
def LastOpened (environment : Environment) (start : Scene) (events : List Event) (root : Path) :
    Prop :=
  ∃ before event after, events = before ++ event :: after ∧
    event.Opens (run environment start before) root ∧
    ∀ between next later, after = between ++ next :: later →
      ¬ next.Ends (run environment start (before ++ event :: between))

section Remembering

variable {environment : Environment} {start scene : Scene} {events : List Event} {event : Event}
  {root : Path}

/-! ## One event -/

/-- A project with a manifest becomes the open one. -/
theorem tryOpen_of_load {manifest : Manifest}
    (loaded : Manifest.load scene.files root = .ok manifest) :
    tryOpen scene.files root scene.session = (.ok (), scene.session.withProject root) := by
  rw [tryOpen, loaded]
  rfl

/-- A project without a manifest is refused, and the session stays what it is. -/
theorem tryOpen_of_error {error : Error}
    (failed : Manifest.load scene.files root = .error error) :
    tryOpen scene.files root scene.session = (.error error, scene.session) := by
  rw [tryOpen, failed]
  rfl

/-- An opening that fails changes nothing. -/
theorem snd_tryOpen_of_error {error : Error}
    (failed : (tryOpen scene.files root scene.session).1 = .error error) :
    (tryOpen scene.files root scene.session).2 = scene.session := by
  cases loaded : Manifest.load scene.files root with
  | ok manifest =>
    rw [tryOpen_of_load loaded] at failed
    cases failed
  | error cause => rw [tryOpen_of_error loaded]

/-- No event changes the settings. -/
theorem settings_apply : (event.apply environment scene).session.settings =
    scene.session.settings := by
  cases event with
  | openProject root =>
    simp only [Event.apply]
    cases loaded : Manifest.load scene.files root with
    | ok manifest =>
      rw [tryOpen_of_load loaded]
      rfl
    | error error => rw [tryOpen_of_error loaded]
  | withProject root => rfl
  | closeProject => rfl
  | answer command => rfl
  | change files => rfl

/-- After an event a project is open if the event has opened it, or if it was open before and the
event ends nothing. -/
theorem projectRoot_apply_iff : (event.apply environment scene).session.projectRoot = some root ↔
    event.Opens scene root ∨ scene.session.projectRoot = some root ∧ ¬ event.Ends scene := by
  cases event with
  | openProject opened =>
    simp only [Event.apply]
    cases loaded : Manifest.load scene.files opened with
    | ok manifest =>
      have ends : (Event.openProject opened).Ends scene := .inr ⟨opened, .checked loaded⟩
      rw [tryOpen_of_load loaded]
      constructor
      · intro same
        obtain rfl : opened = root := Option.some.inj same
        exact .inl (.checked loaded)
      · rintro (opens | ⟨-, stays⟩)
        · cases opens
          rfl
        · exact absurd ends stays
    | error error =>
      have never (other : Path) : ¬ (Event.openProject opened).Opens scene other := by
        rintro ⟨loadedAgain⟩
        rw [loaded] at loadedAgain
        cases loadedAgain
      rw [tryOpen_of_error loaded]
      simp [never, Event.Ends]
  | withProject opened =>
    have ends : (Event.withProject opened).Ends scene := .inr ⟨opened, .unchecked⟩
    constructor
    · intro same
      obtain rfl : opened = root := Option.some.inj same
      exact .inl .unchecked
    · rintro (opens | ⟨-, stays⟩)
      · cases opens
        rfl
      · exact absurd ends stays
  | closeProject =>
    have ends : Event.closeProject.Ends scene := .inl rfl
    constructor
    · intro same
      cases same
    · rintro (opens | ⟨-, stays⟩)
      · cases opens
      · exact absurd ends stays
  | answer command =>
    have never (other : Path) : ¬ (Event.answer command).Opens scene other := nofun
    simp [Event.apply, never, Event.Ends]
  | change files =>
    have never (other : Path) : ¬ (Event.change files).Opens scene other := nofun
    simp [Event.apply, never, Event.Ends]

/-! ## All events -/

/-- The scene after one more event is the one that the event makes of the scene before. -/
theorem run_concat : run environment start (events ++ [event]) =
    event.apply environment (run environment start events) := by
  rw [run, List.foldl_concat]
  rfl

/-- A project was opened last if the last event opened it, or if it was so before and the event did
not end that. -/
theorem lastOpened_concat_iff : LastOpened environment start (events ++ [event]) root ↔
    event.Opens (run environment start events) root ∨
      LastOpened environment start events root ∧ ¬ event.Ends (run environment start events) := by
  constructor
  · rintro ⟨before, opening, after, whole, opens, none⟩
    obtain rfl | ⟨after, last, rfl⟩ := List.eq_nil_or_concat after
    · obtain ⟨rfl, same⟩ := List.append_inj' whole rfl
      obtain rfl : event = opening := by simpa using same
      exact .inl opens
    · rw [List.concat_eq_append] at whole none
      rw [← List.cons_append, ← List.append_assoc] at whole
      obtain ⟨rfl, same⟩ := List.append_inj' whole rfl
      obtain rfl : event = last := by simpa using same
      refine .inr ⟨⟨before, opening, after, rfl, opens, ?_⟩, none after event [] (by simp)⟩
      rintro between next later rfl
      exact none between next (later ++ [event]) (by simp)
  · rintro (opens | ⟨⟨before, opening, after, rfl, opens, none⟩, stays⟩)
    · exact ⟨events, event, [], rfl, opens, by simp⟩
    · refine ⟨before, opening, after ++ [event], by simp, opens, ?_⟩
      intro between next later whole
      obtain rfl | ⟨later, last, rfl⟩ := List.eq_nil_or_concat later
      · obtain ⟨rfl, same⟩ := List.append_inj' whole rfl
        obtain rfl : event = next := by simpa using same
        exact stays
      · rw [List.concat_eq_append, ← List.cons_append, ← List.append_assoc] at whole
        obtain ⟨rfl, -⟩ := List.append_inj' whole rfl
        exact none between next later rfl

/-- The settings are those that the session has begun with. -/
theorem settings_run : (run environment start events).session.settings =
    start.session.settings := by
  induction events using List.reverseRecOn with
  | nil => rfl
  | append_singleton events event inductionHypothesis =>
    rw [run_concat, settings_apply, inductionHypothesis]

/-- In a session that has begun without a project, the open project is the last one that has been
opened and not been closed since. -/
theorem projectRoot_run_iff (closed : start.session.projectRoot = none) :
    (run environment start events).session.projectRoot = some root ↔
      LastOpened environment start events root := by
  induction events using List.reverseRecOn with
  | nil =>
    simp [run, closed, LastOpened]
  | append_singleton events event inductionHypothesis =>
    rw [run_concat, projectRoot_apply_iff, inductionHypothesis, lastOpened_concat_iff]

end Remembering

/-! ## Commands about the open project -/

section Commands

variable {session : Session} {environment : Environment} {files : FileSystem} {root : Path}

/-- A project that a command names is the one it is for. -/
theorem resolveRoot_given (given : Path) : session.resolveRoot (some given) = .ok given :=
  rfl

/-- A command that names no project is for the one that is open. -/
theorem resolveRoot_open (isOpen : session.projectRoot = some root) :
    session.resolveRoot none = .ok root := by
  rw [resolveRoot, isOpen]
  rfl

/-- A command that names no project is refused while none is open. -/
theorem resolveRoot_closed (closed : session.projectRoot = none) :
    session.resolveRoot none = .error .noProjectOpen := by
  rw [resolveRoot, closed]
  rfl

/-- Commands with roots that resolve alike are answered alike. -/
theorem answer_listings_congr (environment : Environment) (files : FileSystem)
    {given other : Option Path}
    (same : session.resolveRoot given = session.resolveRoot other) :
    session.answer environment (.listFilesForIndex given) files =
        session.answer environment (.listFilesForIndex other) files ∧
      session.answer environment (.listUserSourceFiles given) files =
        session.answer environment (.listUserSourceFiles other) files := by
  have index : session.index environment given = session.index environment other := by
    rw [Session.index, same, Session.index]
  have sources : session.sources given = session.sources other := by
    rw [Session.sources, same, Session.sources]
  rw [answer, attempt, index, answer, attempt, answer, attempt, sources, answer, attempt]
  exact ⟨rfl, rfl⟩

/-- Without an open project a listing has to name its root. -/
theorem answer_listings_closed (closed : session.projectRoot = none) :
    session.answer environment (.listFilesForIndex none) files =
        (.failed .noActiveProject Error.noProjectOpen.message, files) ∧
      session.answer environment (.listUserSourceFiles none) files =
        (.failed .noActiveProject Error.noProjectOpen.message, files) := by
  have index : session.attempt environment (.listFilesForIndex none) files =
      (.error .noProjectOpen, files) := by
    simp only [attempt, Session.index, resolveRoot_closed closed, Except.error_bind,
      Attempt.map_look]
    rfl
  have sources : session.attempt environment (.listUserSourceFiles none) files =
      (.error .noProjectOpen, files) := by
    simp only [attempt, Session.sources, resolveRoot_closed closed, Except.error_bind,
      Attempt.map_look]
    rfl
  rw [answer_eq_iff, answer_eq_iff, index, sources]
  exact ⟨⟨rfl, rfl⟩, ⟨rfl, rfl⟩⟩

/-- A relative path of a file starts from the open project. -/
theorem resolveFile_open (isOpen : session.projectRoot = some root) (path : Path) :
    session.resolveFile path = if path.isAbsolute then path else root.join path := by
  simp only [resolveFile, isOpen]
  split
  · next absolute => rw [Path.join, if_pos absolute]
  · rfl

/-- While no project is open a file is edited at the path that is given. -/
theorem resolveFile_closed (closed : session.projectRoot = none) (path : Path) :
    session.resolveFile path = path := by
  rw [resolveFile, closed]

/-- What a host is told of a replacement in a file. -/
def answerToReplacement (replaced : Except Error Unit × FileSystem) : Response × FileSystem :=
  (answerOf (replaced.1.map fun _ => .fileReplaced), replaced.2)

/-- A replacement between two positions that are in order is the one in the file. -/
theorem answer_replaceInFile (path : Path) (range : Range) (replacement : String) :
    session.answer environment (.replaceInFile path range.first range.last replacement) files =
      answerToReplacement
        (replaceInFile environment.processId (session.resolveFile path) range replacement files) := by
  have made : Range.make range.first range.last = .ok range := by
    rw [Range.make, dif_pos range.ordered]
  have same : session.replace environment path range.first range.last replacement files =
      replaceInFile environment.processId (session.resolveFile path) range replacement files :=
    Attempt.bind_of_ok (by rw [Attempt.look, made])
  rw [answer_eq_iff, attempt, Attempt.bind_pure, same]
  exact ⟨rfl, rfl⟩

end Commands

/-! ## Every run -/

/-- After any sequence of openings, closings, commands and changes of files, the settings are the
first ones and the open project is the last one that was opened and not closed since; an opening
that fails leaves everything as it was. While a project is open, a listing without a root is the one
of that project, and a replacement in a file named by a relative path is the one in the file below
the project. While none is open, a listing without a root is refused, and relative paths of files
are used as they are. -/
theorem remembers_last_opened (settings : Settings) (environment : Environment)
    (start : FileSystem) (events : List Event) (scene : Scene)
    (reached : scene = run environment ⟨.start settings, start⟩ events) :
    scene.session.settings = settings ∧
      (∀ root, scene.session.projectRoot = some root ↔
        LastOpened environment ⟨.start settings, start⟩ events root) ∧
      (∀ root error, (tryOpen scene.files root scene.session).1 = .error error →
        (Event.openProject root).apply environment scene = scene) ∧
      (∀ root, scene.session.projectRoot = some root →
        scene.session.answer environment (.listFilesForIndex none) scene.files =
            scene.session.answer environment (.listFilesForIndex (some root)) scene.files ∧
          scene.session.answer environment (.listUserSourceFiles none) scene.files =
            scene.session.answer environment (.listUserSourceFiles (some root)) scene.files ∧
          ∀ path range replacement,
            scene.session.answer environment
                (.replaceInFile path range.first range.last replacement) scene.files =
              answerToReplacement (replaceInFile environment.processId
                (if path.isAbsolute then path else root.join path) range replacement scene.files)) ∧
      (scene.session.projectRoot = none →
        scene.session.answer environment (.listFilesForIndex none) scene.files =
            (.failed .noActiveProject Error.noProjectOpen.message, scene.files) ∧
          scene.session.answer environment (.listUserSourceFiles none) scene.files =
            (.failed .noActiveProject Error.noProjectOpen.message, scene.files) ∧
          ∀ path range replacement,
            scene.session.answer environment
                (.replaceInFile path range.first range.last replacement) scene.files =
              answerToReplacement
                (replaceInFile environment.processId path range replacement scene.files)) := by
  refine ⟨?_, fun root => ?_, fun root error failed => ?_, fun root isOpen => ?_, fun closed => ?_⟩
  · rw [reached, settings_run]
    rfl
  · rw [reached]
    exact projectRoot_run_iff rfl
  · rw [Event.apply, snd_tryOpen_of_error failed]
  · obtain ⟨index, sources⟩ :=
      answer_listings_congr environment scene.files
        ((resolveRoot_open isOpen).trans (resolveRoot_given root).symm)
    refine ⟨index, sources, fun path range replacement => ?_⟩
    rw [answer_replaceInFile, resolveFile_open isOpen]
  · obtain ⟨index, sources⟩ := answer_listings_closed closed
    refine ⟨index, sources, fun path range replacement => ?_⟩
    rw [answer_replaceInFile, resolveFile_closed closed]

/-- A store is opened without a look at it and closed, then the project of the sample is opened,
and then a text is recorded. -/
def plainEvents : List Event :=
  [.withProject plainStore, .closeProject, .openProject plainRoot,
    .answer (.errorLogRequested "done")]

/-- The project of the sample was opened last. -/
theorem lastOpened_plain :
    LastOpened ⟨[], none, 1⟩ ⟨.start Settings.default, plainFiles "x\n"⟩ plainEvents plainRoot := by
  refine ⟨[.withProject plainStore, .closeProject], .openProject plainRoot,
    [.answer (.errorLogRequested "done")], rfl, .checked (load_plain _), ?_⟩
  intro between next later whole ends
  obtain ⟨rfl, same⟩ | ⟨_, _, nothing⟩ := List.cons_eq_append_iff.mp whole
  · obtain rfl : next = .answer (.errorLogRequested "done") := (List.cons.inj same).1
    rcases ends with closes | ⟨_, opens⟩
    · cases closes
    · cases opens
  · simp at nothing

/-- The project of the sample is open after the events, and listed without being named. -/
theorem remembers_last_opened_plain :
    ∃ scene, scene = run ⟨[], none, 1⟩ ⟨.start Settings.default, plainFiles "x\n"⟩ plainEvents ∧
      scene.session.projectRoot = some plainRoot ∧
      scene.session.answer ⟨[], none, 1⟩ (.listUserSourceFiles none) scene.files =
        scene.session.answer ⟨[], none, 1⟩ (.listUserSourceFiles (some plainRoot)) scene.files := by
  obtain ⟨-, remembered, -, listed, -⟩ := remembers_last_opened Settings.default ⟨[], none, 1⟩
    (plainFiles "x\n") plainEvents _ rfl
  have isOpen := (remembered plainRoot).mpr lastOpened_plain
  exact ⟨_, rfl, isOpen, (listed plainRoot isOpen).2.1⟩

end ElmWorkbench.Session
