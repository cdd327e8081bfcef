import ElmWorkbench.Proofs.FileSystem.TextNames
import ElmWorkbench.Proofs.Session.Command
import ElmWorkbench.Proofs.Session.Listing
import ElmWorkbench.Proofs.Session.Server
/-!
# Runs and answers agree

A task that asks for what a command asks for is carried out as that command is (`Task.performs`).
So a run and a server leave the same files and tell of the same result, each in its own way: a run
by its exit code and its output, a server by the line of its answer (`Request.run_agrees`).
-/

namespace ElmWorkbench

open Json (Reader Recovers Takes Value)

/-! ## Serving one command -/

namespace Command

/-- The line of a command. -/
def line (command : Command) : Bytes :=
  command.toJson.bytes ++ [Line.newline]

/-- No line break and no other control character stands in a command that is sent, so it is one line
of input. -/
theorem le_of_mem_bytes (command : Command) {byte : UInt8}
    (written : byte ∈ command.toJson.bytes) : 0x20 ≤ byte :=
  (Value.isClean_compact command.toJson).le_of_mem_encodeChars written

/-- The line of a command is one message. -/
theorem messages_line {command : Command} (isText : command.IsText) :
    Service.messages command.line = [command.toJson.bytes] := by
  have absent (byte : UInt8) (control : byte < 0x20) : byte ∉ command.toJson.bytes :=
    fun written => UInt8.not_le.mpr control (command.le_of_mem_bytes written)
  have undropped : Service.dropReturn command.toJson.bytes = command.toJson.bytes :=
    if_neg fun ends => absent 0x0D (by decide) (List.mem_of_getLast? ends)
  have spaced := Value.spaced_bytes ((complete_iff command).mpr isText)
  obtain ⟨gap, rest, -, -, opened⟩ := Json.spaced_cons_iff.mp spaced
  have solid : command.toJson.bytes.all Service.isBlank = false :=
    List.all_eq_false.mpr ⟨0x7B, by simp [opened], by decide⟩
  have ended : Service.dropReturn [] = [] := rfl
  rw [Service.messages, line, List.splitOn_append_cons_self,
    List.splitOn_eq_singleton (absent _ (by decide))]
  simp [undropped, solid, ended]

end Command

/-- A server that gets one command answers it by one line. -/
theorem Service.serve_line {session : Session} {environment : Environment} {command : Command}
    {response : Response} {files after : FileSystem} (isText : command.IsText)
    (answered : session.answer environment command files = (response, after))
    (responseIsText : response.IsText) :
    ∃ service, serve session environment command.line files = (service, after) ∧
      service.stopped = false ∧ service.bytes = lineOf response := by
  have decoded : Command.ofBytes command.toJson.bytes = .ok command :=
    Command.ofBytes_eq_ok isText (Json.Varies.refl _)
      (Value.spells_bytes ((Command.complete_iff command).mpr isText))
  have responded : respond session environment command.toJson.bytes files =
      ((response, command.logged?.toList), after) := by
    rw [respond, decoded]
    exact bind_of_eq answered
  have served : serveMessage session environment start command.toJson.bytes files =
      ({ start with log := start.log ++ command.logged?.toList }.write response, after) := by
    rw [serveMessage, if_neg (by decide), bind_of_eq responded]
    rfl
  rw [serve_eq, Command.messages_line isText, List.foldlM_cons, bind_of_eq served, List.foldlM_nil]
  rcases write_cases { start with log := start.log ++ command.logged?.toList } response with
    ⟨-, stays, written⟩ | ⟨noText, -⟩
  · exact ⟨_, rfl, stays, written⟩
  · exact absurd responseIsText noText

/-! ## Written values -/

namespace CommandLine

/-- A value without a path that is not UTF-8 is written in lines that are read back. -/
theorem Outcome.exists_ofValue {Meaning : Type} {read : Reader Meaning} {value : Value}
    {meaning : Meaning} (isText : ∀ path, value.Holds path → path.text?.isSome)
    (takes : Takes read value meaning) :
    ∃ output, ofValue value = success output ∧
      Reader.runWhole read (Utf8.encodeChars output) = .ok meaning := by
  have complete : value.pretty.complete := (Value.write_complete_iff _ value).mpr isText
  refine ⟨value.pretty.text ++ ['\n'], if_pos complete, takes.runWhole ?_⟩
  exact ⟨_, [0x0A], Value.spaced_write (.lines 0) complete, by decide, Utf8.encodeChars_append _ _⟩

/-- Paths are shown as texts, one a line. -/
def IsLines (paths : List Path) (output : List Char) : Prop :=
  ∃ texts : List String, texts.map Path.ofString = paths ∧
    output = texts.flatMap fun text => text.toList ++ ['\n']

/-- Paths that are UTF-8 are printed in full, each on a line of its own. -/
theorem Outcome.exists_ofPaths {paths : List Path} (isText : ∀ path ∈ paths, path.text?.isSome) :
    ∃ output, ofPaths paths = success output ∧ IsLines paths output := by
  refine ⟨_, rfl, paths.map Path.display, ?_, by rw [List.flatMap_map]⟩
  rw [List.map_map, List.map_congr_left fun path member => ?_, List.map_id]
  obtain ⟨text, decoded⟩ := Option.isSome_iff_exists.mp (isText path member)
  rw [Function.comp_apply, Path.display, Utf8.decodeLossy_of_decode? decoded,
    Path.text?_eq_some_iff.mp decoded, id]

/-! ## What a task asks for -/

/-- The command that asks a server for what a task does. -/
def Task.command? : Task → Option Command
  | .replace file first last text => some (.replaceInFile file first last text)
  | .index root _ => some (.listFilesForIndex (some root))
  | .sources root _ => some (.listUserSourceFiles (some root))
  | .serve _ => none

namespace Request

variable {fallback : Option Path} {arguments : List String} {request : Request}

/-- A path that is given as a text is UTF-8. -/
theorem isText_ofString (text : String) : (Path.ofString text).text?.isSome :=
  Option.isSome_iff_exists.mpr ⟨text, Path.text?_eq_some_iff.mpr rfl⟩

/-- A path on the command line is UTF-8. -/
theorem isText_of_pathOf? {taken : Taken} {parameter : Parameter} {path : Path}
    (given : pathOf? taken parameter = some path) : path.text?.isSome := by
  obtain ⟨text, -, rfl⟩ := Option.map_eq_some_iff.mp given
  exact isText_ofString text

/-- The root of a project is UTF-8, whether it is given or the current directory. -/
theorem isText_rootOf (taken : Taken) (parameter : Parameter) :
    ((pathOf? taken parameter).getD here).text?.isSome := by
  cases given : pathOf? taken parameter with
  | none => decide
  | some path => exact isText_of_pathOf? given

/-- A task asks for a command whose paths are UTF-8. -/
theorem isText_of_taskOf {verb : Verb} {taken : Taken} {task : Task} {command : Command}
    (asked : taskOf verb taken = .ok task) (asks : task.command? = some command) :
    command.IsText := by
  cases verb with
  | replace =>
    simp only [taskOf, Except.bind_eq_ok_iff] at asked
    obtain ⟨first, -, last, -, named⟩ := asked
    split at named
    · next file given =>
      cases named
      cases asks
      exact List.forall_mem_singleton.mpr (isText_of_pathOf? given)
    · cases named
  | index =>
    cases asked
    cases asks
    exact List.forall_mem_singleton.mpr (isText_rootOf taken .root)
  | sources =>
    cases asked
    cases asks
    exact List.forall_mem_singleton.mpr (isText_rootOf taken .root)
  | serve =>
    cases asked
    cases asks

/-- The task of a request is read from what the inner command line has taken. -/
theorem exists_taskOf_of_readInner {outer : Taken} {verb : Verb}
    (read : readInner fallback outer verb arguments = .ok request) :
    ∃ taken, taskOf verb taken = .ok request.task := by
  simp only [readInner, Except.bind_eq_ok_iff] at read
  obtain ⟨before, -, inner, -, checked⟩ := read
  split at checked
  · cases checked
  · simp only [Except.bind_eq_ok_iff] at checked
    obtain ⟨task, asked, outer, -, done⟩ := checked
    cases done
    exact ⟨inner, asked⟩

/-- A command line that can be carried out has been read as the arguments of a command. -/
theorem exists_taskOf_of_readOuter {outer : Taken}
    (read : readOuter fallback outer arguments = .ok request) :
    ∃ verb taken, taskOf verb taken = .ok request.task := by
  induction arguments generalizing outer with
  | nil =>
    simp only [readOuter, withoutVerb, Except.bind_eq_ok_iff] at read
    obtain ⟨before, -, ended⟩ := read
    split at ended <;> cases ended
  | cons argument rest inductionHypothesis =>
    rw [readOuter] at read
    split at read
    · rw [readVerb] at read
      split at read
      · next verb named =>
        split at read
        · cases read
        · exact ⟨verb, exists_taskOf_of_readInner read⟩
      · split at read <;> cases read
    · obtain ⟨next, -, further⟩ := Except.bind_eq_ok_iff.mp read
      exact inductionHypothesis further

/-- What a command line asks for can be asked in a message. -/
theorem isText_of_inEnvironment {environment : Environment} {command : Command}
    (read : inEnvironment environment arguments = .ok request)
    (asks : request.task.command? = some command) : command.IsText := by
  obtain ⟨verb, taken, asked⟩ := exists_taskOf_of_readOuter read
  exact isText_of_taskOf asked asks

end Request

/-! ## What a run tells -/

/-- A run fails with a message: it reports that and writes nothing. -/
structure Outcome.Fails (outcome : Outcome) (message : String) : Prop where
  code : outcome.exitCode = 1
  report : outcome.report? = some ("error: " ++ message)
  silent : outcome.output = []

/-- An outcome that failed with an error prints its message and nothing else. -/
theorem Outcome.fails_failed (error : Error) : (Outcome.failed error).Fails error.message where
  code := rfl
  report := rfl
  silent := rfl

/-- The answer to a command that has been carried out. -/
inductive Fulfils : Command → Response → Prop where
  | replaced {file : Path} {first last : Position} {text : String} :
      Fulfils (.replaceInFile file first last text) .fileReplaced
  | index {root : Option Path} {entries : List IndexEntry} :
      Fulfils (.listFilesForIndex root) (.filesForIndex entries)
  | sources {root : Option Path} {paths : List Path} :
      Fulfils (.listUserSourceFiles root) (.userSourceFiles paths)

/-- A run tells what an answer tells: the same failure, or the same list, which is read back from
its output or stands in it line by line. -/
inductive Tells : Task → Outcome → Response → Prop where
  | failed {task : Task} {outcome : Outcome} {kind : ErrorKind} {message : String}
      (fails : outcome.Fails message) : Tells task outcome (.failed kind message)
  | replaced {file : Path} {first last : Position} {text : String} {output : List Char} :
      Tells (.replace file first last text) (.success output) .fileReplaced
  | indexValue {root : Path} {entries : List IndexEntry} {output : List Char}
      (decoded : Reader.runWhole (Reader.listOf (Reader.record .direct IndexEntry.shape))
        (Utf8.encodeChars output) = .ok entries) :
      Tells (.index root true) (.success output) (.filesForIndex entries)
  | indexLines {root : Path} {entries : List IndexEntry} {output : List Char}
      (lines : IsLines (entries.map IndexEntry.path) output) :
      Tells (.index root false) (.success output) (.filesForIndex entries)
  | sourcesValue {root : Path} {paths : List Path} {output : List Char}
      (decoded : Reader.runWhole (Reader.listOf Reader.path) (Utf8.encodeChars output) =
        .ok paths) :
      Tells (.sources root true) (.success output) (.userSourceFiles paths)
  | sourcesLines {root : Path} {paths : List Path} {output : List Char}
      (lines : IsLines paths output) :
      Tells (.sources root false) (.success output) (.userSourceFiles paths)

/-- A run ends well exactly if the command is answered by what it asks for. -/
theorem Tells.exitCode_eq_zero_iff {task : Task} {outcome : Outcome} {response : Response}
    {command : Command} (tells : Tells task outcome response)
    (asks : task.command? = some command) : outcome.exitCode = 0 ↔ Fulfils command response := by
  cases tells with
  | failed fails =>
    refine iff_of_false (by rw [fails.code]; decide) ?_
    rintro ⟨⟩
  | replaced =>
    cases asks
    exact iff_of_true rfl .replaced
  | indexValue decoded =>
    cases asks
    exact iff_of_true rfl .index
  | indexLines lines =>
    cases asks
    exact iff_of_true rfl .index
  | sourcesValue decoded =>
    cases asks
    exact iff_of_true rfl .sources
  | sourcesLines lines =>
    cases asks
    exact iff_of_true rfl .sources

section Told

variable {root : Path}

/-- The printed index tells the response that holds it, as paths or as JSON. -/
theorem tells_index {entries : List IndexEntry}
    (texts : ∀ entry ∈ entries, entry.path.text?.isSome) (asJson : Bool) :
    Tells (.index root asJson)
      (if asJson then .ofValue (.list (entries.map IndexEntry.toJson))
        else .ofPaths (entries.map IndexEntry.path))
      (.filesForIndex entries) := by
  cases asJson with
  | false =>
    obtain ⟨output, written, lines⟩ := Outcome.exists_ofPaths (List.forall_mem_map.mpr texts)
    simpa only [written] using .indexLines lines
  | true =>
    have holds : ∀ path, (Value.list (entries.map IndexEntry.toJson)).Holds path →
        path.text?.isSome := by
      intro path holds
      obtain ⟨entry, member, rfl⟩ : ∃ entry ∈ entries, path = entry.path := by
        simpa [IndexEntry.toJson] using holds
      exact texts entry member
    obtain ⟨output, written, decoded⟩ := Outcome.exists_ofValue holds
      (Recovers.listOf fun entry member => Response.recovers_entry (texts entry member)).takes
    simpa only [written] using .indexValue decoded

/-- The printed sources tell the response that holds them, as paths or as JSON. -/
theorem tells_sources {paths : List Path} (texts : ∀ path ∈ paths, path.text?.isSome)
    (asJson : Bool) :
    Tells (.sources root asJson)
      (if asJson then .ofValue (.list (paths.map Value.path)) else .ofPaths paths)
      (.userSourceFiles paths) := by
  cases asJson with
  | false =>
    obtain ⟨output, written, lines⟩ := Outcome.exists_ofPaths texts
    simpa only [written] using .sourcesLines lines
  | true =>
    have holds : ∀ path, (Value.list (paths.map Value.path)).Holds path → path.text?.isSome := by
      simpa using texts
    obtain ⟨output, written, decoded⟩ := Outcome.exists_ofValue holds
      (Recovers.listOf fun path member => (Takes.path (texts path member)).recovers trivial).takes
    simpa only [written] using .sourcesValue decoded

end Told

/-! ## Carrying out a task -/

/-- The outcome of a run that has carried out an attempt. -/
def outcomeOf : Except Error Outcome → Outcome
  | .ok outcome => outcome
  | .error error => .failed error

section Tasks

variable {session : Session} {environment : Environment} {input : Bytes} {files : FileSystem}
  {task : Task} {command : Command}

/-- A task and a command that make one attempt, and tell what it gives in their own ways. -/
theorem Task.performs_of_attempt {Found : Type} {attempt : Attempt Found}
    {tellRun : Found → Outcome} {tellAnswer : Found → Response}
    (ran : task.attempt session environment input files =
      ((attempt files).1.map tellRun, (attempt files).2))
    (answered : session.attempt environment command files =
      ((attempt files).1.map tellAnswer, (attempt files).2))
    (tells : ∀ found, (attempt files).1 = .ok found →
      Tells task (tellRun found) (tellAnswer found) ∧ (tellAnswer found).IsText) :
    ∃ response after, session.answer environment command files = (response, after) ∧
      (task.attempt session environment input files).2 = after ∧
      Tells task (outcomeOf (task.attempt session environment input files).1) response ∧
      response.IsText := by
  refine ⟨_, _, Session.answer_eq_iff.mpr ⟨rfl, rfl⟩, ?_⟩
  rw [ran, answered]
  cases attempted : (attempt files).1 with
  | error error => exact ⟨rfl, .failed (Outcome.fails_failed error), List.forall_mem_nil _⟩
  | ok found => exact ⟨rfl, tells found attempted⟩

/-- A task is carried out as its command is: both leave the same files and tell the same. -/
theorem Task.performs (asks : task.command? = some command) (session : Session)
    (environment : Environment) (input : Bytes) (names : files.HasTextNames) :
    ∃ response after, session.answer environment command files = (response, after) ∧
      (task.attempt session environment input files).2 = after ∧
      Tells task (outcomeOf (task.attempt session environment input files).1) response ∧
      response.IsText := by
  cases task with
  | replace file first last text =>
    cases asks
    -- Both sides begin with the same attempt, and what follows it changes no file.
    have ran : (Task.replace file first last text).attempt session environment input =
      session.replace environment file first last text >>= fun _ =>
        pure (.success (replacedLine file first last)) := rfl
    have answered : session.attempt environment (.replaceInFile file first last text) =
      session.replace environment file first last text >>= fun _ => pure .fileReplaced := rfl
    refine performs_of_attempt (by rw [ran, Attempt.bind_pure])
      (by rw [answered, Attempt.bind_pure]) fun _ _ => ?_
    exact ⟨.replaced, List.forall_mem_nil _⟩
  | index root asJson =>
    cases asks
    have ran : (Task.index root asJson).attempt session environment input =
      session.index environment (some root) >>= fun entries =>
        pure (if asJson then .ofValue (.list (entries.map IndexEntry.toJson))
          else .ofPaths (entries.map IndexEntry.path)) := rfl
    have answered : session.attempt environment (.listFilesForIndex (some root)) =
      .filesForIndex <$> session.index environment (some root) := rfl
    refine performs_of_attempt (by rw [ran, Attempt.bind_pure])
      (by rw [answered, Session.index, Attempt.map_look, Attempt.look]) fun entries found => ?_
    obtain ⟨given, -, built⟩ := Except.bind_eq_ok_iff.mp found
    have texts := names.isText_of_build built
    exact ⟨tells_index texts asJson, List.forall_mem_map.mpr texts⟩
  | sources root asJson =>
    cases asks
    have ran : (Task.sources root asJson).attempt session environment input =
      session.sources (some root) >>= fun paths =>
        pure (if asJson then .ofValue (.list (paths.map Value.path)) else .ofPaths paths) := rfl
    have answered : session.attempt environment (.listUserSourceFiles (some root)) =
      .userSourceFiles <$> session.sources (some root) := rfl
    refine performs_of_attempt (by rw [ran, Attempt.bind_pure])
      (by rw [answered, Session.sources, Attempt.map_look, Attempt.look]) fun paths found => ?_
    obtain ⟨given, -, listed⟩ := Except.bind_eq_ok_iff.mp found
    have texts := names.isText_of_listSources listed
    exact ⟨tells_sources texts asJson, texts⟩
  | serve project => cases asks

/-- A server without a project gives the line of its answer to a command. -/
theorem Task.serves {response : Response} {after : FileSystem} (isText : command.IsText)
    (answered : session.answer environment command files = (response, after))
    (responseIsText : response.IsText) :
    ∃ output, (Task.serve none).attempt session environment command.line files =
        (.ok (.success output), after) ∧
      Utf8.encodeChars output = response.toJson.bytes ++ [Line.newline] := by
  obtain ⟨service, served, running, written⟩ :=
    Service.serve_line isText answered responseIsText
  have ended : Outcome.ofService service = .success service.output := by
    rw [Outcome.ofService, running]
    rfl
  have ran : (Task.serve none).attempt session environment command.line files =
      (.ok (Outcome.ofService (Service.serve session environment command.line files).1),
        (Service.serve session environment command.line files).2) := rfl
  exact ⟨service.output, by rw [ran, served, ended], written⟩

end Tasks

/-- A command line that makes a request is run as the request. -/
theorem run_eq {environment : Environment} {arguments : List String} {request : Request}
    (read : Request.inEnvironment environment arguments = .ok request) (input : Bytes)
    (files : FileSystem) :
    run environment arguments input files =
      (outcomeOf (request.attempt environment input files).1,
        (request.attempt environment input files).2) := by
  rw [run, read]
  change (match request.attempt environment input files with
    | (result, changed) => (match result with
      | .ok outcome => pure outcome
      | .error error => pure (.failed error) : StateM FileSystem Outcome) changed) = _
  rcases request.attempt environment input files with ⟨error | outcome, changed⟩ <;> rfl

namespace Request

variable {environment : Environment} {files : FileSystem} {request server : Request}

/-- Requests that name the same settings load the same ones. -/
theorem loadSettings_congr (same : server.settings = request.settings) :
    server.loadSettings environment = request.loadSettings environment := by
  rw [loadSettings, loadSettings, same]

/-- Settings that cannot be loaded refuse a request before anything changes. -/
theorem attempt_of_unreadable {error : Error}
    (unreadable : (request.loadSettings environment files).1 = .error error) (input : Bytes) :
    request.attempt environment input files = (.error error, files) := by
  have loaded : request.loadSettings environment files = (.error error, files) :=
    Prod.ext unreadable rfl
  rw [attempt, Attempt.bind_of_error loaded]

/-- Once its settings are loaded, a request is its task in a new session. -/
theorem attempt_of_loaded {settings : Settings}
    (readable : (request.loadSettings environment files).1 = .ok settings) (input : Bytes) :
    request.attempt environment input files =
      request.task.attempt (Session.start settings) environment input files := by
  have loaded : request.loadSettings environment files = (.ok settings, files) :=
    Prod.ext readable rfl
  rw [attempt, Attempt.bind_of_ok loaded]

/-- The command line and the server agree where names are UTF-8. With settings that cannot be
loaded neither of them does anything. Else the run and the server leave the same files, and the run
tells what the server answers in its line: it ends well exactly if the command is answered by what
it asks for, and then with the same list, and else it reports the message of the failure. -/
theorem run_agrees {arguments serving : List String} {command : Command}
    (read : inEnvironment environment arguments = .ok request)
    (asks : request.task.command? = some command)
    (readServer : inEnvironment environment serving = .ok server)
    (serves : server.task = .serve none) (sameSettings : server.settings = request.settings)
    (names : files.HasTextNames) (input : Bytes) :
    (∀ error, (request.loadSettings environment files).1 = .error error →
      run environment arguments input files = (.failed error, files) ∧
        run environment serving command.line files = (.failed error, files)) ∧
    ∀ settings, (request.loadSettings environment files).1 = .ok settings →
      ∃ response outcome answered after,
        (Session.start settings).answer environment command files = (response, after) ∧
        run environment arguments input files = (outcome, after) ∧
        run environment serving command.line files = (.success answered, after) ∧
        Utf8.encodeChars answered = response.toJson.bytes ++ [Line.newline] ∧
        Response.ofBytes response.toJson.bytes = .ok response ∧
        Tells request.task outcome response ∧
        (outcome.exitCode = 0 ↔ Fulfils command response) := by
  have sameLoaded : server.loadSettings environment = request.loadSettings environment :=
    loadSettings_congr sameSettings
  rw [run_eq read, run_eq readServer]
  constructor
  · intro error unreadable
    rw [attempt_of_unreadable unreadable, attempt_of_unreadable (sameLoaded ▸ unreadable)]
    exact ⟨rfl, rfl⟩
  · intro settings loaded
    rw [attempt_of_loaded loaded, attempt_of_loaded (sameLoaded ▸ loaded), serves]
    obtain ⟨response, after, answered, left, tells, isText⟩ :=
      Task.performs asks (Session.start settings) environment input names
    obtain ⟨output, served, written⟩ :=
      Task.serves (isText_of_inEnvironment read asks) answered isText
    exact ⟨response, _, output, after, answered, by rw [left], by rw [served]; rfl, written,
      Response.ofBytes_bytes isText, tells, tells.exitCode_eq_zero_iff asks⟩

/-- The one source of a project, as a run prints it. -/
theorem run_agrees_plain :
    ∃ output, run ⟨[], none, 1⟩ ["sources", "/p", "--json"] [] (Session.plainFiles "x\n") =
        (.success output, Session.plainFiles "x\n") ∧
      Reader.runWhole (Reader.listOf Reader.path) (Utf8.encodeChars output) =
        .ok [Session.plainModule] := by
  have read : inEnvironment ⟨[], none, 1⟩ ["sources", "/p", "--json"] =
    .ok ⟨false, none, .sources Session.plainRoot true⟩ := by decide +kernel
  have readServer : inEnvironment ⟨[], none, 1⟩ ["serve"] = .ok ⟨false, none, .serve none⟩ := by
    decide +kernel
  obtain ⟨response, outcome, -, after, answered, ran, -, -, -, tells, -⟩ :=
    (run_agrees read rfl readServer rfl rfl (by decide +kernel : (Session.plainFiles "x\n").HasTextNames)
      []).2 Settings.default rfl
  have listed : listSources (Session.plainFiles "x\n") Session.plainRoot = .ok [Session.plainModule] :=
    listSources_eq_ok_iff.mpr ⟨Session.plainRoot, Session.plain, Session.canonical_plainRoot _,
      Session.load_plain _, Session.run_plainSources _⟩
  rw [Session.answer_userSourceFiles_iff.mpr ⟨⟨Session.plainRoot, rfl, listed⟩, rfl⟩] at answered
  cases answered
  cases tells with
  | sourcesValue decoded => exact ⟨_, ran, decoded⟩

end Request

end CommandLine

end ElmWorkbench
