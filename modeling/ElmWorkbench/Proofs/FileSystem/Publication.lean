import ElmWorkbench.Proofs.FileSystem.Interleaving
import Mathlib
/-!
# What readers find

While files are written by any number of processes, a reader finds at each of their paths what stood
there to begin with or the complete contents of one of the writes (`AtomicWrite.readers_find_whole`).
A whole write is one of the ways in which its system calls can follow each other
(`AtomicWrite.Call.runs_write`). What is needed besides that the writes keep out of each other's way
is that the path of a write does not lie below itself: such a path leads through a directory that the
write creates in its place (`AtomicWrite.directory_in_own_place`).

What becomes of the fixed file systems below is computed by `cbv`, which takes the equations of strings
and bytes from the whole library.
-/

namespace ElmWorkbench

namespace FileSystem

variable {files changed : FileSystem} {path : Path} {location : Location}

/-- Contents that are written into a new file are all that it holds. -/
theorem writeAt_insert (proper : location ≠ []) (contents : Bytes) (mode : Nat) :
    (files.insert location (.file [] mode)).writeAt location 0 contents =
      files.insert location (.file contents mode) := by
  rw [writeAt, find?_insert_self proper]
  simp [overlay, insert_insert]

/-- A file is written by being opened, which leaves it empty, and written into. -/
theorem exists_open_of_overwrite {contents : Bytes}
    (written : files.overwrite path contents = .ok changed) :
    ∃ target opened, files.resolve true path = .ok target ∧
      files.overwrite path [] = .ok opened ∧ opened.writeAt target.location 0 contents = changed := by
  obtain ⟨target, resolved, further⟩ := Except.bind_eq_ok_iff.mp written
  refine ⟨target, ?_⟩
  rw [overwrite, resolved]
  cases target with
  | vacant location =>
    obtain rfl := Except.ok.inj further
    obtain ⟨accepted, limits, followed⟩ := Except.bind_eq_ok_iff.mp resolved
    obtain ⟨free, -⟩ := reaches_of_vacant (.file [] fileMode) (by simp) followed
    exact ⟨_, rfl, rfl, writeAt_insert (ne_nil_of_find? free (by simp)) _ _⟩
  | present location =>
    dsimp only at further
    split at further
    · next old mode found =>
      obtain rfl := Except.ok.inj further
      have proper : location ≠ [] := ne_nil_of_find? found (by simp)
      refine ⟨files.insert location (.file [] mode), rfl, ?_, writeAt_insert proper _ _⟩
      rw [Except.ok_bind]
      simp only [found]
      rfl
    · cases further

/-- Writing into an open file keeps the working directory. -/
theorem workingDirectory_writeAt (files : FileSystem) (place : Location) (offset : Nat)
    (bytes : Bytes) : (files.writeAt place offset bytes).workingDirectory = files.workingDirectory := by
  rw [writeAt]
  split <;> rfl

end FileSystem

namespace AtomicWrite

namespace Call

variable {call : Call} {files changed : FileSystem}

/-- The system calls of one write follow each other without those of another one. -/
inductive Runs (call : Call) : FileSystem → Stage → FileSystem → Stage → Prop where
  | refl {files : FileSystem} {stage : Stage} : Runs call files stage files stage
  | head {files middle after : FileSystem} {stage between next : Stage}
      (does : call.Does files stage middle between) (further : Runs call middle between after next) :
      Runs call files stage after next

variable {middle after : FileSystem} {stage between next : Stage}

/-- One system call is a run. -/
theorem Runs.single (does : call.Does files stage after next) : call.Runs files stage after next :=
  .head does .refl

/-- A run that is followed by a run is one run. -/
theorem Runs.trans (first : call.Runs files stage middle between)
    (second : call.Runs middle between after next) : call.Runs files stage after next := by
  induction first with
  | refl => exact second
  | head does further inductionHypothesis => exact .head does (inductionHypothesis second)

/-- A run goes on by one more system call. -/
theorem Runs.tail (first : call.Runs files stage middle between)
    (does : call.Does middle between after next) : call.Runs files stage after next :=
  first.trans (.single does)

/-- The preparation of a write is a run of its system calls. -/
theorem runs_prepare (call : Call) (files : FileSystem) :
    call.Runs files .preparing (prepare call.path files).2 .preparing := by
  refine prepare_related (fun before after => call.Runs before .preparing after .preparing)
    (fun _ => .refl) .trans call.path files fun parent found empty directory member => ?_
  intro before after created
  exact .single (.create (by simpa [around, found, empty] using member) created)

/-- An attempt takes a write from one stage to another one, or to one that can fail. -/
inductive Carries (call : Call) (files : FileSystem) (stage next : Stage) :
    Except Error Unit × FileSystem → Prop where
  | through {changed : FileSystem} (run : call.Runs files stage changed next) :
      Carries call files stage next (.ok (), changed)
  | stuck {changed : FileSystem} {error : Error} {reached : Stage} (possible : reached.CanFail)
      (run : call.Runs files stage changed reached) :
      Carries call files stage next (.error error, changed)

/-- Two attempts carry a write on one after the other. -/
theorem Carries.bind {stage middle next : Stage} {attempt : Attempt Unit} {rest : Unit → Attempt Unit}
    (first : call.Carries files stage middle (attempt files))
    (second : ∀ changed, call.Carries changed middle next (rest () changed)) :
    call.Carries files stage next ((attempt >>= rest) files) := by
  generalize done : attempt files = result at first
  cases first with
  | @through changed run =>
    rw [Attempt.bind_of_ok done]
    have further := second changed
    generalize rest () changed = last at further
    cases further with
    | through runToo => exact .through (run.trans runToo)
    | stuck possible runToo => exact .stuck possible (run.trans runToo)
  | stuck possible run =>
    rw [Attempt.bind_of_error done]
    exact .stuck possible run

/-- A system call that a write can make next carries it on, and it can fail there. -/
theorem carries_step {stage next : Stage} {path : Path}
    {change : FileSystem → Except SystemCause FileSystem} (possible : stage.CanFail)
    (does : ∀ changed, change files = .ok changed → call.Runs files stage changed next) :
    call.Carries files stage next (Attempt.step path change files) := by
  cases done : change files with
  | error cause =>
    rw [Attempt.step_of_error done]
    exact .stuck possible .refl
  | ok changed =>
    rw [Attempt.step_of_ok done]
    exact .through (does changed done)

/-- Overwriting the temporary file opens it and writes it. -/
theorem carries_overwrite (call : Call) (files : FileSystem) :
    call.Carries files .preparing .written (Attempt.step call.temporary
      (fun files => files.overwrite call.temporary call.contents) files) := by
  refine carries_step trivial fun changed written => ?_
  obtain ⟨target, opened, resolved, emptied, filled⟩ :=
    FileSystem.exists_open_of_overwrite written
  have opens : call.Does files .preparing opened (.writing target.location 0) :=
    .openTemporary resolved emptied
  have writes : call.Does opened (.writing target.location 0)
      (opened.writeAt target.location 0 ((call.contents.drop 0).take call.contents.length))
      (.writing target.location (0 + call.contents.length)) := .write (by simp)
  rw [List.drop_zero, List.take_length, filled, Nat.zero_add] at writes
  exact .tail (.tail (.single opens) writes) .finish

/-- Copying the mode carries a write to where only the move is left. -/
theorem carries_copyMode (call : Call) (files : FileSystem) :
    call.Carries files .written .moving (copyMode call.temporary call.path files) := by
  have looked : Attempt.look (fun files => .ok (files.mode? call.path)) files =
      (.ok (files.mode? call.path), files) := rfl
  rw [copyMode, Attempt.bind_of_ok looked]
  cases found : files.mode? call.path with
  | none => exact .through (.single (.skip found))
  | some mode =>
    have looks : call.Does files .written files (.changingMode mode) := .look found
    have carried : call.Carries files (.changingMode mode) .moving (Attempt.step call.temporary
        (fun files => files.changeMode call.temporary mode) files) :=
      carries_step trivial fun changed done => .single (.changeMode done)
    dsimp only
    generalize Attempt.step call.temporary _ files = result at carried ⊢
    cases carried with
    | through run => exact .through (.head looks run)
    | stuck possible run => exact .stuck possible (.head looks run)

/-- Replacing the file carries a write from its preparation to its end. -/
theorem carries_replace (call : Call) (files : FileSystem) :
    call.Carries files .preparing .done
      (replace call.temporary call.path call.contents files) :=
  (carries_overwrite call files).bind fun written => (carries_copyMode call written).bind
    fun _ => carries_step trivial fun _ moved => .single (.move moved)

/-- A whole write is a run of its system calls. -/
theorem runs_write (call : Call) (files : FileSystem) :
    call.Runs files .waiting (write call.processId call.path call.contents files).2 .done := by
  refine .head .begin ?_
  rw [write, show AtomicWrite.temporary call.processId call.path = call.temporary from rfl]
  have prepared := call.runs_prepare files
  generalize preparing : prepare call.path files = result at prepared
  obtain ⟨result, created⟩ := result
  cases result with
  | error error =>
    rw [Attempt.bind_of_error preparing]
    exact .tail prepared .leave
  | ok done =>
    rw [Attempt.bind_of_ok preparing]
    refine prepared.trans ?_
    have carried := call.carries_replace created
    generalize replacing : replace call.temporary call.path call.contents created = replaced at carried
    cases carried with
    | through run =>
      rw [cleaningUp_of_ok replacing]
      exact run
    | @stuck changed error reached possible run =>
      refine run.trans (.head (.fail possible) ?_)
      cases removed : changed.remove call.temporary with
      | error cause =>
        rw [cleaningUp_of_error replacing removed]
        exact .single .giveUp
      | ok cleaned =>
        rw [cleaningUp_of_removed replacing removed]
        exact .single (.remove removed)

/-- No system call of a write moves its process to another directory. -/
theorem Does.workingDirectory_eq (does : call.Does files stage after next) :
    after.workingDirectory = files.workingDirectory := by
  cases does with
  | create isAround created =>
    obtain ⟨location, named, free, rfl⟩ := FileSystem.exists_of_makeDirectory created
    rfl
  | openTemporary resolved opened =>
    obtain ⟨target, mode, resolvedAgain, rfl⟩ := FileSystem.exists_of_overwrite opened
    rfl
  | write more => exact FileSystem.workingDirectory_writeAt ..
  | changeMode done =>
    obtain ⟨location, resolved, ⟨contents, old, found, rfl⟩ | ⟨old, found, rfl⟩⟩ :=
      FileSystem.exists_of_changeMode done <;> rfl
  | move moved =>
    obtain ⟨source, location, entry, sourceNamed, named, found, rfl⟩ :=
      FileSystem.exists_of_rename moved
    rfl
  | remove removed =>
    obtain ⟨place, named, rfl⟩ := FileSystem.exists_of_remove removed
    rfl
  | begin | finish | look | skip | fail | leave | giveUp => rfl

end Call

/-! ## All writes -/

section Interleaving

variable {Index : Type} [DecidableEq Index] {calls : Index → Call} {files : FileSystem}
  {situation after : Situation Index}

/-- While no other write of its process is under way, a write may make a system call and go on from
there. -/
theorem Reached.of_act {index : Index} {now middle changed : FileSystem} {between next : Stage}
    {stages : Index → Stage} (reached : Reached calls files ⟨now, stages⟩)
    (alone : ∀ other, other ≠ index → (calls other).processId = (calls index).processId →
      (stages other).IsIdle)
    (does : (calls index).Does (now.seenFrom (calls index).start) (stages index) middle between)
    (further : ∀ {stages : Index → Stage}, stages index = between →
      (∀ other, other ≠ index → (calls other).processId = (calls index).processId →
        (stages other).IsIdle) → Reached calls files ⟨middle, stages⟩ →
      Reached calls files ⟨changed, Function.update stages index next⟩) :
    Reached calls files ⟨changed, Function.update stages index next⟩ := by
  have acts : Acts calls index ⟨now, stages⟩ ⟨middle, Function.update stages index between⟩ :=
    .act alone does
  have onwards := further (Function.update_self index between stages)
    (fun other different same => by
      rw [Function.update_of_ne different]
      exact alone other different same)
    (reached.tail ⟨index, acts⟩)
  rwa [Function.update_idem] at onwards

/-- While no other write of its process is under way, a write may run without the others. -/
theorem Reached.runs {index : Index} {now changed : FileSystem} {stage next : Stage}
    {stages : Index → Stage} (runs : (calls index).Runs now stage changed next)
    (start : now.workingDirectory = (calls index).start) (stands : stages index = stage)
    (alone : ∀ other, other ≠ index → (calls other).processId = (calls index).processId →
      (stages other).IsIdle)
    (reached : Reached calls files ⟨now, stages⟩) :
    Reached calls files ⟨changed, Function.update stages index next⟩ := by
  induction runs generalizing stages with
  | refl => rwa [← stands, Function.update_eq_self]
  | @head now _ _ _ _ _ does _ inductionHypothesis =>
    have seen : now.seenFrom (calls index).start = now := by
      rw [← start, FileSystem.seenFrom_workingDirectory]
    exact reached.of_act alone (by rwa [seen, stands])
      (inductionHypothesis (does.workingDirectory_eq.trans start))

/-- A write that runs without the others is among the interleavings. -/
theorem Reached.write {index : Index} (reached : Reached calls files situation)
    (waiting : situation.stage index = .waiting)
    (alone : ∀ other, other ≠ index → (calls other).processId = (calls index).processId →
      (situation.stage other).IsIdle) :
    Reached calls files
      ⟨(write (calls index).processId (calls index).path (calls index).contents
          (situation.files.seenFrom (calls index).start)).2,
        Function.update situation.stage index .done⟩ := by
  have runs := (calls index).runs_write (situation.files.seenFrom (calls index).start)
  generalize (AtomicWrite.write (calls index).processId (calls index).path (calls index).contents
    (situation.files.seenFrom (calls index).start)).2 = changed at runs ⊢
  obtain ⟨files, stages⟩ := situation
  cases runs with
  | @head _ middle _ _ between _ does further =>
    rw [← waiting] at does
    exact reached.of_act alone does (Reached.runs further does.workingDirectory_eq)

/-- At the location that the path of a write means stands what stood there to begin with, or a file
with the complete contents of a write to it. -/
theorem Coherent.whole (coherent : Coherent calls files situation) (apart : Apart calls files)
    (notOwn : ∀ {index location}, (calls index).Surrounds files location →
      ¬ (calls index).IsTarget files location)
    {index : Index} {location : Location} (isTarget : (calls index).IsTarget files location) :
    situation.files.find? location = files.find? location ∨
      ∃ other mode, (calls other).IsTarget files location ∧
        situation.files.find? location = some (.file (calls other).contents mode) := by
  rcases coherent.standing location with
    same | @⟨other, mode, targetToo, found⟩ | @⟨other, isTemporary, -, -⟩ | @⟨other, surrounds, -, -⟩
  · exact .inl same
  · exact .inr ⟨other, mode, targetToo, found⟩
  · by_cases own : index = other
    · subst own
      exact absurd isTemporary isTarget.not_isTemporary
    · exact absurd isTemporary (apart.temporary own isTarget)
  · by_cases own : other = index
    · subst own
      exact absurd isTarget (notOwn surrounds)
    · exact absurd isTarget (apart.belowTarget own surrounds)

/-- An entry that a system call changes is the temporary file or the target of its write. -/
theorem Acts.keeps {index : Index} (acts : Acts calls index situation after)
    (apart : Apart calls files) (coherent : Coherent calls files situation) {location : Location}
    {entry : Entry} (found : situation.files.find? location = some entry) :
    after.files.find? location = some entry ∨ (calls index).IsTarget files location ∨
      (calls index).IsTemporary files location := by
  obtain ⟨effect, -⟩ := acts.effect apart coherent
  cases effect with
  | nothing same => exact .inl ((same location).trans found)
  | @created place surrounds early free changed =>
    refine .inl ?_
    rwa [changed, if_neg]
    rintro rfl
    cases free.symm.trans found
  | @staged place put isTemporary begun isFile changed =>
    by_cases here : location = place
    · rw [here]
      exact .inr (.inr isTemporary)
    · exact .inl (by rwa [changed, if_neg here])
  | @published place target mode isTemporary isTarget begun changed =>
    by_cases here : location = target
    · rw [here]
      exact .inr (.inl isTarget)
    · by_cases there : location = place
      · rw [there]
        exact .inr (.inr isTemporary)
      · exact .inl (by rwa [changed, if_neg here, if_neg there])

/-- Whatever writes are under way and wherever they are stopped: at the location that the path of one
of them means stands the entry that stood there to begin with, or a file with the complete contents
of a write to it; this is where the path leads at any time; a further system call changes no entry
but the temporary file and the target of its own write; and a write that has not begun, while its
process is not inside of another one, may run as a whole. -/
theorem readers_find_whole (apart : Apart calls files)
    (notOwn : ∀ {index location}, (calls index).Surrounds files location →
      ¬ (calls index).IsTarget files location)
    (reached : Reached calls files situation) :
    (∀ index location, (calls index).IsTarget files location →
        situation.files.find? location = files.find? location ∨
          ∃ other mode, (calls other).IsTarget files location ∧
            situation.files.find? location = some (.file (calls other).contents mode)) ∧
      (∀ index location,
        (situation.files.seenFrom (calls index).start).place? (calls index).path = some location →
          (calls index).IsTarget files location) ∧
      (∀ index after location entry, Acts calls index situation after →
        situation.files.find? location = some entry →
          after.files.find? location = some entry ∨ (calls index).IsTarget files location ∨
            (calls index).IsTemporary files location) ∧
      ∀ index, situation.stage index = .waiting →
        (∀ other, other ≠ index → (calls other).processId = (calls index).processId →
          (situation.stage other).IsIdle) →
        Reached calls files
          ⟨(write (calls index).processId (calls index).path (calls index).contents
              (situation.files.seenFrom (calls index).start)).2,
            Function.update situation.stage index .done⟩ := by
  have coherent := reached.coherent apart
  refine ⟨fun index location isTarget => coherent.whole apart notOwn isTarget,
    fun index location named => coherent.means named,
    fun index after location entry acts found => acts.keeps apart coherent found,
    fun index waiting alone => reached.write waiting alone⟩

end Interleaving

/-! ## Two writes of one file -/

/-- A file system without entries. -/
def bare : FileSystem := ⟨[], []⟩

/-- Two processes write one file. -/
def rivals (first : Bool) : Call :=
  { processId := if first then 1 else 2
    start := []
    path := Path.ofString "/t"
    contents := Utf8.encode (if first then "first" else "second") }

/-- Both writes mean the one file. -/
theorem isTarget_rivals {first : Bool} {location : Location}
    (isTarget : (rivals first).IsTarget bare location) : location = [Utf8.encode "t"] := by
  obtain ⟨later, -, named⟩ := isTarget
  obtain ⟨-, front, name, slash, directory, left, splitting, reaches, -, rfl⟩ :=
    FileSystem.place?_eq_some_iff.mp named
  have split : FileSystem.splitEnding (rivals first).path.parts =
      ([[]], .name (Utf8.encode "t") false) := by
    cases first <;> decide +kernel
  rw [split] at splitting
  obtain ⟨rfl, named⟩ := Prod.mk.inj splitting
  obtain ⟨rfl, -⟩ := Ending.name.inj named
  obtain ⟨rfl, -⟩ := reaches.eq_of_void (by decide)
  rfl

/-- Neither write has a directory to create. -/
theorem not_surrounds_rivals {first : Bool} {location : Location} :
    ¬ (rivals first).Surrounds bare location := by
  rintro ⟨directory, around, later, -, named⟩
  obtain ⟨-, front, name, slash, -, -, splitting, -⟩ := FileSystem.place?_eq_some_iff.mp named
  have listed : (rivals first).around = [Path.ofString "/"] := by
    cases first <;> decide +kernel
  rw [listed, List.mem_singleton] at around
  rw [around, show FileSystem.splitEnding (Path.ofString "/").parts = ([[], []], .special) by
    decide +kernel] at splitting
  cases splitting

/-- The bare file system has no links. -/
theorem find?_bare {location : Location} {target : Path} :
    bare.find? location ≠ some (.link target) := by
  rw [FileSystem.find?]
  split <;> simp [bare]

/-- The two writes do not get in each other's way. -/
theorem apart_rivals : Apart rivals bare where
  temporary {first second location} _ isTarget isTemporary := by
    have named := isTemporary.getLast?_eq
    rw [isTarget_rivals isTarget] at named
    revert named
    cases second <;> decide +kernel
  belowTarget _ surrounds := absurd surrounds not_surrounds_rivals
  belowTemporary _ surrounds := absurd surrounds not_surrounds_rivals
  noLink _ := find?_bare

/-- The two writes are by two processes. -/
theorem rivals_injective {first other : Bool}
    (same : (rivals other).processId = (rivals first).processId) : other = first := by
  revert same
  cases first <;> cases other <;> decide

/-- What a system call of one write does, it does among the two writes as well. -/
theorem acts_rivals {files changed : FileSystem} {stages : Bool → Stage} {first : Bool} {next : Stage}
    (does : (rivals first).Does (files.seenFrom []) (stages first) changed next) :
    Acts rivals first ⟨files, stages⟩ ⟨changed, Function.update stages first next⟩ :=
  .act (fun _ different same => absurd (rivals_injective same) different) does

/-- The file system after the first write. -/
def written : FileSystem :=
  ⟨[([Utf8.encode "t"], .file (Utf8.encode "first") fileMode)], []⟩

/-- One of the writes is through, the other one has written half of its contents. -/
def midway : Situation Bool where
  files := ⟨[([Utf8.encode ".t.2.tmp"], .file (Utf8.encode "sec") fileMode),
    ([Utf8.encode "t"], .file (Utf8.encode "first") fileMode)], []⟩
  stage first := if first then .done else .writing [Utf8.encode ".t.2.tmp"] 3

/-- The first write on its own leaves what is written here. -/
theorem write_rival : (write (rivals true).processId (rivals true).path (rivals true).contents
    (bare.seenFrom (rivals true).start)).2 = written := by
  cbv

/-- The situation in which one write is through and the other one halfway is reached. -/
theorem reached_midway : Reached rivals bare midway := by
  have waiting : Reached rivals bare ⟨bare, fun _ => .waiting⟩ := .refl
  -- The first write runs as a whole, the second one up to the middle of its contents.
  have through := waiting.write rfl fun other (different : other ≠ true) same =>
    absurd (rivals_injective same) different
  rw [write_rival] at through
  have resolved : written.resolve true (rivals false).temporary =
      .ok (.vacant [Utf8.encode ".t.2.tmp"]) := by cbv
  have opened : written.overwrite (rivals false).temporary [] =
      .ok (written.insert [Utf8.encode ".t.2.tmp"] (.file [] fileMode)) := by cbv
  have filled : (written.insert [Utf8.encode ".t.2.tmp"] (.file [] fileMode)).writeAt
      [Utf8.encode ".t.2.tmp"] 0 (((rivals false).contents.drop 0).take 3) = midway.files := by cbv
  have fills : (rivals false).Does (written.insert [Utf8.encode ".t.2.tmp"] (.file [] fileMode))
      (.writing [Utf8.encode ".t.2.tmp"] 0) midway.files (.writing [Utf8.encode ".t.2.tmp"] (0 + 3)) := by
    rw [← filled]
    exact .write (by decide +kernel)
  have last := ((through.tail ⟨false, acts_rivals .begin⟩).tail
    ⟨false, acts_rivals (.openTemporary resolved opened)⟩).tail ⟨false, acts_rivals fills⟩
  have stages : (fun first => if first then Stage.done else .writing [Utf8.encode ".t.2.tmp"] 3) =
      Function.update (Function.update (Function.update (Function.update (fun _ => Stage.waiting)
        true .done) false .preparing) false (.writing [Utf8.encode ".t.2.tmp"] 0)) false
        (.writing [Utf8.encode ".t.2.tmp"] (0 + 3)) := by
    funext first
    cases first <;> rfl
  rw [midway, stages]
  exact last

/-- The reader finds what the first process has written while the second one writes. -/
theorem readers_find_whole_midway :
    Apart rivals bare ∧ (∀ {first location}, (rivals first).Surrounds bare location →
        ¬ (rivals first).IsTarget bare location) ∧ Reached rivals bare midway ∧
      ((∀ first location, (rivals first).IsTarget bare location →
          midway.files.find? location = bare.find? location ∨
            ∃ other mode, (rivals other).IsTarget bare location ∧
              midway.files.find? location = some (.file (rivals other).contents mode)) ∧
        (∀ first location,
          (midway.files.seenFrom (rivals first).start).place? (rivals first).path = some location →
            (rivals first).IsTarget bare location)) := by
  have notOwn {first : Bool} {location : Location} (surrounds : (rivals first).Surrounds bare location) :
      ¬ (rivals first).IsTarget bare location := absurd surrounds not_surrounds_rivals
  obtain ⟨whole, named, -⟩ := readers_find_whole apart_rivals notOwn reached_midway
  exact ⟨apart_rivals, notOwn, reached_midway, whole, named⟩

/-! ## A path through its own place -/

/-- A path that leads through the place it names. -/
def throughItself : Call where
  processId := 1
  start := []
  path := Path.ofString "x/../x"
  contents := Utf8.encode "text"

/-- What the path means as soon as its own write has created a directory there. -/
theorem isTarget_throughItself : throughItself.IsTarget bare [Utf8.encode "x"] := by
  obtain ⟨later, grows, -, stands⟩ :=
    (FileSystem.Grows.refl bare).exists_create (by decide : bare.find? [Utf8.encode "x"] = none)
  refine ⟨later.seenFrom [], grows.seenFrom [], FileSystem.place?_eq_some_iff.mpr
    ⟨FileSystem.checkLimits_eq_ok_iff.mpr (by decide +kernel), [Utf8.encode "x", Path.dotDot], Utf8.encode "x", false, [], linkLimit,
      by decide +kernel, ?_, rfl, rfl⟩⟩
  have isName : Path.IsName (Utf8.encode "x") := ⟨by decide +kernel, by decide +kernel⟩
  have origin : (later.seenFrom []).origin throughItself.path = [] := by
    rw [FileSystem.origin, show throughItself.path.isAbsolute = false by decide +kernel]
    rfl
  rw [origin]
  refine .enter rfl isName (by decide +kernel) stands (by simp) (.leave ?_ .done)
  rw [FileSystem.hasDirectory, FileSystem.find?_seenFrom, List.nil_append, stands]

/-- A path that lies below itself leads through a directory that its write creates in its place. -/
theorem directory_in_own_place :
    Apart (fun _ : Unit => throughItself) bare ∧
      ¬ ∀ situation, Reached (fun _ : Unit => throughItself) bare situation →
        ∀ location, throughItself.IsTarget bare location →
          situation.files.find? location = bare.find? location ∨
            ∃ mode, situation.files.find? location = some (.file throughItself.contents mode) := by
  refine ⟨⟨fun different => absurd rfl different, fun different => absurd rfl different,
    fun different => absurd rfl different, fun _ => find?_bare⟩, fun whole => ?_⟩
  have around : Path.ofString "x" ∈ throughItself.around := by decide +kernel
  have created : (bare.seenFrom []).makeDirectory (Path.ofString "x") =
      .ok (bare.insert [Utf8.encode "x"] (.directory directoryMode)) := by cbv
  have waiting : Reached (fun _ : Unit => throughItself) bare ⟨bare, fun _ => .waiting⟩ := .refl
  have reached := (waiting.tail ⟨(), .act (fun _ different => absurd rfl different) .begin⟩).tail
    ⟨(), .act (fun _ different => absurd rfl different) (.create around created)⟩
  rcases whole _ reached _ isTarget_throughItself with same | ⟨mode, isFile⟩
  · revert same
    decide
  · rw [FileSystem.find?_insert_self (by simp)] at isFile
    cases isFile

end AtomicWrite

end ElmWorkbench
