import ElmWorkbench.Proofs.FileSystem.AtomicWrite
import ElmWorkbench.Proofs.FileSystem.Growth
import Mathlib.Logic.Function.Basic
import Mathlib.Logic.Relation
/-!
# Atomic writes that are interleaved

Processes write files at the same time in one file system. Each write is taken apart into the system
calls that it consists of, any of which may fail, and these are interleaved in any order; the
situations that are reached this way are also those in which all processes are stopped.
-/

namespace ElmWorkbench

namespace FileSystem

/-! ## Open files -/

/-- What a file holds after bytes were written into it from an offset on. A gap before them is filled
with zeros. -/
def overlay (current : Bytes) (offset : Nat) (bytes : Bytes) : Bytes :=
  (current ++ List.replicate (offset - current.length) 0).take offset ++ bytes ++
    current.drop (offset + bytes.length)

/-- Write bytes into the file that was opened at a place. If it is gone from there nobody sees
them. -/
def writeAt (files : FileSystem) (place : Location) (offset : Nat) (bytes : Bytes) : FileSystem :=
  match files.find? place with
  | some (.file current mode) => files.insert place (.file (overlay current offset bytes) mode)
  | _ => files

end FileSystem

namespace AtomicWrite

/-! ## One write -/

/-- A write by a process, which works in a directory of its own. -/
structure Call where
  processId : Nat
  start : Location
  path : Path
  contents : Bytes

/-- How far a write has come. -/
inductive Stage where
  /-- The write has not begun. -/
  | waiting
  /-- The directories around the path are created. -/
  | preparing
  /-- The temporary file is open and so much of the contents is in it. -/
  | writing (place : Location) (written : Nat)
  /-- The temporary file holds the contents. -/
  | written
  /-- The temporary file is to get a mode. -/
  | changingMode (mode : Nat)
  /-- The temporary file is to be moved. -/
  | moving
  /-- Something has failed and the temporary file is to be removed. -/
  | cleaning
  /-- The write has returned. -/
  | done
  deriving DecidableEq

namespace Stage

/-- The process is not inside of the write. -/
def IsIdle (stage : Stage) : Prop := stage = .waiting ∨ stage = .done

/-- No temporary file was opened so far. -/
def IsEarly (stage : Stage) : Prop := stage = .waiting ∨ stage = .preparing

/-- Something that the write depends on may still fail. -/
def CanFail : Stage → Prop
  | .waiting | .cleaning | .done => False
  | _ => True

end Stage

namespace Call

/-- The temporary file of a write. -/
def temporary (call : Call) : Path :=
  AtomicWrite.temporary call.processId call.path

/-- The directories that a write creates if they are missing, the innermost first. -/
def around (call : Call) : List Path :=
  match call.path.parent? with
  | some parent => if parent.bytes = [] then [] else Attempt.ancestors parent.bytes.length parent
  | none => []

/-- One system call of a write, on the file system as its process sees it. -/
inductive Does (call : Call) : FileSystem → Stage → FileSystem → Stage → Prop where
  | begin {files : FileSystem} : Does call files .waiting files .preparing
  | create {files changed : FileSystem} {directory : Path} (isAround : directory ∈ call.around)
      (created : files.makeDirectory directory = .ok changed) :
      Does call files .preparing changed .preparing
  | openTemporary {files changed : FileSystem} {target : Target}
      (resolved : files.resolve true call.temporary = .ok target)
      (opened : files.overwrite call.temporary [] = .ok changed) :
      Does call files .preparing changed (.writing target.location 0)
  | write {files : FileSystem} {place : Location} {written count : Nat}
      (more : written + count ≤ call.contents.length) :
      Does call files (.writing place written)
        (files.writeAt place written ((call.contents.drop written).take count))
        (.writing place (written + count))
  | finish {files : FileSystem} {place : Location} :
      Does call files (.writing place call.contents.length) files .written
  | look {files : FileSystem} {mode : Nat} (found : files.mode? call.path = some mode) :
      Does call files .written files (.changingMode mode)
  | skip {files : FileSystem} (found : files.mode? call.path = none) :
      Does call files .written files .moving
  | changeMode {files changed : FileSystem} {mode : Nat}
      (done : files.changeMode call.temporary mode = .ok changed) :
      Does call files (.changingMode mode) changed .moving
  | move {files changed : FileSystem} (moved : files.rename call.temporary call.path = .ok changed) :
      Does call files .moving changed .done
  | fail {files : FileSystem} {stage : Stage} (possible : stage.CanFail) :
      Does call files stage files .cleaning
  /-- A missing directory that cannot be created ends the write before it has a temporary file. -/
  | leave {files : FileSystem} : Does call files .preparing files .done
  | remove {files changed : FileSystem} (removed : files.remove call.temporary = .ok changed) :
      Does call files .cleaning changed .done
  | giveUp {files : FileSystem} : Does call files .cleaning files .done

end Call

/-! ## Many writes -/

/-- The file system and how far each write has come. From which directory the file system is seen
plays no part. -/
structure Situation (Index : Type) where
  files : FileSystem
  stage : Index → Stage

section Interleaving

variable {Index : Type} [DecidableEq Index] (calls : Index → Call)

/-- One of the writes goes on by one system call. A process is inside of one write at a time. -/
inductive Acts (index : Index) : Situation Index → Situation Index → Prop where
  | act {situation : Situation Index} {changed : FileSystem} {next : Stage}
      (alone : ∀ other, other ≠ index → (calls other).processId = (calls index).processId →
        (situation.stage other).IsIdle)
      (does : (calls index).Does (situation.files.seenFrom (calls index).start)
        (situation.stage index) changed next) :
      Acts index situation ⟨changed, Function.update situation.stage index next⟩

/-- The situations that writes come to by any interleaving of their system calls. -/
def Reached (files : FileSystem) (situation : Situation Index) : Prop :=
  Relation.ReflTransGen (fun before after => ∃ index, Acts calls index before after)
    ⟨files, fun _ => .waiting⟩ situation

end Interleaving

/-! ## The locations of a write -/

namespace Call

variable {call other : Call} {files before after : FileSystem} {location : Location}

/-- The path of a write means a location. -/
def IsTarget (call : Call) (files : FileSystem) (location : Location) : Prop :=
  (files.seenFrom call.start).Means call.path location

/-- The temporary file of a write is to stand at a location. -/
def IsTemporary (call : Call) (files : FileSystem) (location : Location) : Prop :=
  (files.seenFrom call.start).Means call.temporary location

/-- One of the directories that a write creates is to stand at a location. -/
def Surrounds (call : Call) (files : FileSystem) (location : Location) : Prop :=
  ∃ directory ∈ call.around, (files.seenFrom call.start).Means directory location

/-- The location of a temporary file ends with its name. -/
theorem IsTemporary.getLast?_eq (isTemporary : call.IsTemporary files location) :
    location.getLast? = some (temporaryBytes call.processId call.path) := by
  obtain ⟨later, -, named⟩ := isTemporary
  obtain ⟨-, front, name, slash, directory, left, splitting, -, -, rfl⟩ :=
    FileSystem.place?_eq_some_iff.mp named
  obtain ⟨parents, parts⟩ := exists_parts_temporary call.processId call.path
  rw [temporary, parts, FileSystem.splitEnding_concat (isName_temporaryBytes _ _)] at splitting
  cases splitting
  exact List.getLast?_concat

/-- Temporary files of different processes stand at different locations. -/
theorem IsTemporary.ne {place : Location} (different : call.processId ≠ other.processId)
    (isTemporary : call.IsTemporary files location) (otherIs : other.IsTemporary files place) :
    location ≠ place := by
  rintro rfl
  have names := isTemporary.getLast?_eq
  rw [otherIs.getLast?_eq] at names
  exact different (processId_eq_of_temporaryBytes (Option.some.inj names)).symm

/-- No write has its temporary file where its path leads. -/
theorem IsTarget.not_isTemporary (isTarget : call.IsTarget files location) :
    ¬ call.IsTemporary files location := by
  intro isTemporary
  have named := FileSystem.Means.getLast?_eq isTarget
  rw [isTemporary.getLast?_eq] at named
  exact temporaryBytes_ne_fileName named call.processId rfl

/-! ## What one system call does -/

/-- What the temporary file of a write holds while it is not moved. -/
def Holds (call : Call) (files now : FileSystem) : Stage → Prop
  | .writing place written => call.IsTemporary files place ∧
      ∃ mode, now.find? place = some (.file (call.contents.take written) mode)
  | .written | .changingMode _ | .moving => ∃ place mode, call.IsTemporary files place ∧
      now.find? place = some (.file call.contents mode)
  | _ => True

/-- What one system call of a write does to the entries. `files` is the file system to begin with,
which tells what the paths mean. -/
inductive Effect (call : Call) (files before after : FileSystem) (next : Stage) : Prop where
  | nothing (same : ∀ other, after.find? other = before.find? other)
  | created {location : Location} (surrounds : call.Surrounds files location)
      (early : next.IsEarly) (free : before.find? location = none)
      (changed : ∀ other, after.find? other =
        if other = location then some (.directory directoryMode) else before.find? other)
  | staged {place : Location} {found : Option Entry} (isTemporary : call.IsTemporary files place)
      (begun : ¬ next.IsEarly)
      (isFile : ∀ entry, found = some entry → ∃ contents mode, entry = .file contents mode)
      (changed : ∀ other, after.find? other = if other = place then found else before.find? other)
  | published {place location : Location} {mode : Nat} (isTemporary : call.IsTemporary files place)
      (isTarget : call.IsTarget files location) (begun : ¬ next.IsEarly)
      (changed : ∀ other, after.find? other =
        if other = location then some (.file call.contents mode)
        else if other = place then none else before.find? other)

/-- Writing the next bytes behind what was written so far gives a longer beginning of the
contents. -/
theorem overlay_take {contents : Bytes} {written count : Nat}
    (more : written + count ≤ contents.length) :
    FileSystem.overlay (contents.take written) written ((contents.drop written).take count) =
      contents.take (written + count) := by
  have length : (contents.take written).length = written := by
    rw [List.length_take]
    omega
  have behind : (contents.take written).drop
      (written + ((contents.drop written).take count).length) = [] :=
    List.drop_eq_nil_of_le (by omega)
  rw [FileSystem.overlay, length, Nat.sub_self, List.replicate_zero, List.append_nil, behind,
    List.append_nil, List.take_of_length_le (Nat.le_of_eq length), List.take_add]

/-- A file that is put in the place of the temporary file changes nothing else. -/
theorem effect_insert {place : Location} {contents : Bytes} {mode : Nat} {next : Stage}
    (isTemporary : call.IsTemporary files place) (begun : ¬ next.IsEarly) :
    call.Effect files before ((before.seenFrom call.start).insert place (.file contents mode))
      next := by
  refine .staged isTemporary begun (fun entry isFile => ?_)
    (FileSystem.find?_insert isTemporary.ne_nil _)
  obtain rfl := Option.some.inj isFile
  exact ⟨contents, mode, rfl⟩

/-- The temporary file is opened where its path names a place, since no link stands there. -/
theorem isTemporary_of_resolve {target : Target}
    (means : ∀ {path location}, (before.seenFrom call.start).place? path = some location →
      (files.seenFrom call.start).Means path location)
    (noLink : ∀ {location target}, call.IsTemporary files location →
      before.find? location ≠ some (.link target))
    (resolved : (before.seenFrom call.start).resolve true call.temporary = .ok target) :
    call.IsTemporary files target.location := by
  obtain ⟨front, parts⟩ : ∃ front, call.temporary.parts = front ++ [_] :=
    exists_parts_temporary call.processId call.path
  have unlinked : ∀ place link, (before.seenFrom call.start).place? call.temporary = some place →
      (before.seenFrom call.start).find? place ≠ some (.link link) :=
    fun _ _ named => noLink (means named)
  obtain ⟨place, named, rfl | rfl⟩ := FileSystem.exists_place_of_resolve parts
    (isName_temporaryBytes _ _) unlinked resolved
  · exact means named
  · exact means named

/-- A write whose temporary file holds what it should changes nothing but the entry that its system
call is for, and keeps to what its temporary file should hold. -/
theorem Does.effect {stage next : Stage} (does : call.Does (before.seenFrom call.start) stage after next)
    (means : ∀ {path location}, (before.seenFrom call.start).place? path = some location →
      (files.seenFrom call.start).Means path location)
    (noLink : ∀ {location target}, call.IsTemporary files location →
      before.find? location ≠ some (.link target))
    (holds : call.Holds files before stage) :
    call.Effect files before after next ∧ call.Holds files after next := by
  cases does with
  | begin | fail | leave | giveUp => exact ⟨.nothing fun _ => rfl, trivial⟩
  | create isAround created =>
    obtain ⟨location, named, free, rfl⟩ := FileSystem.exists_of_makeDirectory created
    exact ⟨.created ⟨_, isAround, means named⟩ (.inr rfl) free
      (FileSystem.find?_insert (FileSystem.ne_nil_of_place? named) _), trivial⟩
  | openTemporary resolved opened =>
    obtain ⟨target, mode, resolvedAgain, rfl⟩ := FileSystem.exists_of_overwrite opened
    obtain rfl := Except.ok.inj (resolved.symm.trans resolvedAgain)
    have isTemporary := isTemporary_of_resolve means noLink resolved
    refine ⟨effect_insert isTemporary (by simp [Stage.IsEarly]), isTemporary, mode, ?_⟩
    rw [FileSystem.find?_insert_self isTemporary.ne_nil, List.take_zero]
  | @write place written count more =>
    obtain ⟨isTemporary, mode, found⟩ := holds
    -- What has been written so far is the front of the contents, so the file grows by the next piece.
    have overwritten : (before.seenFrom call.start).writeAt place written
        ((call.contents.drop written).take count) =
        (before.seenFrom call.start).insert place
          (.file (call.contents.take (written + count)) mode) := by
      rw [FileSystem.writeAt, FileSystem.find?_seenFrom, found]
      dsimp only
      rw [overlay_take more]
    rw [overwritten]
    exact ⟨effect_insert isTemporary (by simp [Stage.IsEarly]), isTemporary, mode,
      FileSystem.find?_insert_self isTemporary.ne_nil⟩
  | @finish place =>
    obtain ⟨isTemporary, mode, found⟩ := holds
    rw [List.take_length] at found
    exact ⟨.nothing fun _ => rfl, place, mode, isTemporary, found⟩
  | look | skip => exact ⟨.nothing fun _ => rfl, holds⟩
  | changeMode done =>
    obtain ⟨place, mode, isTemporary, found⟩ := holds
    obtain ⟨location, resolved, further⟩ := FileSystem.exists_of_changeMode done
    -- The path of the temporary file still leads to the file that was written.
    obtain rfl : place = location := isTemporary.unique (isTemporary_of_resolve means noLink resolved)
    obtain ⟨contents, old, foundAgain, rfl⟩ :=
      further.resolve_right fun ⟨_, isDirectory, _⟩ => by simp [found] at isDirectory
    obtain ⟨rfl, -⟩ : contents = call.contents ∧ old = mode := by
      simpa using foundAgain.symm.trans found
    exact ⟨effect_insert isTemporary (by simp [Stage.IsEarly]), place, _, isTemporary,
      FileSystem.find?_insert_self isTemporary.ne_nil⟩
  | move moved =>
    obtain ⟨place, mode, isTemporary, found⟩ := holds
    obtain ⟨source, location, entry, sourceNamed, named, foundAgain, rfl⟩ :=
      FileSystem.exists_of_rename moved
    obtain rfl : place = source := isTemporary.unique (means sourceNamed)
    obtain rfl := Option.some.inj (foundAgain.symm.trans found)
    have changed (other : Location) : (((before.seenFrom call.start).erase place).insert location
        (.file call.contents mode)).find? other = if other = location then
          some (.file call.contents mode) else if other = place then none else before.find? other := by
      rw [FileSystem.find?_insert (FileSystem.ne_nil_of_place? named),
        FileSystem.find?_erase isTemporary.ne_nil, FileSystem.find?_seenFrom]
    exact ⟨.published isTemporary (means named) (by simp [Stage.IsEarly]) changed, trivial⟩
  | remove removed =>
    obtain ⟨place, named, rfl⟩ := FileSystem.exists_of_remove removed
    exact ⟨.staged (means named) (by simp [Stage.IsEarly]) (by simp)
      (FileSystem.find?_erase (FileSystem.ne_nil_of_place? named)), trivial⟩

/-- A write does not come back to where it had no temporary file. -/
theorem Does.begun {stage next : Stage} (does : call.Does before stage after next)
    (begun : ¬ stage.IsEarly) : ¬ next.IsEarly := by
  cases does <;> simp_all [Stage.IsEarly]

/-- What the temporary file holds depends only on what stands at its location. -/
theorem Holds.congr {now : FileSystem} {stage : Stage} (holds : call.Holds files before stage)
    (same : ∀ place, call.IsTemporary files place → now.find? place = before.find? place) :
    call.Holds files now stage := by
  cases stage with
  | writing place written =>
    obtain ⟨isTemporary, mode, found⟩ := holds
    exact ⟨isTemporary, mode, (same place isTemporary).trans found⟩
  | written | changingMode | moving =>
    obtain ⟨place, mode, isTemporary, found⟩ := holds
    exact ⟨place, mode, isTemporary, (same place isTemporary).trans found⟩
  | waiting | preparing | cleaning | done => trivial

/-- A write that is not going on has no temporary file that holds something. -/
theorem holds_of_isIdle {stage : Stage} (idle : stage.IsIdle) (now : FileSystem) :
    call.Holds files now stage := by
  rcases idle with rfl | rfl <;> trivial

end Call

/-! ## What all system calls keep -/

section Interleaving

variable {Index : Type}

/-- The writes do not get in each other's way: no path means the temporary file of another write or
lies below the path or the temporary file of another write, and no temporary file is a link to begin
with. -/
structure Apart (calls : Index → Call) (files : FileSystem) : Prop where
  temporary : ∀ {index other location}, index ≠ other → (calls index).IsTarget files location →
    ¬ (calls other).IsTemporary files location
  belowTarget : ∀ {index other location}, index ≠ other → (calls index).Surrounds files location →
    ¬ (calls other).IsTarget files location
  belowTemporary : ∀ {index other location}, index ≠ other → (calls index).Surrounds files location →
    ¬ (calls other).IsTemporary files location
  noLink : ∀ {index location target}, (calls index).IsTemporary files location →
    files.find? location ≠ some (.link target)

/-- What stands at a location while writes go on: the entry that stood there to begin with, a file
that was published as a whole, a temporary file, or a directory that was created. -/
inductive Standing (calls : Index → Call) (files : FileSystem) (situation : Situation Index)
    (location : Location) : Prop where
  | unchanged (same : situation.files.find? location = files.find? location)
  | published {index : Index} {mode : Nat} (isTarget : (calls index).IsTarget files location)
      (found : situation.files.find? location = some (.file (calls index).contents mode))
  | temporary {index : Index} (isTemporary : (calls index).IsTemporary files location)
      (begun : ¬ (situation.stage index).IsEarly)
      (isFile : ∀ entry, situation.files.find? location = some entry →
        ∃ contents mode, entry = .file contents mode)
  | created {index : Index} (surrounds : (calls index).Surrounds files location)
      (free : files.find? location = none)
      (found : situation.files.find? location = some (.directory directoryMode))

/-- What holds in all situations that are reached: each location is accounted for, temporary files
hold what their writes have put there, and directories and links stand where the file system could
have grown to have them. -/
structure Coherent (calls : Index → Call) (files : FileSystem) (situation : Situation Index) :
    Prop where
  standing : ∀ location, Standing calls files situation location
  holds : ∀ index, (calls index).Holds files situation.files (situation.stage index)
  grown : ∃ later, files.Grows later ∧ ∀ {location entry},
    situation.files.find? location = some entry → (∀ contents mode, entry ≠ .file contents mode) →
      later.find? location = some entry

variable {calls : Index → Call} {files : FileSystem} {situation after : Situation Index}

/-- Before any write has begun the situation is coherent. -/
theorem Coherent.initial (calls : Index → Call) (files : FileSystem) :
    Coherent calls files ⟨files, fun _ => .waiting⟩ where
  standing _ := .unchanged rfl
  holds _ := trivial
  grown := ⟨files, .refl files, fun found _ => found⟩

/-- A path names no place but the one that it meant to begin with. -/
theorem Coherent.means (coherent : Coherent calls files situation) {start : Location} {path : Path}
    {location : Location} (named : (situation.files.seenFrom start).place? path = some location) :
    (files.seenFrom start).Means path location := by
  obtain ⟨later, grows, kept⟩ := coherent.grown
  have passes : (situation.files.seenFrom start).Passes (later.seenFrom start) := ⟨rfl, kept⟩
  exact passes.means (grows.seenFrom start) named

/-- No link stands in the place of a temporary file. -/
theorem Coherent.noLink (coherent : Coherent calls files situation) (apart : Apart calls files)
    {index : Index} {location : Location} (isTemporary : (calls index).IsTemporary files location)
    (target : Path) : situation.files.find? location ≠ some (.link target) := by
  intro isLink
  rcases coherent.standing location with same | ⟨-, found⟩ | ⟨-, -, isFile⟩ | ⟨-, -, found⟩
  · exact apart.noLink isTemporary (same.symm.trans isLink)
  · cases isLink.symm.trans found
  · obtain ⟨contents, mode, whole⟩ := isFile _ isLink
    cases whole
  · cases isLink.symm.trans found

/-- Where a directory is created while a write prepares, nothing stood to begin with. -/
theorem Coherent.free (coherent : Coherent calls files situation) (apart : Apart calls files)
    {index : Index} {location : Location} (surrounds : (calls index).Surrounds files location)
    (early : (situation.stage index).IsEarly) (free : situation.files.find? location = none) :
    files.find? location = none := by
  rcases coherent.standing location with
    same | ⟨-, found⟩ | @⟨other, isTemporary, begun, -⟩ | ⟨-, nothing, -⟩
  · exact same.symm.trans free
  · cases free.symm.trans found
  · by_cases own : index = other
    · subst own
      exact absurd early begun
    · exact absurd isTemporary (apart.belowTemporary own surrounds)
  · exact nothing

/-- What one location is accounted for by does not depend on changes elsewhere. -/
theorem Standing.congr {location : Location} (standing : Standing calls files situation location)
    (same : after.files.find? location = situation.files.find? location)
    (begun : ∀ index, ¬ (situation.stage index).IsEarly → ¬ (after.stage index).IsEarly) :
    Standing calls files after location := by
  rcases standing with unchanged | ⟨isTarget, found⟩ | ⟨isTemporary, already, isFile⟩ |
    ⟨surrounds, free, found⟩
  · exact .unchanged (same.trans unchanged)
  · exact .published isTarget (same.trans found)
  · exact .temporary isTemporary (begun _ already) (by rwa [same])
  · exact .created surrounds free (same.trans found)

variable [DecidableEq Index]

/-- A write that has opened its temporary file does not go back. -/
theorem Acts.begun {index : Index} (acts : Acts calls index situation after) (other : Index)
    (begun : ¬ (situation.stage other).IsEarly) : ¬ (after.stage other).IsEarly := by
  obtain ⟨alone, does⟩ := acts
  by_cases own : other = index
  · subst own
    simpa using does.begun begun
  · simpa [own] using begun

/-- A system call changes the entries as its write may. -/
theorem Acts.effect {index : Index} (acts : Acts calls index situation after)
    (apart : Apart calls files) (coherent : Coherent calls files situation) :
    (calls index).Effect files situation.files after.files (after.stage index) ∧
      (calls index).Holds files after.files (after.stage index) := by
  obtain ⟨alone, does⟩ := acts
  simp only [Function.update_self]
  exact does.effect coherent.means (fun isTemporary => coherent.noLink apart isTemporary _)
    (coherent.holds index)

/-- What the temporary file of another write holds is not touched. -/
theorem Acts.holds_other {index other : Index} (acts : Acts calls index situation after)
    (apart : Apart calls files) (coherent : Coherent calls files situation)
    (different : other ≠ index) :
    (calls other).Holds files after.files (after.stage other) := by
  obtain ⟨effect, -⟩ := acts.effect apart coherent
  obtain ⟨alone, does⟩ := acts
  simp only [Function.update_self, Function.update_of_ne different] at effect ⊢
  by_cases sameProcess : (calls other).processId = (calls index).processId
  · exact Call.holds_of_isIdle (alone other different sameProcess) _
  · refine (coherent.holds other).congr fun place isTemporary => ?_
    cases effect with
    | nothing same => exact same place
    | created surrounds early free changed =>
      rw [changed, if_neg]
      rintro rfl
      exact apart.belowTemporary different.symm surrounds isTemporary
    | staged ownTemporary begun isFile changed =>
      rw [changed, if_neg (isTemporary.ne sameProcess ownTemporary)]
    | published ownTemporary isTarget begun changed =>
      rw [changed, if_neg, if_neg (isTemporary.ne sameProcess ownTemporary)]
      rintro rfl
      exact apart.temporary different.symm isTarget isTemporary

/-- Each system call keeps what holds. -/
theorem Acts.coherent {index : Index} (acts : Acts calls index situation after)
    (apart : Apart calls files) (coherent : Coherent calls files situation) :
    Coherent calls files after := by
  obtain ⟨effect, holds⟩ := acts.effect apart coherent
  have holdsAll (other : Index) : (calls other).Holds files after.files (after.stage other) := by
    by_cases own : other = index
    · subst own
      exact holds
    · exact acts.holds_other apart coherent own
  have begun := acts.begun
  obtain ⟨later, grows, kept⟩ := coherent.grown
  cases effect with
  | nothing same =>
    exact ⟨fun location => (coherent.standing location).congr (same location) begun, holdsAll,
      later, grows, fun found => kept ((same _).symm.trans found)⟩
  | @created location surrounds early free changed =>
    have wasEarly : (situation.stage index).IsEarly := by
      by_contra notEarly
      exact begun index notEarly early
    -- What is free now was free to begin with, since no file is put where a directory is to be.
    have nothing := coherent.free apart surrounds wasEarly free
    refine ⟨fun other => ?_, holdsAll, ?_⟩
    · by_cases here : other = location
      · subst here
        exact .created surrounds nothing (by rw [changed, if_pos rfl])
      · exact (coherent.standing other).congr (by rw [changed, if_neg here]) begun
    · obtain ⟨further, growsFurther, grown, stands⟩ := grows.exists_create nothing
      refine ⟨further, growsFurther, fun {other entry} found notFile => ?_⟩
      rw [changed] at found
      split at found
      · next here =>
        obtain rfl := Option.some.inj found
        rwa [here]
      · exact grown.kept (kept found notFile)
  | @staged place found isTemporary begunNow isFile changed =>
    refine ⟨fun other => ?_, holdsAll, later, grows, fun {other entry} standing notFile => ?_⟩
    · by_cases here : other = place
      · subst here
        refine .temporary isTemporary begunNow ?_
        rwa [changed, if_pos rfl]
      · exact (coherent.standing other).congr (by rw [changed, if_neg here]) begun
    · rw [changed] at standing
      split at standing
      · obtain ⟨contents, mode, whole⟩ := isFile entry standing
        exact absurd whole (notFile contents mode)
      · exact kept standing notFile
  | @published place location mode isTemporary isTarget begunNow changed =>
    refine ⟨fun other => ?_, holdsAll, later, grows, fun {other entry} standing notFile => ?_⟩
    · by_cases here : other = location
      · subst here
        exact .published isTarget (by rw [changed, if_pos rfl])
      · by_cases there : other = place
        · subst there
          exact .temporary isTemporary begunNow (by rw [changed, if_neg here, if_pos rfl]; simp)
        · exact (coherent.standing other).congr (by rw [changed, if_neg here, if_neg there]) begun
    · rw [changed] at standing
      split at standing
      · exact absurd (Option.some.inj standing).symm (notFile _ _)
      · split at standing
        · cases standing
        · exact kept standing notFile

/-- Every situation that writes come to is coherent, by induction on their system calls. -/
theorem Reached.coherent (reached : Reached calls files situation) (apart : Apart calls files) :
    Coherent calls files situation := by
  induction reached with
  | refl => exact .initial calls files
  | tail earlier acts inductionHypothesis =>
    obtain ⟨index, acts⟩ := acts
    exact acts.coherent apart inductionHypothesis

end Interleaving

end AtomicWrite

end ElmWorkbench
