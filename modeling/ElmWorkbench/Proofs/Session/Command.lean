import ElmWorkbench.Proofs.Edit.Encoding
import ElmWorkbench.Proofs.Session.Response
import ElmWorkbench.Session.Command
/-!
# Commands from the host

A command is read back from its message and from every variant of it: the keys of its objects may
stand in any order, blanks may stand between its tokens, and further keys are skipped
(`Command.recovers`). With the responses, which are read back from their lines, nothing is lost
between a host and a session (`messages_are_faithful`).
-/

namespace ElmWorkbench

open Json (Fills Fits Means Reader Recovers Takes Value Varies given given_of_fresh given_of_mem
  given_other given_self)

namespace Command

/-- The paths that a command holds. -/
def paths : Command → List Path
  | .replaceInFile path _ _ _ => [path]
  | .listFilesForIndex root => root.toList
  | .listUserSourceFiles root => root.toList
  | .errorLogRequested _ => []

/-- A command whose paths are UTF-8. -/
def IsText (command : Command) : Prop :=
  ∀ path ∈ command.paths, path.text?.isSome

instance (command : Command) : Decidable command.IsText :=
  inferInstanceAs (Decidable (∀ path ∈ command.paths, path.text?.isSome))

section Contents

variable {path : Path} {root : Option Path}

/-- What has been read of a replacement. -/
def replacementSoFar (path : Path) (first last : Position) (replacement : String)
    (seen : List String) : ReplacementDraft where
  path := given "path" path seen
  first := given "from" first seen
  last := given "to" last seen
  replacement := given "replacement" replacement seen

/-- The contents of a replacement are read back, directly or once more. -/
theorem recovers_replacement (isText : path.text?.isSome) (first last : Position)
    (replacement : String) (passage : Json.Passage) :
    Recovers (Reader.fields (replacementShape passage))
      (replaceInFile path first last replacement).dataToJson
      (replaceInFile path first last replacement) := by
  have fills : Fills (replacementShape passage).fields
      (replacementSoFar path first last replacement)
      [("path", .path path), ("from", first.toJson), ("to", last.toJson),
        ("replacement", .text replacement)] := by
    refine ⟨rfl, List.forall_mem_cons.mpr ⟨?_, List.forall_mem_cons.mpr ⟨?_,
      List.forall_mem_cons.mpr ⟨?_, List.forall_mem_singleton.mpr ?_⟩⟩⟩⟩
    · refine ⟨_, rfl, fun seen fresh => ⟨?_, ((Takes.path isText).recovers trivial).fill ?_⟩⟩
      · simp [replacementSoFar, given_of_fresh fresh]
      · simp [replacementSoFar, given_self, given_other]
    · refine ⟨_, rfl, fun seen fresh => ⟨?_, (first.recovers passage).fill ?_⟩⟩
      · simp [replacementSoFar, given_of_fresh fresh]
      · simp [replacementSoFar, given_self, given_other]
    · refine ⟨_, rfl, fun seen fresh => ⟨?_, (last.recovers passage).fill ?_⟩⟩
      · simp [replacementSoFar, given_of_fresh fresh]
      · simp [replacementSoFar, given_self, given_other]
    · refine ⟨_, rfl, fun seen fresh =>
        ⟨?_, ((Takes.text _ replacement).recovers trivial).fill ?_⟩⟩
      · simp [replacementSoFar, given_of_fresh fresh]
      · simp [replacementSoFar, given_self, given_other]
  refine fills.recovers (by decide : ["path", "from", "to", "replacement"].Nodup) rfl
    (fun seen covers => ?_) rfl
  simp only [List.forall_mem_cons] at covers
  obtain ⟨hasPath, hasFirst, hasLast, hasReplacement, -⟩ := covers
  simp only [replacementShape, replacementSoFar, given_of_mem hasPath, given_of_mem hasFirst,
    given_of_mem hasLast, given_of_mem hasReplacement]
  rfl

/-- A replacement does not nest too deep. -/
theorem fits_replacement (isText : path.text?.isSome) (first last : Position)
    (replacement : String) (depth : Nat) :
    Fits (depth + 3) (replaceInFile path first last replacement).dataToJson := by
  obtain ⟨text, decoded⟩ := Option.isSome_iff_exists.mp isText
  refine .object (List.forall_mem_cons.mpr ⟨?_, List.forall_mem_cons.mpr ⟨?_,
    List.forall_mem_cons.mpr ⟨?_, List.forall_mem_singleton.mpr ?_⟩⟩⟩)
  · exact .single trivial (Json.means_path decoded)
  · exact first.fits depth
  · exact last.fits depth
  · have isScalar : (Value.text replacement).IsScalar := trivial
    exact isScalar.fits _

/-- A project root is read back, and so is that there is none. -/
theorem recovers_root (isText : ∀ path ∈ root.toList, path.text?.isSome) :
    Recovers (Reader.optional Reader.path) (rootToJson root) root := by
  cases root with
  | none => exact (Takes.absent Reader.path).recovers trivial
  | some root => exact (Takes.present (isText root List.mem_cons_self)).recovers trivial

/-- The contents of a listing are read back. -/
theorem recovers_listing (isText : ∀ path ∈ root.toList, path.text?.isSome) (title : String)
    (build : Option Path → Command) :
    Recovers (Reader.fields (listingShape title build))
      (.object [("project_root", rootToJson root)]) (build root) := by
  have fills : Fills (listingShape title build).fields (given "project_root" root)
      [("project_root", rootToJson root)] := by
    refine ⟨rfl, List.forall_mem_singleton.mpr ⟨_, rfl, fun seen fresh => ⟨?_, ?_⟩⟩⟩
    · simp [given_of_fresh fresh]
    · rw [given_self]
      exact (recovers_root isText).map some
  refine fills.recovers (by decide : ["project_root"].Nodup) rfl (fun seen covers => ?_) rfl
  rw [given_of_mem (covers _ List.mem_cons_self)]
  rfl

/-- A listing does not nest too deep. -/
theorem fits_listing (isText : ∀ path ∈ root.toList, path.text?.isSome) (depth : Nat) :
    Fits (depth + 2) (.object [("project_root", rootToJson root)]) := by
  refine .object (List.forall_mem_singleton.mpr ?_)
  cases root with
  | none =>
    have isScalar : Value.null.IsScalar := trivial
    exact isScalar.fits depth
  | some root =>
    obtain ⟨text, decoded⟩ := Option.isSome_iff_exists.mp (isText root List.mem_cons_self)
    exact .single trivial (Json.means_path decoded)

end Contents

/-! ## Whole commands -/

/-- A command is read back from every variant of its message if its paths are UTF-8. -/
theorem recovers {command : Command} (isText : command.IsText) :
    Recovers (Reader.message "adjacently tagged enum Command" variants) command.toJson command := by
  cases command with
  | replaceInFile path first last replacement =>
    have isText : path.text?.isSome := isText path List.mem_cons_self
    have found : variants.find? (fun known => known.name = "ReplaceInFile") =
      some (variant "ReplaceInFile" fun passage => Reader.fields (replacementShape passage)) := rfl
    exact Recovers.message _ found (recovers_replacement isText first last replacement .direct)
      (recovers_replacement isText first last replacement .buffered)
      (fits_replacement isText first last replacement _)
  | listFilesForIndex root =>
    have found : variants.find? (fun known => known.name = "ListFilesForIndex") =
      some (variant "ListFilesForIndex" fun _ =>
        Reader.fields (listingShape "ListFilesForIndex" .listFilesForIndex)) := rfl
    have listing := recovers_listing isText "ListFilesForIndex" .listFilesForIndex
    exact Recovers.message _ found listing listing (fits_listing isText _)
  | listUserSourceFiles root =>
    have found : variants.find? (fun known => known.name = "ListUserSourceFiles") =
      some (variant "ListUserSourceFiles" fun _ =>
        Reader.fields (listingShape "ListUserSourceFiles" .listUserSourceFiles)) := rfl
    have listing := recovers_listing isText "ListUserSourceFiles" .listUserSourceFiles
    exact Recovers.message _ found listing listing (fits_listing isText _)
  | errorLogRequested message =>
    have found : variants.find? (fun known => known.name = "ErrorLogRequested") =
      some (variant "ErrorLogRequested" fun _ => .errorLogRequested <$> Reader.text) := rfl
    have text := ((Takes.text "a string" message).recovers trivial).map errorLogRequested
    have isScalar : (Value.text message).IsScalar := trivial
    exact Recovers.message _ found text text (isScalar.fits _)

/-- A command is decoded from every text of every variant of it. -/
theorem ofBytes_eq_ok {command : Command} (isText : command.IsText) {variant : Value}
    (varies : Varies command.toJson variant) {bytes : Bytes} (spells : variant.Spells bytes) :
    ofBytes bytes = .ok command := by
  rw [ofBytes, (recovers isText variant varies).runWhole spells]

/-- Bytes that are no command are refused as an invalid one. -/
theorem kind_of_ofBytes {bytes : Bytes} {error : Error} (refused : ofBytes bytes = .error error) :
    error.kind = .invalidCommand := by
  rw [ofBytes] at refused
  split at refused <;> cases refused
  rfl

/-- The paths in the encoding of a command are the paths it holds. -/
theorem holds_iff {command : Command} {path : Path} :
    command.toJson.Holds path ↔ path ∈ command.paths := by
  cases command with
  | replaceInFile path first last replacement =>
    simp [toJson, dataToJson, paths, Position.toJson]
  | listFilesForIndex root => cases root <;> simp [toJson, dataToJson, rootToJson, paths]
  | listUserSourceFiles root => cases root <;> simp [toJson, dataToJson, rootToJson, paths]
  | errorLogRequested message => simp [toJson, dataToJson, paths]

/-- A command can be written exactly if its paths are UTF-8. -/
theorem complete_iff (command : Command) :
    command.toJson.compact.complete ↔ command.IsText := by
  simp only [Value.compact, Value.write_complete_iff, holds_iff, IsText]

end Command

/-! ## Both directions -/

/-- Nothing is lost between a host and a session. A command whose paths are UTF-8 is written in full
and read back from its compact text, and from every text of a variant of its message: keys in
another order, blanks, or scalars under further keys. Such a response is written in full and read
back from its line, and so no two of them have the same line. -/
theorem messages_are_faithful :
    (∀ command : Command, command.IsText →
      command.toJson.compact.complete ∧ Command.ofBytes command.toJson.bytes = .ok command ∧
        ∀ variant bytes, Varies command.toJson variant → variant.Spells bytes →
          Command.ofBytes bytes = .ok command) ∧
    (∀ response : Response, response.IsText →
      response.toJson.compact.complete ∧
        Response.ofBytes response.toJson.bytes = .ok response) ∧
    ∀ first second : Response, first.IsText → second.IsText →
      first.toJson.bytes = second.toJson.bytes → first = second := by
  refine ⟨fun command isText => ?_, fun response isText => ?_,
    fun first second isText isTextToo same => ?_⟩
  · have complete := (Command.complete_iff command).mpr isText
    exact ⟨complete,
      Command.ofBytes_eq_ok isText (Varies.refl _) (Value.spells_bytes complete),
      fun variant bytes varies spells => Command.ofBytes_eq_ok isText varies spells⟩
  · exact ⟨(Response.complete_iff response).mpr isText, Response.ofBytes_bytes isText⟩
  · have read := Response.ofBytes_bytes isText
    rw [same, Response.ofBytes_bytes isTextToo] at read
    exact (Except.ok.inj read).symm

/-- A listing whose contents come first and hold a further key. -/
def looseListing : Value :=
  .object
    [(Json.dataKey, .object [("depth", .integer 3), ("project_root", .path (.ofString "/p"))]),
      (Json.tagKey, .text "ListFilesForIndex")]

/-- The same with blanks between its tokens. -/
def looseText : Bytes :=
  Utf8.encode ("\x7b \"data\": \x7b\"depth\":3,\"project_root\":\"/p\"\x7d,\n"
    ++ "\"tag\":\"ListFilesForIndex\"\x7d\n")

/-- The loose listing is a variant of a listing. -/
theorem varies_looseListing :
    Varies (Command.listFilesForIndex (some (.ofString "/p"))).toJson looseListing := by
  have depthFits : (3 : Int).natAbs < UInt64.size := by simp [UInt64.size]
  have contents : Varies (.object [("project_root", .path (.ofString "/p"))])
      (.object [("depth", .integer 3), ("project_root", .path (.ofString "/p"))]) :=
    @Varies.object _ [("depth", .integer 3)] _ Prod.snd (fun entry _ => .refl entry.2)
      (List.forall_mem_singleton.mpr ⟨by simp, depthFits⟩) (.swap _ _ _)
  refine @Varies.object _ [] _ (fun entry => if entry.1 = Json.dataKey then .object
    [("depth", .integer 3), ("project_root", .path (.ofString "/p"))] else entry.2)
    (List.forall_mem_cons.mpr ⟨.refl _, List.forall_mem_singleton.mpr contents⟩) (by simp)
    (.swap _ _ _)

/-- The loose listing is spelled by the loose text. -/
theorem spells_looseListing : looseListing.Spells looseText := by
  refine ⟨(List.zipWith (· ++ ·)
    [[], [0x20], [], [0x20], [], [], [], [], [], [], [], [], [], [0x0A], [], [], []]
    looseListing.tokens).flatten, [0x0A], Json.spaced_zipWith (by decide) rfl, by decide, ?_⟩
  decide +kernel

/-- Data before the tag, a further key, and two answers that are told apart. -/
theorem messages_are_faithful_loose :
    Command.ofBytes looseText = .ok (.listFilesForIndex (some (.ofString "/p"))) ∧
      Response.ofBytes (Response.userSourceFiles [.ofString "/p"]).toJson.bytes =
        .ok (.userSourceFiles [.ofString "/p"]) ∧
      Response.logged.toJson.bytes ≠ Response.fileReplaced.toJson.bytes := by
  refine ⟨?_, (messages_are_faithful.2.1 _ (by decide)).2, fun same => ?_⟩
  · exact (messages_are_faithful.1 _ (by decide)).2.2 looseListing looseText varies_looseListing
      spells_looseListing
  · cases messages_are_faithful.2.2 _ _ (by decide) (by decide) same

end ElmWorkbench
