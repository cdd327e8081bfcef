import ElmWorkbench.Proofs.Json.Message
import ElmWorkbench.Session.Response
/-!
# Responses on the way to the host

A response is written in full exactly if the paths that it holds are UTF-8
(`Response.complete_iff`). Then it is read back from its line as itself
(`Response.ofBytes_bytes`), and if not, what is written of it is a proper beginning of a line
(`Response.exists_tail`). Neither holds a line end.
-/

namespace ElmWorkbench

open Json (Fills Reader Recovers Takes Value given given_of_fresh given_of_mem given_other
  given_self)

namespace Json

/-- The bytes of a text without control characters are none either. -/
theorem IsClean.le_of_mem_encodeChars {text : List Char} (clean : IsClean text) {byte : UInt8}
    (written : byte ∈ Utf8.encodeChars text) : 0x20 ≤ byte := by
  obtain ⟨character, member, written⟩ := List.mem_flatMap.mp written
  rw [← UInt8.not_lt]
  intro control
  have small : byte.toNat < 0x20 := control
  have ascii : byte < 0x80 := UInt8.lt_trans control (by decide)
  have solid := clean character member
  rw [(Utf8.mem_encodeChar_iff ascii).mp written, Char.toNat,
    Utf8.toNat_ofNat _ (by simp only [Nat.isValidChar]; omega)] at solid
  omega

end Json

namespace Response

/-- The paths that a response holds. -/
def paths : Response → List Path
  | .filesForIndex entries => entries.map IndexEntry.path
  | .userSourceFiles paths => paths
  | _ => []

/-- A response whose paths are UTF-8. -/
def IsText (response : Response) : Prop :=
  ∀ path ∈ response.paths, path.text?.isSome

instance (response : Response) : Decidable response.IsText :=
  inferInstanceAs (Decidable (∀ path ∈ response.paths, path.text?.isSome))

/-! ## Responses that are written in full -/

/-- What has been read of an entry of an index. -/
def entrySoFar (entry : IndexEntry) (seen : List String) : IndexEntry.Draft where
  path := given "path" entry.path seen
  content := given "content" entry.content seen

/-- An entry of an index is read back. -/
theorem recovers_entry {entry : IndexEntry} (isText : entry.path.text?.isSome) :
    Recovers (Reader.record .direct IndexEntry.shape) entry.toJson entry := by
  have fills : Fills IndexEntry.shape.fields (entrySoFar entry)
      [("path", .path entry.path), ("content", .text entry.content)] := by
    refine ⟨rfl, List.forall_mem_cons.mpr ⟨?_, List.forall_mem_singleton.mpr ?_⟩⟩
    · refine ⟨_, rfl, fun seen fresh => ⟨?_, ((Takes.path isText).recovers trivial).fill ?_⟩⟩
      · simp [entrySoFar, given_of_fresh fresh]
      · simp [entrySoFar, given_self, given_other]
    · refine ⟨_, rfl, fun seen fresh =>
        ⟨?_, ((Takes.text _ entry.content).recovers trivial).fill ?_⟩⟩
      · simp [entrySoFar, given_of_fresh fresh]
      · simp [entrySoFar, given_self, given_other]
  refine fills.recovers (by decide) rfl (fun seen covers => ?_) rfl
  simp only [List.forall_mem_cons] at covers
  simp only [IndexEntry.shape, entrySoFar, given_of_mem covers.1, given_of_mem covers.2.1]
  rfl

/-- The kind of a failure is read back from its name. -/
theorem recovers_kind (kind : ErrorKind) :
    Recovers (Reader.name (ErrorKind.all.map fun kind => (kind.name, kind)) .direct)
      (.text kind.name) kind := by
  have found : (ErrorKind.all.map fun kind => (kind.name, kind)).find?
      (fun entry => entry.1 = kind.name) = some (kind.name, kind) := by
    cases kind <;> rfl
  exact (Takes.name found).recovers trivial

/-- What has been read of a failure. -/
def failureSoFar (kind : ErrorKind) (message : String) (seen : List String) : FailureDraft where
  kind := given "kind" kind seen
  message := given "message" message seen

/-- A failure is read back from its kind and its message. -/
theorem recovers_failure (kind : ErrorKind) (message : String) :
    Recovers (Reader.fields (failureShape .direct))
      (.object [("kind", .text kind.name), ("message", .text message)]) (.failed kind message) := by
  have fills : Fills (failureShape .direct).fields (failureSoFar kind message)
      [("kind", .text kind.name), ("message", .text message)] := by
    refine ⟨rfl, List.forall_mem_cons.mpr ⟨?_, List.forall_mem_singleton.mpr ?_⟩⟩
    · refine ⟨_, rfl, fun seen fresh => ⟨?_, (recovers_kind kind).fill ?_⟩⟩
      · simp [failureSoFar, given_of_fresh fresh]
      · simp [failureSoFar, given_self, given_other]
    · refine ⟨_, rfl, fun seen fresh => ⟨?_, ((Takes.text _ message).recovers trivial).fill ?_⟩⟩
      · simp [failureSoFar, given_of_fresh fresh]
      · simp [failureSoFar, given_self, given_other]
  refine fills.recovers (by decide) rfl (fun seen covers => ?_) rfl
  simp only [List.forall_mem_cons] at covers
  simp only [failureShape, failureSoFar, given_of_mem covers.1, given_of_mem covers.2.1]
  rfl

/-- A response is read back as itself if its paths are UTF-8. -/
theorem takes {response : Response} (isText : response.IsText) :
    Takes (Reader.message "adjacently tagged enum Response" variants) response.toJson
      response := by
  cases response with
  | fileReplaced =>
    have found : variants.find? (fun known => known.name = "FileReplaced") =
      some (bare "FileReplaced" .fileReplaced) := rfl
    exact Takes.bareMessage _ found rfl
  | logged =>
    have found : variants.find? (fun known => known.name = "Logged") =
      some (bare "Logged" .logged) := rfl
    exact Takes.bareMessage _ found rfl
  | filesForIndex entries =>
    have found : variants.find? (fun known => known.name = "FilesForIndex") =
      some (variant "FilesForIndex" fun passage =>
        .filesForIndex <$> Reader.listOf (Reader.record passage IndexEntry.shape)) := rfl
    refine Takes.message _ found
      ((Recovers.listOf fun entry member => ?_).takes.map filesForIndex)
    exact recovers_entry (isText entry.path (List.mem_map_of_mem member))
  | userSourceFiles paths =>
    have found : variants.find? (fun known => known.name = "UserSourceFiles") =
      some (variant "UserSourceFiles" fun _ =>
        .userSourceFiles <$> Reader.listOf Reader.path) := rfl
    refine Takes.message _ found
      ((Recovers.listOf fun path member => ?_).takes.map userSourceFiles)
    exact (Takes.path (isText path member)).recovers trivial
  | failed kind message =>
    have found : variants.find? (fun known => known.name = "Failed") =
      some (variant "Failed" fun passage => Reader.fields (failureShape passage)) := rfl
    exact Takes.message _ found (recovers_failure kind message).takes

/-- No byte of the line of a response is a control character. -/
theorem le_of_mem_bytes (response : Response) {byte : UInt8}
    (written : byte ∈ response.toJson.bytes) : 0x20 ≤ byte :=
  (Value.isClean_compact response.toJson).le_of_mem_encodeChars written

/-! ## Responses that cannot be written -/

/-- The paths in the encoding of a response are the paths it holds. -/
theorem holds_iff {response : Response} {path : Path} :
    response.toJson.Holds path ↔ path ∈ response.paths := by
  cases response <;> simp [toJson, dataToJson?, paths, IndexEntry.toJson, @eq_comm _ path]

/-- A response is written in full exactly if its paths are UTF-8. -/
theorem complete_iff (response : Response) :
    response.toJson.compact.complete ↔ response.IsText := by
  simp only [Value.compact, Value.write_complete_iff, holds_iff, IsText]

/-- The line of a response is read back as that response. -/
theorem ofBytes_bytes {response : Response} (isText : response.IsText) :
    ofBytes response.toJson.bytes = .ok response :=
  (takes isText).runWhole (Value.spells_bytes ((complete_iff response).mpr isText))

/-- What is written of a response with a path that is not UTF-8 is a proper beginning of its
line with its paths as they are shown. -/
theorem exists_tail {response : Response} (noText : ¬ response.IsText) :
    ∃ tail, tail ≠ [] ∧ response.toJson.shown.bytes = response.toJson.bytes ++ tail := by
  have begins := Value.begins_shown .compact response.toJson
  have incomplete := mt (complete_iff response).mp noText
  rw [Value.bytes, Value.bytes, Value.compact, Value.compact]
  rw [Value.compact] at incomplete
  generalize response.toJson.write .compact = part at begins incomplete ⊢
  generalize response.toJson.shown.write .compact = whole at begins ⊢
  cases begins with
  | whole => exact absurd rfl incomplete
  | @stopped front tail missing =>
    exact ⟨Utf8.encodeChars tail, Utf8.encodeChars_ne_nil missing,
      Utf8.encodeChars_append front tail⟩

end Response

end ElmWorkbench
