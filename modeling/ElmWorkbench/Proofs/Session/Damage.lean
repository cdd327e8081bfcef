import ElmWorkbench.Proofs.Json.Damage
import ElmWorkbench.Proofs.Session.Command
/-!
# Commands in messages that are not UTF-8

A message is never checked as a whole. What a command uses of it is UTF-8, wherever it stands, and
so are all keys (`Command.Spans`); the values of keys that nothing uses are the only places where a
message may be damaged and still be a command (`Command.ofBytes_of_damaged`).
-/

namespace ElmWorkbench

open Json (Cursor OfMessage OfObject Reader Skipped Stretch Undamaged)

namespace Position

/-- A value in UTF-8, or an object with the fields of a position and further values. -/
def Spans (further : Stretch) : Stretch :=
  OfObject further [("line", Undamaged), ("column", Undamaged)]

/-- A position that is read is damaged at most under further keys. -/
theorem crosses_read : (Position.read .direct).Crosses (Spans Skipped) := by
  have line : ∀ draft, (shape.fields[0].read draft).IsSound :=
    fun _ => Reader.isSound_count.bind fun _ _ => Reader.yields_pure trivial
  have column : ∀ draft, (shape.fields[1].read draft).IsSound :=
    fun _ => Reader.isSound_count.bind fun _ _ => Reader.yields_pure trivial
  exact Reader.crosses_record
    (List.forall_mem_cons.mpr ⟨line, List.forall_mem_singleton.mpr column⟩)

end Position

namespace Command

/-- Where the contents of a command stand: its texts are UTF-8, and so is all of its objects but for
further values. -/
def Contents (further : Stretch) : Command → Stretch
  | .replaceInFile _ _ _ _ =>
    OfObject further
      [("path", Undamaged), ("from", Position.Spans further), ("to", Position.Spans further),
       ("replacement", Undamaged)]
  | .listFilesForIndex _ | .listUserSourceFiles _ => OfObject further [("project_root", Undamaged)]
  | .errorLogRequested _ => Undamaged

/-- Where a command stands, with further values of one kind under the keys that it does not use. -/
def Spans (further : Stretch) (command : Command) : Stretch :=
  OfMessage further (command.Contents further)

/-- A replacement that is read is damaged at most under further keys. -/
theorem contents_of_replacement {start stop : Cursor} {command : Command}
    (read : Reader.fields (replacementShape .direct) start = .ok (command, stop)) :
    command.Contents Skipped start stop := by
  have path {change : Path → ReplacementDraft} :
      Reader.IsSound (Reader.path >>= fun path => pure (change path)) :=
    Reader.isSound_path.bind fun _ _ => Reader.yields_pure trivial
  have position {change : Position → ReplacementDraft} : Reader.Crosses
      (Position.read .direct >>= fun position => pure (change position)) (Position.Spans Skipped) :=
    Position.crosses_read.bind fun _ => Reader.crosses_pure _
  have text {change : String → ReplacementDraft} :
      Reader.IsSound (Reader.text >>= fun text => pure (change text)) :=
    (Reader.isSound_textFor _).bind fun _ _ => Reader.yields_pure trivial
  have parts : List.Forall₂ Reader.IsPart (replacementShape .direct).fields
      [("path", Undamaged), ("from", Position.Spans Skipped), ("to", Position.Spans Skipped),
       ("replacement", Undamaged)] :=
    .cons ⟨rfl, fun _ => path.crosses⟩ (.cons ⟨rfl, fun _ => position⟩
      (.cons ⟨rfl, fun _ => position⟩ (.cons ⟨rfl, fun _ => text.crosses⟩ .nil)))
  have isReplacement : ∃ path first last replacement,
      command = .replaceInFile path first last replacement := by
    obtain ⟨draft, built⟩ := Reader.exists_build_of_fields read
    obtain ⟨path, -, built⟩ := Except.bind_eq_ok_iff.mp built
    obtain ⟨first, -, built⟩ := Except.bind_eq_ok_iff.mp built
    obtain ⟨last, -, built⟩ := Except.bind_eq_ok_iff.mp built
    obtain ⟨replacement, -, built⟩ := Except.bind_eq_ok_iff.mp built
    cases built
    exact ⟨path, first, last, replacement, rfl⟩
  obtain ⟨path, first, last, replacement, rfl⟩ := isReplacement
  exact Reader.crosses_fields parts _ _ _ read

/-- A listing that is read is damaged at most under further keys. -/
theorem contents_of_listing {title : String} {build : Option Path → Command} {start stop : Cursor}
    {command : Command}
    (listing : ∀ root,
      (build root).Contents Skipped = OfObject Skipped [("project_root", Undamaged)])
    (read : Reader.fields (listingShape title build) start = .ok (command, stop)) :
    command.Contents Skipped start stop := by
  have parts : List.Forall₂ Reader.IsPart (listingShape title build).fields
      [("project_root", Undamaged)] :=
    .cons ⟨rfl, fun _ => (Reader.isSound_path.optional.map _).crosses⟩ .nil
  obtain ⟨draft, built⟩ := Reader.exists_build_of_fields read
  obtain rfl : build (draft.getD none) = command := Except.ok.inj built
  rw [listing]
  exact Reader.crosses_fields parts _ _ _ read

/-- The contents of every command stand so. -/
theorem contain_variants : Reader.Contain (Contents Skipped) variants := by
  intro kind member start command stop read
  simp only [variants, List.mem_cons, List.not_mem_nil, or_false] at member
  rcases member with rfl | rfl | rfl | rfl
  · exact contents_of_replacement read
  · exact contents_of_listing (fun _ => rfl) read
  · exact contents_of_listing (fun _ => rfl) read
  · obtain ⟨message, isText, rfl⟩ := Reader.map_eq_ok_iff.mp read
    exact (Reader.isSound_textFor _).undamaged isText

/-- What is not damaged at all may stand for the contents of every command. -/
theorem contents_of_undamaged (command : Command) {start stop : Cursor}
    (undamaged : Undamaged start stop) : command.Contents Skipped start stop := by
  cases command with
  | replaceInFile => exact .inl undamaged
  | listFilesForIndex => exact .inl undamaged
  | listUserSourceFiles => exact .inl undamaged
  | errorLogRequested => exact undamaged

section Spanning

variable {further : Stretch} {command : Command} {start stop : Cursor}

/-- A command whose further values are UTF-8 is so too. -/
theorem Spans.undamaged (sound : ∀ {start stop}, further start stop → Undamaged start stop)
    (spans : command.Spans further start stop) : Undamaged start stop := by
  have position : ∀ {start stop}, Position.Spans further start stop → Undamaged start stop :=
    fun spans => spans.undamaged sound
      (List.forall_mem_cons.mpr ⟨id, List.forall_mem_singleton.mpr id⟩)
  refine OfMessage.undamaged sound (fun {start stop} contents => ?_) spans
  cases command with
  | replaceInFile =>
    refine contents.undamaged sound (List.forall_mem_cons.mpr ⟨id, ?_⟩)
    exact List.forall_mem_cons.mpr ⟨position, List.forall_mem_cons.mpr
      ⟨position, List.forall_mem_singleton.mpr id⟩⟩
  | listFilesForIndex => exact contents.undamaged sound (List.forall_mem_singleton.mpr id)
  | listUserSourceFiles => exact contents.undamaged sound (List.forall_mem_singleton.mpr id)
  | errorLogRequested => exact contents

end Spanning

/-- Bytes that make a command are UTF-8, but for further values. -/
theorem exists_of_ofBytes {bytes : Bytes} {command : Command}
    (decoded : ofBytes bytes = .ok command) :
    ∃ stop, command.Spans Skipped (Cursor.start bytes) stop ∧ stop.skipSpace.rest = [] := by
  rw [ofBytes] at decoded
  split at decoded
  · next read =>
    obtain rfl := Except.ok.inj decoded
    obtain ⟨stop, taken, atEnd⟩ := Reader.exists_of_runWhole read
    exact ⟨stop, Reader.ofMessage_of_message contain_variants contents_of_undamaged taken, atEnd⟩
  · cases decoded

/-- Messages that are UTF-8 up to the blanks at their end are so as a whole. -/
theorem isSome_decode?_of_undamaged {bytes : Bytes} {stop : Cursor}
    (undamaged : Undamaged (Cursor.start bytes) stop) (atEnd : stop.skipSpace.rest = []) :
    (Utf8.decode? bytes).isSome := by
  have blanks : Undamaged stop stop.skipSpace :=
    Json.undamaged_skip stop fun _ => Json.ascii_of_isSpace
  obtain ⟨taken, whole, isText⟩ := undamaged.trans blanks
  rw [atEnd, List.append_nil] at whole
  obtain rfl : bytes = taken := whole
  exact isText

/-- Bytes that are not UTF-8 are an invalid command, unless they are damaged in a value under a key
that nothing uses: keys, values that are used and what stands outside of texts are UTF-8 then. -/
theorem ofBytes_of_damaged {bytes : Bytes} (damaged : Utf8.decode? bytes = none) :
    (∃ error, ofBytes bytes = .error error ∧ error.kind = .invalidCommand) ∨
      ∃ command stop, ofBytes bytes = .ok command ∧
        command.Spans Skipped (Cursor.start bytes) stop ∧ stop.skipSpace.rest = [] ∧
        ¬ command.Spans (fun start stop => Skipped start stop ∧ Undamaged start stop)
          (Cursor.start bytes) stop := by
  cases decoded : ofBytes bytes with
  | error error => exact .inl ⟨error, rfl, kind_of_ofBytes decoded⟩
  | ok command =>
    obtain ⟨stop, spans, atEnd⟩ := exists_of_ofBytes decoded
    refine .inr ⟨command, stop, rfl, spans, atEnd, fun sound => ?_⟩
    have isText := isSome_decode?_of_undamaged (sound.undamaged And.right) atEnd
    rw [damaged] at isText
    cases isText

/-- A message with a text that is not UTF-8 under a further key. -/
def damagedText : Bytes :=
  Utf8.encode "\x7b\"tag\":\"ErrorLogRequested\",\"data\":\"x\",\"y\":\"" ++ [0xFF] ++
    Utf8.encode "\"\x7d"

/-- The message is not UTF-8. -/
theorem decode?_damagedText : Utf8.decode? damagedText = none := by
  decide

/-- The message is decoded as a command all the same. -/
theorem ofBytes_damagedText : ofBytes damagedText = .ok (.errorLogRequested "x") := by
  decide +kernel

/-- Damage under a further key is passed over. -/
theorem ofBytes_of_damaged_further :
    Utf8.decode? damagedText = none ∧
      ∃ stop, (Command.errorLogRequested "x").Spans Skipped (Cursor.start damagedText) stop ∧
        ¬ (Command.errorLogRequested "x").Spans
          (fun start stop => Skipped start stop ∧ Undamaged start stop)
          (Cursor.start damagedText) stop := by
  refine ⟨decode?_damagedText, ?_⟩
  rcases ofBytes_of_damaged decode?_damagedText with
    ⟨error, refused, -⟩ | ⟨command, stop, decoded, spans, -, further⟩
  · rw [ofBytes_damagedText] at refused
    cases refused
  · obtain rfl : .errorLogRequested "x" = command :=
      Except.ok.inj (ofBytes_damagedText.symm.trans decoded)
    exact ⟨stop, spans, further⟩

/-- Not all bytes that are not UTF-8 are refused. -/
theorem damaged_bytes_make_command :
    ¬ ∀ bytes, Utf8.decode? bytes = none →
      ∃ error, ofBytes bytes = .error error ∧ error.kind = .invalidCommand := by
  intro refused
  obtain ⟨error, isError, -⟩ := refused damagedText decode?_damagedText
  rw [ofBytes_damagedText] at isError
  cases isError

end Command

end ElmWorkbench
