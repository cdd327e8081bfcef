import ElmWorkbench.CommandLine.Run
import ElmWorkbench.Proofs.Session.Command
import ElmWorkbench.Proofs.Text.Line
/-!
# What a server writes

A server answers the messages of its input one after the other, each in the file system that
the answers before it have left (`Answers`), and writes a line for every answer. It stops early
only at an answer with a path that is not UTF-8 (`Sent`). `serve_in_order` says what a whole run
writes, and `serve_reaches_end_iff` when it reaches the end of its input.
-/

namespace ElmWorkbench

/-! ## Messages -/

namespace Service

/-- A piece of an input without one carriage return at its end. -/
def dropReturn (piece : Bytes) : Bytes :=
  if piece.getLast? = some 0x0D then piece.dropLast else piece

/-- The messages of an input: its pieces between newlines, without one carriage return at their
end, as far as they hold more than blanks. -/
def messages (input : Bytes) : List Bytes :=
  ((input.splitOn Line.newline).map dropReturn).filter fun piece => !piece.all isBlank

/-- The body of a line ends before its newline and a carriage return there. -/
theorem body_ended (piece : Bytes) : body (piece ++ [Line.newline]) = dropReturn piece := by
  rcases List.eq_nil_or_concat piece with rfl | ⟨front, last, rfl⟩
  · rfl
  · rw [dropReturn, List.concat_eq_append, List.getLast?_concat, List.dropLast_concat, body]
    by_cases isReturn : last = 0x0D
    · simp [isReturn, Line.newline]
    · simp [isReturn, Line.newline]

/-- The body of a last line without a newline is all of it but a carriage return. -/
theorem body_of_not_mem {piece : Bytes} (absent : Line.newline ∉ piece) :
    body piece = dropReturn piece := by
  rcases List.eq_nil_or_concat piece with rfl | ⟨front, last, rfl⟩
  · rfl
  · rw [List.concat_eq_append, List.mem_append, List.mem_singleton, not_or] at absent
    rw [dropReturn, List.concat_eq_append, List.getLast?_concat, List.dropLast_concat, body]
    have other : last ≠ 0x0A := Ne.symm absent.2
    by_cases isReturn : last = 0x0D
    · simp [isReturn]
    · simp [isReturn, other]

/-- Cutting after newlines and between them gives the same bodies, except for an empty one at
the end. -/
theorem map_dropReturn_splitOn {pieces : List Bytes} {segment : Bytes}
    (ended : ∀ piece ∈ pieces, Line.IsEnded Line.newline piece) (absent : Line.newline ∉ segment) :
    ((pieces.flatten ++ segment).splitOn Line.newline).map dropReturn =
      pieces.map body ++ [body segment] := by
  induction pieces with
  | nil =>
    rw [List.flatten_nil, List.nil_append, List.splitOn_eq_singleton absent, List.map_singleton,
      body_of_not_mem absent]
    rfl
  | cons piece others inductionHypothesis =>
    rw [List.forall_mem_cons] at ended
    obtain ⟨⟨front, free, rfl⟩, othersEnded⟩ := ended
    rw [List.flatten_cons, List.append_assoc, List.append_assoc, List.singleton_append,
      List.splitOn_append_cons_self, List.splitOn_eq_singleton free, List.map_append,
      inductionHypothesis othersEnded, List.map_singleton, List.map_cons, body_ended]
    rfl

/-- The messages are the bodies of the stored lines that hold more than blanks. -/
theorem messages_eq (input : Bytes) :
    messages input = ((Line.stored input).map body).filter fun line => !line.all isBlank := by
  obtain ⟨pieces, segment, ended, absent, rfl, -⟩ := Line.exists_pieces Line.newline input
  rw [messages, map_dropReturn_splitOn ended absent, Line.stored,
    Line.cutAfter_flatten_segment ended absent]
  by_cases empty : segment = []
  · subst empty
    simp [body]
  · simp [empty]

end Service

/-! ## Answers in order -/

variable {session : Session} {environment : Environment}

/-- The answer to a message and the file system it leaves: a command is carried out, and a
message that is no command is refused and changes nothing. -/
inductive Answer (session : Session) (environment : Environment) (files : FileSystem)
    (message : Bytes) : Response → FileSystem → Prop where
  | command {command : Command} {response : Response} {left : FileSystem}
      (decoded : Command.ofBytes message = .ok command)
      (answered : (session.answer environment command).run files = (response, left)) :
      Answer session environment files message response left
  | refused {error : Error} (refused : Command.ofBytes message = .error error) :
      Answer session environment files message (.failed .invalidCommand error.message) files

/-- The answers to messages one after the other, each in the file system that the one before
it has left. -/
inductive Answers (session : Session) (environment : Environment) :
    FileSystem → List Bytes → List Response → FileSystem → Prop where
  | none {files : FileSystem} : Answers session environment files [] [] files
  | first {files middle left : FileSystem} {message : Bytes} {messages : List Bytes}
      {response : Response} {responses : List Response}
      (answer : Answer session environment files message response middle)
      (others : Answers session environment middle messages responses left) :
      Answers session environment files (message :: messages) (response :: responses) left

/-- There are as many responses as messages. -/
theorem Answers.length_eq {files left : FileSystem} {messages : List Bytes}
    {responses : List Response} (answers : Answers session environment files messages responses left) :
    responses.length = messages.length := by
  induction answers with
  | none => rfl
  | first _ _ inductionHypothesis => simp [inductionHypothesis]

/-- More messages are answered in the files that the ones before have left. -/
theorem Answers.append {files middle left : FileSystem} {messages more : List Bytes}
    {responses others : List Response}
    (answers : Answers session environment files messages responses middle)
    (next : Answers session environment middle more others left) :
    Answers session environment files (messages ++ more) (responses ++ others) left := by
  induction answers with
  | none => exact next
  | first answer _ inductionHypothesis => exact .first answer (inductionHypothesis next)

/-! ## Serving messages -/

section Runs

variable {Value Result : Type} {first : StateM FileSystem Value}
  {next : Value → StateM FileSystem Result} {value : Value} {files middle : FileSystem}

/-- What follows in a run goes on with the value and the files it was left. -/
theorem bind_of_eq (done : first files = (value, middle)) :
    (first >>= next) files = next value middle := by
  change (next (first files).1 (first files).2) = _
  rw [done]

end Runs

namespace Service

/-- The bytes that a server has written. -/
def bytes (service : Service) : Bytes :=
  Utf8.encodeChars service.output

/-- The line of a response. -/
def lineOf (response : Response) : Bytes :=
  response.toJson.bytes ++ [Line.newline]

/-- Every message is answered, and the response is an answer to it. -/
theorem exists_respond (session : Session) (environment : Environment) (message : Bytes)
    (files : FileSystem) :
    ∃ response recorded left, respond session environment message files =
        ((response, recorded), left) ∧ Answer session environment files message response left := by
  cases decoded : Command.ofBytes message with
  | ok command =>
    rcases answered : session.answer environment command files with ⟨response, left⟩
    refine ⟨response, command.logged?.toList, left, ?_, .command decoded answered⟩
    rw [respond, decoded]
    exact bind_of_eq answered
  | error error =>
    refine ⟨_, [], files, ?_, .refused decoded⟩
    rw [respond, decoded, ← Command.kind_of_ofBytes decoded]
    rfl

/-- All messages have answers, whether or not these can be written. -/
theorem exists_answers (session : Session) (environment : Environment) (messages : List Bytes)
    (files : FileSystem) :
    ∃ responses left, Answers session environment files messages responses left := by
  induction messages generalizing files with
  | nil => exact ⟨[], files, .none⟩
  | cons message others inductionHypothesis =>
    obtain ⟨response, -, middle, -, answer⟩ := exists_respond session environment message files
    obtain ⟨responses, left, answers⟩ := inductionHypothesis middle
    exact ⟨response :: responses, left, .first answer answers⟩

/-- Serve one message. -/
def serveMessage (session : Session) (environment : Environment) (service : Service)
    (message : Bytes) : StateM FileSystem Service :=
  if service.stopped then pure service
  else do
    let (response, recorded) ← respond session environment message
    pure ({ service with log := service.log ++ recorded }.write response)

/-- Serving an input is serving its messages. -/
theorem serve_eq (input : Bytes) :
    serve session environment input =
      (messages input).foldlM (serveMessage session environment) start := by
  rw [messages_eq, List.foldlM_filter, List.foldlM_map, serve]
  congr 1
  funext service line
  rw [serveLine, serveMessage]
  cases blank : (body line).all isBlank <;> cases ended : service.stopped <;> simp

/-- What one answer adds to what a server has written. -/
theorem write_cases (service : Service) (response : Response) :
    response.IsText ∧ (service.write response).stopped = service.stopped ∧
        (service.write response).bytes = service.bytes ++ lineOf response ∨
      ¬ response.IsText ∧ (service.write response).stopped = true ∧
        (service.write response).bytes = service.bytes ++ response.toJson.bytes := by
  rw [write, ← Response.complete_iff]
  by_cases complete : response.toJson.compact.complete
  · refine .inl ⟨complete, ?_⟩
    simp only [if_pos complete, bytes, Utf8.encodeChars_append, List.append_assoc]
    exact ⟨trivial, rfl⟩
  · refine .inr ⟨complete, ?_⟩
    simp only [if_neg complete, bytes, Utf8.encodeChars_append]
    exact ⟨trivial, rfl⟩

/-- A server that has stopped reads no further message. -/
theorem run_stopped {service : Service} (stopped : service.stopped) (messages : List Bytes)
    (files : FileSystem) :
    messages.foldlM (serveMessage session environment) service files = (service, files) := by
  induction messages with
  | nil => rfl
  | cons message others inductionHypothesis =>
    have passed : serveMessage session environment service message files = (service, files) := by
      rw [serveMessage, if_pos stopped]
      rfl
    rw [List.foldlM_cons, bind_of_eq passed, inductionHypothesis]

/-- What a server writes for responses: a line for each, or lines up to a response that cannot
be written and a part of that one. -/
inductive Sent : List Response → List Bytes → Bytes → Bool → Prop where
  | all {responses : List Response} (texts : ∀ response ∈ responses, response.IsText) :
      Sent responses [] (responses.flatMap lineOf) false
  | upTo {responses : List Response} {last : Response} {unread : List Bytes}
      (texts : ∀ response ∈ responses, response.IsText) (noText : ¬ last.IsText) :
      Sent (responses ++ [last]) unread (responses.flatMap lineOf ++ last.toJson.bytes) true

/-- A response that is UTF-8 is sent as a line before the others. -/
theorem Sent.first {responses : List Response} {response : Response} {unread : List Bytes}
    {sent : Bytes} {stopped : Bool} (isText : response.IsText)
    (others : Sent responses unread sent stopped) :
    Sent (response :: responses) unread (lineOf response ++ sent) stopped := by
  cases others with
  | all texts =>
    have all : Sent (response :: responses) _ _ _ := .all (List.forall_mem_cons.mpr ⟨isText, texts⟩)
    rwa [List.flatMap_cons] at all
  | @upTo responses last _ texts noText =>
    have upTo : Sent (response :: responses ++ [last]) unread _ _ :=
      .upTo (List.forall_mem_cons.mpr ⟨isText, texts⟩) noText
    rwa [List.flatMap_cons, List.append_assoc] at upTo

/-- A server that has not stopped answers messages up to the first that cannot be answered. -/
theorem exists_run {service : Service} (running : service.stopped = false)
    (messages : List Bytes) (files : FileSystem) :
    ∃ answered unread responses sent final left,
      messages.foldlM (serveMessage session environment) service files = (final, left) ∧
        messages = answered ++ unread ∧
        Answers session environment files answered responses left ∧
        final.bytes = service.bytes ++ sent ∧ Sent responses unread sent final.stopped := by
  induction messages generalizing service files with
  | nil =>
    refine ⟨[], [], [], [], service, files, rfl, rfl, .none, (List.append_nil _).symm, ?_⟩
    rw [running]
    exact .all (by simp)
  | cons message others inductionHypothesis =>
    obtain ⟨response, recorded, middle, responded, answer⟩ :=
      exists_respond session environment message files
    have served : serveMessage session environment service message files =
        ({ service with log := service.log ++ recorded }.write response, middle) := by
      rw [serveMessage, if_neg (by simp [running]), bind_of_eq responded]
      rfl
    rw [List.foldlM_cons, bind_of_eq served]
    rcases write_cases { service with log := service.log ++ recorded } response with
      ⟨isText, stays, written⟩ | ⟨noText, stops, written⟩
    · obtain ⟨answered, unread, responses, sent, final, left, run, cut, answers, bytes, ends⟩ :=
        inductionHypothesis (stays.trans running) middle
      refine ⟨message :: answered, unread, response :: responses, lineOf response ++ sent, final,
        left, run, congrArg _ cut, .first answer answers, ?_, ends.first isText⟩
      rw [bytes, written, List.append_assoc]
      rfl
    · refine ⟨[message], others, [response], response.toJson.bytes, _, middle,
        run_stopped stops others middle, rfl, .first answer .none, written, ?_⟩
      rw [stops]
      exact .upTo (List.forall_mem_nil _) noText

end Service

/-! ## Whole runs -/

/-- Responses as they stand in what a server has written: each on a line of its own, which
holds no control character and is read back as the response. -/
structure Lines (responses : List Response) (sent : Bytes) : Prop where
  framed : sent = responses.flatMap fun response => response.toJson.bytes ++ [Line.newline]
  clean : ∀ response ∈ responses, ∀ byte ∈ response.toJson.bytes, 0x20 ≤ byte
  decoded : ∀ response ∈ responses, Response.ofBytes response.toJson.bytes = .ok response

/-- Responses that are UTF-8 are sent as lines that are read back. -/
theorem lines_of_isText {responses : List Response}
    (texts : ∀ response ∈ responses, response.IsText) :
    Lines responses (responses.flatMap Service.lineOf) where
  framed := rfl
  clean response _ _ := response.le_of_mem_bytes
  decoded response member := Response.ofBytes_bytes (texts response member)

/-- A line holds no newline but the one at its end. -/
theorem Lines.count_newline {responses : List Response} {sent : Bytes}
    (lines : Lines responses sent) : sent.count Line.newline = responses.length := by
  obtain ⟨rfl, clean, -⟩ := lines
  induction responses with
  | nil => rfl
  | cons first others inductionHypothesis =>
    rw [List.forall_mem_cons] at clean
    have absent : Line.newline ∉ first.toJson.bytes := by
      intro member
      exact absurd (clean.1 _ member) (by decide)
    rw [List.flatMap_cons, List.count_append, List.count_append, inductionHypothesis clean.2,
      List.count_eq_zero_of_not_mem absent, List.length_cons]
    exact Nat.add_comm _ _

/-- How a run ends that has answered messages with these responses: with a line for each at the
end of its input, or with an error at a response that holds a path which is not UTF-8. -/
inductive Service.Ends (service : Service) : List Response → List Bytes → Prop where
  | atEnd {responses : List Response}
      (success : (CommandLine.Outcome.ofService service).failure = none)
      (lines : Lines responses service.bytes) : Ends service responses []
  /-- The lines of the earlier responses stay, and a proper beginning of the line of the last
  one, without a newline, stands behind them. -/
  | atPath {earlier : List Response} {last : Response} {unread : List Bytes}
      {path : Path} {sent part tail : Bytes} (holds : path ∈ last.paths) (noText : path.text? = none)
      (failure : (CommandLine.Outcome.ofService service).failure = some .pathNotText)
      (lines : Lines earlier sent) (written : service.bytes = sent ++ part)
      (oneLine : Line.newline ∉ part) (proper : tail ≠ [])
      (whole : last.toJson.shown.bytes = part ++ tail) : Ends service (earlier ++ [last]) unread

/-- If all was sent, every response is UTF-8 and stands on a line of its own. -/
theorem Service.Sent.texts {responses : List Response} {unread : List Bytes} {sent : Bytes}
    (all : Sent responses unread sent false) :
    unread = [] ∧ (∀ response ∈ responses, response.IsText) ∧ Lines responses sent := by
  cases all with
  | all texts => exact ⟨rfl, texts, lines_of_isText texts⟩

/-- If sending has stopped, it did so at a response that is not UTF-8. -/
theorem Service.Sent.exists_noText {responses : List Response} {unread : List Bytes} {sent : Bytes}
    (upTo : Sent responses unread sent true) : ∃ response ∈ responses, ¬ response.IsText := by
  cases upTo with
  | upTo _ noText => exact ⟨_, List.mem_append_right _ List.mem_cons_self, noText⟩

/-- What a server has sent tells how its run ends. -/
theorem Service.Sent.ends {service : Service} {responses : List Response} {unread : List Bytes}
    (sent : Sent responses unread service.bytes service.stopped) :
    service.Ends responses unread := by
  generalize written : service.bytes = bytes at sent
  generalize ended : service.stopped = stopped at sent
  cases sent with
  | all texts =>
    refine .atEnd (by simp [CommandLine.Outcome.ofService, ended]) ?_
    rw [written]
    exact lines_of_isText texts
  | @upTo earlier last _ texts noText =>
    obtain ⟨tail, proper, whole⟩ := Response.exists_tail noText
    simp only [Response.IsText, not_forall, Option.isSome_iff_ne_none, not_not] at noText
    obtain ⟨path, holds, noText⟩ := noText
    refine .atPath holds noText (by simp [CommandLine.Outcome.ofService, ended])
      (lines_of_isText texts) written ?_ proper whole
    intro member
    exact absurd (last.le_of_mem_bytes member) (by decide)

/-- A server answers the messages of its input in order, each in the file system that the
answers before it have left, and writes one line for each answer. It ends early only at an
answer with a path that is not UTF-8. -/
theorem serve_in_order (session : Session) (environment : Environment) (files : FileSystem)
    (input : Bytes) :
    ∃ answered unread responses service left,
      (Service.serve session environment input).run files = (service, left) ∧
        Service.messages input = answered ++ unread ∧
        Answers session environment files answered responses left ∧
        service.Ends responses unread := by
  obtain ⟨answered, unread, responses, sent, service, left, run, cut, answers, bytes, ends⟩ :=
    Service.exists_run (rfl : Service.start.stopped = false) (Service.messages input) files
  rw [← Service.serve_eq] at run
  refine ⟨answered, unread, responses, service, left, run, cut, answers, Service.Sent.ends ?_⟩
  rwa [bytes]

/-- A server reaches the end of its input exactly if all answers to its messages hold only paths
that are UTF-8, and then it has written one line for each message. -/
theorem serve_reaches_end_iff (session : Session) (environment : Environment)
    (files : FileSystem) (input : Bytes) :
    ∃ responses left service,
      Answers session environment files (Service.messages input) responses left ∧
        ((Service.serve session environment input).run files).1 = service ∧
        ((CommandLine.Outcome.ofService service).failure = none ↔
          ∀ response ∈ responses, ∀ path ∈ response.paths, path.text?.isSome) ∧
        ((CommandLine.Outcome.ofService service).failure = none →
          Lines responses service.bytes ∧
            service.bytes.count Line.newline = (Service.messages input).length) := by
  obtain ⟨answered, unread, responses, sent, service, middle, run, cut, answers, bytes, ends⟩ :=
    Service.exists_run (rfl : Service.start.stopped = false) (Service.messages input) files
  -- The messages behind a response that cannot be written are answered by no one, but they have
  -- answers.
  obtain ⟨more, left, others⟩ := Service.exists_answers session environment unread middle
  have all := answers.append others
  rw [← cut] at all
  rw [← Service.serve_eq] at run
  have served : ((Service.serve session environment input).run files).1 = service :=
    congrArg Prod.fst run
  have ends : Service.Sent responses unread service.bytes service.stopped := by rwa [bytes]
  refine ⟨responses ++ more, left, service, all, served, ?_⟩
  cases ended : service.stopped with
  | false =>
    rw [ended] at ends
    obtain ⟨rfl, texts, lines⟩ := ends.texts
    cases others
    rw [List.append_nil] at all cut ⊢
    have success : (CommandLine.Outcome.ofService service).failure = none := by
      simp [CommandLine.Outcome.ofService, ended]
    refine ⟨iff_of_true success texts, fun _ => ⟨lines, ?_⟩⟩
    rw [lines.count_newline, all.length_eq]
  | true =>
    rw [ended] at ends
    obtain ⟨response, member, noText⟩ := ends.exists_noText
    have failure : (CommandLine.Outcome.ofService service).failure ≠ none := by
      simp [CommandLine.Outcome.ofService, ended]
    refine ⟨iff_of_false failure fun texts => ?_, fun success => absurd success failure⟩
    exact noText (texts response (List.mem_append_left _ member))

end ElmWorkbench
