import ElmWorkbench.Json.Cursor
/-!
# What readers take

`Reader.Reads` tells which bytes a reader takes from the front of what is left of a message
and which value it gives for them, before a given rest. Sequences of readers take one front
after the other (`Reader.Reads.bind`), so a reader of a bracketed value is followed part by
part. Nothing is said here about bytes that a reader refuses.
-/

namespace ElmWorkbench.Json

/-- Nothing but blanks. -/
def IsBlank (bytes : Bytes) : Prop :=
  ∀ byte ∈ bytes, isSpace byte

instance (bytes : Bytes) : Decidable (IsBlank bytes) :=
  List.decidableBAll (fun byte => isSpace byte = true) bytes

/-- No bytes are blank. -/
theorem isBlank_nil : IsBlank [] := fun _ member => absurd member List.not_mem_nil

namespace Reader

/-- A reader takes `written` before `rest`, and gives `value` for it. -/
def Reads {Value : Type} (reader : Reader Value) (written : Bytes) (value : Value)
    (rest : Bytes) : Prop :=
  ∀ before, reader { before, rest := written ++ rest } =
    .ok (value, { before := written.reverse ++ before, rest })

section Sequences

variable {Value Result : Type} {reader first : Reader Value} {next : Value → Reader Result}
  {value : Value} {result : Result} {written front back rest : Bytes}

/-- A value is given without reading a byte. -/
theorem reads_pure (value : Value) (rest : Bytes) :
    (pure value : Reader Value).Reads [] value rest := fun _ => rfl

/-- Two readers read their texts one after the other. -/
theorem Reads.bind (taken : first.Reads front value (back ++ rest))
    (takenNext : (next value).Reads back result rest) :
    (first >>= next).Reads (front ++ back) result rest := by
  intro before
  change (first { before, rest := front ++ back ++ rest } >>= fun read => next read.1 read.2) = _
  rw [List.append_assoc, taken before]
  change next value _ = _
  rw [takenNext, List.reverse_append, List.append_assoc]

/-- A reader that looks ahead only leaves all to the next one. -/
theorem Reads.look (looked : first.Reads [] value (written ++ rest))
    (taken : (next value).Reads written result rest) :
    (first >>= next).Reads written result rest :=
  Reads.bind looked taken

/-- A reader that takes nothing more only tells what was read. -/
theorem Reads.tell (taken : first.Reads written value rest)
    (told : (next value).Reads [] result rest) : (first >>= next).Reads written result rest := by
  have both := Reads.bind taken told
  rwa [List.append_nil] at both

/-- A loop that is bounded by the number of bytes left is followed with a bound that is greater
than the number of bytes it takes. -/
theorem Reads.bounded (loop : Nat → Reader Value)
    (taken : ∀ bound, written.length < bound → (loop bound).Reads written value rest) :
    (do loop ((← get).rest.length + 1)).Reads written value rest := by
  intro before
  have enough : written.length < (written ++ rest).length + 1 := by
    rw [List.length_append]
    omega
  exact taken _ enough before

/-- What is read can be changed. -/
theorem Reads.map (change : Value → Result) (taken : reader.Reads written value rest) :
    (change <$> reader).Reads written (change value) rest := by
  intro before
  change (reader { before, rest := written ++ rest } >>= fun read => pure (change read.1, read.2)) = _
  rw [taken before]
  rfl

/-- A reader may depend on where it stands. -/
theorem Reads.get {next : Cursor → Reader Result}
    (taken : ∀ before, (next { before, rest := written ++ rest }).Reads written result rest) :
    (do next (← get)).Reads written result rest :=
  fun before => taken before before

/-- Where a pending fault would be placed does not matter to a reader that succeeds. -/
theorem Reads.settle (taken : reader.Reads written value rest) (place : Cursor → Cursor) :
    (settle place reader).Reads written value rest := by
  intro before
  rw [Reader.settle, taken before]

end Sequences

/-! ## Single bytes -/

section Bytes

variable {Result : Type} {result : Result} {byte : UInt8} {gap rest : Bytes}

/-- A step reads one byte. -/
theorem reads_step : step.Reads [byte] () rest := fun _ => rfl

/-- Blanks are skipped up to a byte that is none. -/
theorem skipSpace_eq (blank : IsBlank gap) (solid : isSpace byte = false) (before : Bytes) :
    Cursor.skipSpace { before, rest := gap ++ byte :: rest } =
      { before := gap.reverse ++ before, rest := byte :: rest } := by
  simp only [Cursor.skipSpace, Cursor.skip]
  induction gap generalizing before with
  | nil => simp [Cursor.skipFrom, solid]
  | cons first others inductionHypothesis =>
    obtain ⟨here, later⟩ := List.forall_mem_cons.mp blank
    simp [Cursor.skipFrom, here, inductionHypothesis later]

/-- Nothing is left behind blanks at the end. -/
theorem rest_skipSpace (blank : IsBlank gap) (before : Bytes) :
    (Cursor.skipSpace { before, rest := gap }).rest = [] := by
  simp only [Cursor.skipSpace, Cursor.skip]
  induction gap generalizing before with
  | nil => rfl
  | cons byte others inductionHypothesis =>
    obtain ⟨here, later⟩ := List.forall_mem_cons.mp blank
    rw [Cursor.skipFrom, if_pos here]
    exact inductionHypothesis later _

/-- Blanks are stepped over, and the byte after them is told and left in place. -/
theorem reads_peekSolid (blank : IsBlank gap) (solid : isSpace byte = false) :
    peekSolid.Reads gap (some byte) (byte :: rest) := by
  intro before
  rw [peekSolid, skipSpace_eq blank solid]
  rfl

/-- A reader that looks for a byte steps over the blanks before it. -/
theorem Reads.afterGap {next : Option UInt8 → Reader Result} {others : Bytes}
    (blank : IsBlank gap) (solid : isSpace byte = false)
    (taken : (next (some byte)).Reads (byte :: others) result rest) :
    (peekSolid >>= next).Reads (gap ++ byte :: others) result rest :=
  (reads_peekSolid blank solid).bind taken

/-- It may leave the byte in place. -/
theorem Reads.atGap {next : Option UInt8 → Reader Result} (blank : IsBlank gap)
    (solid : isSpace byte = false) (taken : (next (some byte)).Reads [] result (byte :: rest)) :
    (peekSolid >>= next).Reads gap result (byte :: rest) :=
  (reads_peekSolid blank solid).tell taken

/-- A colon is read behind blanks. -/
theorem reads_colon (blank : IsBlank gap) : colon.Reads (gap ++ [0x3A]) () rest :=
  Reads.afterGap blank rfl reads_step

/-- The end of an object is read. -/
theorem reads_endObject : endObject.Reads [0x7D] () rest :=
  Reads.afterGap isBlank_nil rfl reads_step

/-- The end of a list is read. -/
theorem reads_endList : endList.Reads [0x5D] () rest :=
  Reads.afterGap isBlank_nil rfl reads_step

end Bytes

/-! ## Brackets -/

section Brackets

variable {Value : Type} {inside : Reader Value} {place : Cursor → Cursor} {ends : Reader Unit}
  {value : Value} {opening closing : UInt8} {written rest : Bytes}

/-- What `inObject` and `inList` have in common: an opening bracket, the inside, and what reads the
closing bracket. -/
def bracketed (place : Cursor → Cursor) (ends : Reader Unit) (inside : Reader Value) :
    Reader Value := do
  step
  let value ← settle place inside
  ends
  pure value

/-- Brackets are read around what is inside. -/
theorem Reads.bracketed (ended : ends.Reads [closing] () rest)
    (taken : inside.Reads written value (closing :: rest)) :
    (bracketed place ends inside).Reads (opening :: written ++ [closing]) value rest := by
  have closed : (ends >>= fun _ => pure value).Reads [closing] value rest :=
    ended.tell (reads_pure value rest)
  exact reads_step.bind ((taken.settle place).bind closed)

/-- Braces are read around what is inside. -/
theorem Reads.inObject (taken : inside.Reads written value (0x7D :: rest)) :
    (inObject inside).Reads (0x7B :: written ++ [0x7D]) value rest :=
  Reads.bracketed reads_endObject taken

/-- Square brackets are read around what is inside. -/
theorem Reads.inList (taken : inside.Reads written value (0x5D :: rest)) :
    (inList inside).Reads (0x5B :: written ++ [0x5D]) value rest :=
  Reads.bracketed reads_endList taken

end Brackets

end Reader

end ElmWorkbench.Json
