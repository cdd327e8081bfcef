import ElmWorkbench.Proofs.Json.Reading
import ElmWorkbench.Proofs.Json.Undamaged
/-!
# What readers make of bytes

`Reader.Gives` tells what a reader makes of bytes before a given rest: it takes them and gives a
value, or it gives up for whatever reason. So it says as much as `Reader.Reads` of bytes that a
reader takes (`Reader.gives_some_iff`), and it is carried through sequences whether or not they come
to their end (`Reader.Gives.bind`).
-/

namespace ElmWorkbench.Json.Reader

/-- A reader takes `written` before `rest` and gives the value for it, or gives up if there is
none. -/
def Gives {Value : Type} (reader : Reader Value) (written : Bytes) (outcome : Option Value)
    (rest : Bytes) : Prop :=
  ∀ before, (reader { before, rest := written ++ rest }).toOption =
    outcome.map fun value => (value, { before := written.reverse ++ before, rest })

section Sequences

variable {Value Result : Type} {reader first : Reader Value} {next : Value → Reader Result}
  {outcome : Option Value} {value : Value} {written front back rest : Bytes}

/-- An attempt has a value if it succeeds with it. -/
theorem toOption_eq_some_iff {Error : Type} {attempt : Except Error Value} :
    attempt.toOption = some value ↔ attempt = .ok value := by
  cases attempt <;> simp [Except.toOption]

/-- To give a value is to read it. -/
theorem gives_some_iff : reader.Gives written (some value) rest ↔
    reader.Reads written value rest :=
  forall_congr' fun _ => toOption_eq_some_iff

/-- What is read is given. -/
theorem Reads.gives (taken : reader.Reads written value rest) :
    reader.Gives written (some value) rest :=
  gives_some_iff.mpr taken

/-- What a reader gives up on does not matter if it gives up on everything. -/
theorem Refuses.gives (refuses : reader.Refuses) (written rest : Bytes) :
    reader.Gives written none rest := by
  intro before
  cases read : reader { before, rest := written ++ rest } with
  | error problem => rfl
  | ok result => exact absurd read (refuses _ _ _)

/-- Of two readers the second one has the value. -/
theorem toOption_bind (start : Cursor) : ((first >>= next) start).toOption =
    (first start).toOption.bind fun read => (next read.1 read.2).toOption := by
  change (first start >>= fun read => next read.1 read.2).toOption = _
  cases first start <;> rfl

/-- If the first reader gives up, nothing is left to be known of the next one. -/
theorem Gives.bind {further : Value → Option Result}
    (given : first.Gives front outcome (back ++ rest))
    (givenNext : ∀ value ∈ outcome, (next value).Gives back (further value) rest) :
    (first >>= next).Gives (front ++ back) (outcome.bind further) rest := by
  intro before
  rw [toOption_bind, List.append_assoc, given before]
  cases outcome with
  | none => rfl
  | some value =>
    refine (givenNext value rfl _).trans ?_
    rw [List.reverse_append, List.append_assoc]
    rfl

/-- A reader that fails does so with whatever follows. -/
theorem Gives.none_bind (given : first.Gives written none rest) :
    (first >>= next).Gives written none rest := by
  intro before
  rw [toOption_bind, given before]
  rfl

/-- A sequence goes on behind what its first reader takes. -/
theorem Reads.goesOn {result : Option Result} (taken : first.Reads front value (back ++ rest))
    (given : (next value).Gives back result rest) :
    (first >>= next).Gives (front ++ back) result rest :=
  taken.gives.bind fun _ same => Option.some.inj same ▸ given

/-- A reader that takes nothing more tells what comes of what was read. -/
theorem Gives.tell {further : Value → Option Result} (given : first.Gives written outcome rest)
    (told : ∀ value ∈ outcome, (next value).Gives [] (further value) rest) :
    (first >>= next).Gives written (outcome.bind further) rest := by
  rw [← List.append_nil written]
  exact Gives.bind given told

/-- An outcome can be changed in what follows. -/
theorem Gives.tell_pure (change : Value → Result) (given : reader.Gives written outcome rest) :
    (do let value ← reader; pure (change value)).Gives written (outcome.map change) rest := by
  rw [Option.map_eq_bind]
  exact given.tell fun value _ => (reads_pure (change value) rest).gives

/-- An outcome can be changed. -/
theorem Gives.map (change : Value → Result) (given : reader.Gives written outcome rest) :
    (change <$> reader).Gives written (outcome.map change) rest :=
  given.tell_pure change

/-- A loop that is bounded by the number of bytes left is followed with a bound that is greater
than the number of bytes in question. -/
theorem Gives.bounded (loop : Nat → Reader Value)
    (given : ∀ bound, written.length < bound → (loop bound).Gives written outcome rest) :
    (do loop ((← get).rest.length + 1)).Gives written outcome rest := by
  intro before
  have enough : written.length < (written ++ rest).length + 1 := by
    rw [List.length_append]
    omega
  exact given _ enough before

/-- Where a pending fault would be placed does not matter. -/
theorem toOption_settle (place : Cursor → Cursor) (start : Cursor) :
    (Reader.settle place reader start).toOption = (reader start).toOption := by
  rw [Reader.settle]
  split
  · next same => rw [same]; rfl
  · rfl

/-- Telling the place of a failure in another way changes no outcome. -/
theorem Gives.settled {result : Option Result} (given : (first >>= next).Gives written result rest)
    (place : Cursor → Cursor) : (Reader.settle place first >>= next).Gives written result rest := by
  intro before
  rw [← given before, toOption_bind, toOption_bind, toOption_settle]

/-- A reader that looks for a byte steps over the blanks before it. -/
theorem Gives.afterGap {next : Option UInt8 → Reader Value} {gap others : Bytes} {byte : UInt8}
    (blank : IsBlank gap) (solid : isSpace byte = false)
    (given : (next (some byte)).Gives (byte :: others) outcome rest) :
    (peekSolid >>= next).Gives (gap ++ byte :: others) outcome rest :=
  (reads_peekSolid blank solid).goesOn given

end Sequences

/-! ## Brackets -/

section Brackets

variable {Value : Type} {inside : Reader Value} {place : Cursor → Cursor} {ends : Reader Unit}
  {outcome : Option Value} {opening closing : UInt8} {written rest : Bytes}

/-- Brackets are read around an outcome. -/
theorem Gives.bracketed (ended : ends.Reads [closing] () rest)
    (given : inside.Gives written outcome (closing :: rest)) :
    (bracketed place ends inside).Gives (opening :: written ++ [closing]) outcome rest := by
  have closed (value : Value) : (ends >>= fun _ => pure value).Gives [closing] (some value) rest :=
    (ended.tell (reads_pure value rest)).gives
  have whole := given.bind fun value _ => closed value
  rw [Option.bind_fun_some] at whole
  exact reads_step.goesOn (whole.settled place)

/-- Braces are read around an outcome. -/
theorem Gives.inObject (given : inside.Gives written outcome (0x7D :: rest)) :
    (inObject inside).Gives (0x7B :: written ++ [0x7D]) outcome rest :=
  Gives.bracketed reads_endObject given

/-- Square brackets are read around an outcome. -/
theorem Gives.inList (given : inside.Gives written outcome (0x5D :: rest)) :
    (inList inside).Gives (0x5B :: written ++ [0x5D]) outcome rest :=
  Gives.bracketed reads_endList given

end Brackets

end ElmWorkbench.Json.Reader
