import ElmWorkbench.Json.Variant
import ElmWorkbench.Proofs.Except
import ElmWorkbench.Proofs.Text.Boundary
/-!
# Readers that take UTF-8 only

A reader that uses all that it takes takes nothing but UTF-8 from a message, whatever the message
is (`Reader.IsSound`): blanks, words and numbers are bytes below `0x80`, and a text that is used has
to decode. What a text means is followed back to the bytes that are written (`StandsFor`).
-/

namespace ElmWorkbench.Json

/-- A relation between the cursors before and after a part of a message. -/
abbrev Stretch := Cursor → Cursor → Prop

/-- Nothing but UTF-8 stands between two cursors. -/
def Undamaged : Stretch := fun start stop =>
  ∃ bytes, start.rest = bytes ++ stop.rest ∧ (Utf8.decode? bytes).isSome

/-- Nothing is not damaged. -/
theorem Undamaged.refl (start : Cursor) : Undamaged start start :=
  ⟨[], rfl, by decide⟩

/-- Two parts that are not damaged are not damaged together. -/
theorem Undamaged.trans {start middle stop : Cursor} (first : Undamaged start middle)
    (second : Undamaged middle stop) : Undamaged start stop := by
  obtain ⟨front, taken, frontIsText⟩ := first
  obtain ⟨back, takenNext, backIsText⟩ := second
  exact ⟨front ++ back, by rw [taken, takenNext, List.append_assoc],
    Utf8.isSome_decode?_append frontIsText backIsText⟩

/-- An ASCII byte is UTF-8. -/
theorem undamaged_advance {start : Cursor} {byte : UInt8} (comesNext : start.rest.head? = some byte)
    (ascii : byte < 0x80) : Undamaged start start.advance := by
  obtain ⟨before, rest⟩ := start
  obtain ⟨others, rfl⟩ := List.head?_eq_some_iff.mp comesNext
  exact ⟨[byte], rfl, Utf8.isSome_decode?_of_ascii (List.forall_mem_singleton.mpr ascii)⟩

/-- ASCII bytes that are skipped are UTF-8. -/
theorem undamaged_skip (start : Cursor) {test : UInt8 → Bool}
    (ascii : ∀ byte, test byte → byte < 0x80) : Undamaged start (start.skip test) := by
  obtain ⟨before, rest⟩ := start
  rw [Cursor.skip]
  dsimp only
  induction rest generalizing before with
  | nil => exact .refl _
  | cons byte others inductionHypothesis =>
    rw [Cursor.skipFrom]
    split
    · next passes =>
      have one : Undamaged ⟨before, byte :: others⟩ ⟨byte :: before, others⟩ :=
        undamaged_advance rfl (ascii byte passes)
      exact one.trans (inductionHypothesis _)
    · exact .refl _

/-- Bytes of which all are found to be ASCII are ASCII. -/
theorem ascii_of_all {bytes : Bytes} (all : bytes.all fun byte => byte < 0x80) :
    ∀ byte ∈ bytes, byte < 0x80 := by
  simpa using all

/-- Blanks are ASCII. -/
theorem ascii_of_isSpace {byte : UInt8} (blank : isSpace byte) : byte < 0x80 := by
  simp only [isSpace, Bool.or_eq_true, decide_eq_true_eq] at blank
  rcases blank with ((rfl | rfl) | rfl) | rfl <;> decide

/-- Digits are ASCII. -/
theorem ascii_of_isDigit {byte : UInt8} (digit : isDigit byte) : byte < 0x80 := by
  simp only [isDigit, Bool.and_eq_true, decide_eq_true_eq] at digit
  exact UInt8.lt_of_le_of_lt digit.2 (by decide)

namespace Reader

variable {Value Result : Type} {reader first : Reader Value} {next : Value → Reader Result}
  {head : Option UInt8} {byte : UInt8}

/-! ## Sequences of readers -/

/-- Two readers succeed together if the second does so where the first has come to. -/
theorem bind_eq_ok_iff {start stop : Cursor} {result : Result} :
    (first >>= next) start = .ok (result, stop) ↔
      ∃ value middle, first start = .ok (value, middle) ∧
        next value middle = .ok (result, stop) := by
  change (first start >>= fun read => next read.1 read.2) = _ ↔ _
  rw [Except.bind_eq_ok_iff, Prod.exists]

/-- What is made of a value is read where the value is. -/
theorem map_eq_ok_iff {change : Value → Result} {start stop : Cursor} {result : Result} :
    (change <$> reader) start = .ok (result, stop) ↔
      ∃ value, reader start = .ok (value, stop) ∧ change value = result := by
  change (reader >>= fun value => pure (change value)) start = _ ↔ _
  rw [bind_eq_ok_iff]
  constructor
  · rintro ⟨value, _, read, changed⟩
    cases changed
    exact ⟨value, read, rfl⟩
  · rintro ⟨value, read, rfl⟩
    exact ⟨value, stop, read, rfl⟩

/-- Whatever a reader takes is a stretch of this kind. -/
def Crosses (reader : Reader Value) (stretch : Stretch) : Prop :=
  ∀ start value stop, reader start = .ok (value, stop) → stretch start stop

/-- Whatever a reader takes is UTF-8, and what it gives is such a value. -/
def Yields (property : Value → Prop) (reader : Reader Value) : Prop :=
  ∀ start value stop, reader start = .ok (value, stop) → Undamaged start stop ∧ property value

/-- The same where the given byte comes next. -/
def YieldsAt (head : Option UInt8) (property : Value → Prop) (reader : Reader Value) : Prop :=
  ∀ start value stop, start.rest.head? = head → reader start = .ok (value, stop) →
    Undamaged start stop ∧ property value

/-- Whatever a reader takes is UTF-8. -/
abbrev IsSound (reader : Reader Value) : Prop :=
  reader.Yields fun _ => True

/-- Whatever a reader takes is UTF-8 where the given byte comes next. -/
abbrev IsSoundAt (head : Option UInt8) (reader : Reader Value) : Prop :=
  reader.YieldsAt head fun _ => True

/-- A reader that always gives up. -/
def Refuses (reader : Reader Value) : Prop :=
  ∀ start value stop, reader start ≠ .ok (value, stop)

/-- A failure is never read. -/
theorem refuses_fail (fault : Fault) : Refuses (fail fault : Reader Value) :=
  fun _ _ _ => nofun

/-- A failure at the next byte is never read. -/
theorem refuses_failNext (fault : Fault) : Refuses (failNext fault : Reader Value) :=
  fun _ _ _ => nofun

/-- A failure of a whole value is never read. -/
theorem refuses_failWhole (fault : Fault) : Refuses (failWhole fault : Reader Value) :=
  fun _ _ _ => nofun

/-- A reader that is followed by a failure always gives up. -/
theorem Refuses.after (refuses : ∀ value, (next value).Refuses) : (first >>= next).Refuses := by
  intro start value stop read
  obtain ⟨value, middle, -, read⟩ := bind_eq_ok_iff.mp read
  exact refuses value _ _ _ read

section Yielding

variable {property : Value → Prop} {outcome : Result → Prop} {start stop : Cursor} {value : Value}

/-- What such a reader takes is UTF-8. -/
theorem Yields.undamaged (yields : reader.Yields property)
    (read : reader start = .ok (value, stop)) : Undamaged start stop :=
  (yields start value stop read).1

/-- What such a reader takes at the byte is UTF-8. -/
theorem YieldsAt.undamaged (yields : reader.YieldsAt head property)
    (comesNext : start.rest.head? = head) (read : reader start = .ok (value, stop)) :
    Undamaged start stop :=
  (yields start value stop comesNext read).1

/-- What such a reader takes is an undamaged stretch. -/
theorem Yields.crosses (yields : reader.Yields property) : reader.Crosses Undamaged :=
  fun _ _ _ => yields.undamaged

/-- What holds wherever a reader starts holds at each byte. -/
theorem Yields.here (yields : reader.Yields property) : reader.YieldsAt head property :=
  fun start value stop _ => yields start value stop

/-- A reader that gives such values at a byte gives those of a weaker kind. -/
theorem YieldsAt.imp {weaker : Value → Prop} (yields : reader.YieldsAt head property)
    (weakens : ∀ value, property value → weaker value) : reader.YieldsAt head weaker :=
  fun start value stop comesNext read =>
    (yields start value stop comesNext read).imp_right (weakens value)

/-- A reader that gives such values gives those of a weaker kind. -/
theorem Yields.imp {weaker : Value → Prop} (yields : reader.Yields property)
    (weakens : ∀ value, property value → weaker value) : reader.Yields weaker :=
  fun start value stop read => (yields start value stop read).imp_right (weakens value)

/-- A reader that always gives up gives no value of another kind. -/
theorem Refuses.yields (refuses : reader.Refuses) : reader.Yields property :=
  fun start value stop read => absurd read (refuses start value stop)

/-- A reader that always gives up gives no value of another kind at a byte. -/
theorem Refuses.yieldsAt (refuses : reader.Refuses) : reader.YieldsAt head property :=
  refuses.yields.here

/-- A value that holds is given without reading a byte. -/
theorem yields_pure (holds : property value) : (pure value : Reader Value).Yields property := by
  intro start _ stop read
  cases read
  exact ⟨.refl start, holds⟩

/-- What follows a reader at a byte is UTF-8 with it. -/
theorem YieldsAt.bind (yields : first.YieldsAt head property)
    (further : ∀ value, property value → (next value).Yields outcome) :
    (first >>= next).YieldsAt head outcome := by
  intro start result stop comesNext read
  obtain ⟨value, middle, read, readNext⟩ := bind_eq_ok_iff.mp read
  obtain ⟨taken, given⟩ := yields start value middle comesNext read
  obtain ⟨takenNext, givenNext⟩ := further value given _ _ _ readNext
  exact ⟨taken.trans takenNext, givenNext⟩

/-- What follows a reader is UTF-8 with it. -/
theorem Yields.bind (yields : first.Yields property)
    (further : ∀ value, property value → (next value).Yields outcome) :
    (first >>= next).Yields outcome := fun start result stop read =>
  yields.here.bind further start result stop rfl read

/-- What is made of a value is read over the same UTF-8. -/
theorem Yields.map (yields : reader.Yields property) (change : Value → Result) :
    (change <$> reader).IsSound := by
  intro start result stop read
  obtain ⟨value, read, -⟩ := map_eq_ok_iff.mp read
  exact ⟨yields.undamaged read, trivial⟩

/-- What is made of a value at a byte is read over the same UTF-8. -/
theorem YieldsAt.map (yields : reader.YieldsAt head property) (change : Value → Result) :
    (change <$> reader).IsSoundAt head := by
  intro start result stop comesNext read
  obtain ⟨value, read, -⟩ := map_eq_ok_iff.mp read
  exact ⟨yields.undamaged comesNext read, trivial⟩

/-- A step over an ASCII byte is over UTF-8. -/
theorem isSoundAt_step (ascii : byte < 0x80) : step.IsSoundAt (some byte) := by
  intro start _ stop comesNext read
  cases read
  exact ⟨undamaged_advance comesNext ascii, trivial⟩

/-- A reader may look for the next byte behind blanks. -/
theorem yields_atSolid {next : Option UInt8 → Reader Result}
    (yields : ∀ head, (next head).YieldsAt head outcome) : (peekSolid >>= next).Yields outcome := by
  intro start result stop read
  obtain ⟨_, _, looked, read⟩ := bind_eq_ok_iff.mp read
  cases looked
  obtain ⟨taken, given⟩ := yields _ _ _ _ rfl read
  exact ⟨(undamaged_skip start fun _ => ascii_of_isSpace).trans taken, given⟩

/-- It may refuse the end of the message and go on with any byte. -/
theorem yields_solid {absent : Reader Result} {next : UInt8 → Reader Result}
    (refuses : absent.Refuses) (yields : ∀ byte, (next byte).YieldsAt (some byte) outcome) :
    (show Reader Result from do
      match ← peekSolid with
      | none => absent
      | some byte => next byte).Yields outcome := by
  refine yields_atSolid fun head => ?_
  cases head with
  | none => exact refuses.yieldsAt
  | some byte => exact yields byte

/-- Where only one mark is taken, that is UTF-8. -/
theorem isSoundAt_mark {mark : UInt8} {other : Reader Unit} (ascii : mark < 0x80)
    (refuses : other.Refuses) : (if byte = mark then step else other).IsSoundAt (some byte) := by
  split
  · next same => exact isSoundAt_step (same ▸ ascii)
  · exact refuses.yieldsAt

/-- A reader that goes on with the next byte behind blanks has found one. -/
theorem exists_solid {next : UInt8 → Reader Result} {fault : Fault} {start stop : Cursor}
    {result : Result} (read : (show Reader Result from do
      match ← peekSolid with
      | none => failNext fault
      | some byte => next byte) start = .ok (result, stop)) :
    ∃ byte, start.skipSpace.rest.head? = some byte ∧
      next byte start.skipSpace = .ok (result, stop) := by
  obtain ⟨_, _, looked, read⟩ := bind_eq_ok_iff.mp read
  cases looked
  cases comesNext : start.skipSpace.rest.head? with
  | none =>
    rw [comesNext] at read
    cases read
  | some byte =>
    rw [comesNext] at read
    exact ⟨byte, rfl, read⟩

/-- A reader may go on by the byte that comes next. -/
theorem yields_atNext {next : Option UInt8 → Reader Result}
    (yields : ∀ head, (next head).YieldsAt head outcome) : (peek >>= next).Yields outcome := by
  intro start result stop read
  obtain ⟨_, _, looked, read⟩ := bind_eq_ok_iff.mp read
  cases looked
  exact yields _ _ _ _ rfl read

/-- A reader may depend on where it stands. -/
theorem yields_get {next : Cursor → Reader Result}
    (yields : ∀ cursor, (next cursor).Yields outcome) : (get >>= next).Yields outcome := by
  intro start result stop read
  obtain ⟨_, _, looked, read⟩ := bind_eq_ok_iff.mp read
  cases looked
  exact yields _ _ _ _ read

/-- Telling the place of a failure in another way changes no success. -/
theorem eq_of_settle {place : Cursor → Cursor}
    (read : settle place reader start = .ok (value, stop)) : reader start = .ok (value, stop) := by
  rw [settle] at read
  split at read
  · cases read
  · exact read

/-- Telling the place of a failure in another way reads no other bytes. -/
theorem Yields.settle (yields : reader.Yields property) (place : Cursor → Cursor) :
    (settle place reader).Yields property :=
  fun start value stop read => yields start value stop (eq_of_settle read)

end Yielding

/-! ## Words and numbers -/

/-- ASCII letters are UTF-8. -/
theorem isSound_letters {letters : Bytes} (ascii : ∀ letter ∈ letters, letter < 0x80) :
    (Reader.letters letters).IsSound := by
  induction letters with
  | nil => exact yields_pure trivial
  | cons letter others inductionHypothesis =>
    obtain ⟨here, later⟩ := List.forall_mem_cons.mp ascii
    intro start result stop read
    obtain ⟨_, _, taken, read⟩ := bind_eq_ok_iff.mp read
    cases taken
    cases comesNext : start.rest.head? with
    | none =>
      rw [comesNext] at read
      cases read
    | some byte =>
      simp only [comesNext] at read
      split at read
      · next same =>
        have further := (inductionHypothesis later).undamaged read
        exact ⟨(undamaged_advance comesNext (same ▸ here)).trans further, trivial⟩
      · cases read

/-- A single value, and no bracket. -/
def IsSingle : Found → Prop
  | .list | .object => False
  | _ => True

/-- A number of either kind. -/
def IsNumber : Found → Prop
  | .integer _ | .fraction _ => True
  | _ => False

/-- A number that is none of the integers. -/
def IsFraction : Found → Prop
  | .fraction _ => True
  | _ => False

/-- A number is a single value. -/
theorem IsNumber.isSingle {found : Found} (number : IsNumber found) : IsSingle found := by
  cases found <;> trivial

/-- A fraction is a number. -/
theorem IsFraction.isNumber {found : Found} (fraction : IsFraction found) : IsNumber found := by
  cases found <;> trivial

/-- A word in ASCII is a single value. -/
theorem yieldsAt_word {letters : Bytes} {meaning : Found} (firstAscii : byte < 0x80)
    (ascii : ∀ letter ∈ letters, letter < 0x80) (single : IsSingle meaning) :
    (word letters meaning).YieldsAt (some byte) IsSingle :=
  (isSoundAt_step firstAscii).bind fun _ _ => (isSound_letters ascii).bind fun _ _ =>
    yields_pure single

/-- Digits are UTF-8. -/
theorem isSound_digits : digits.IsSound := by
  intro start _ stop read
  cases read
  exact ⟨undamaged_skip start fun _ => ascii_of_isDigit, trivial⟩

/-- A sign is UTF-8. -/
theorem isSound_sign : sign.IsSound := by
  refine yields_atNext fun head => ?_
  cases head with
  | none => exact (yields_pure trivial).here
  | some byte =>
    dsimp only
    split
    · next minus => exact (isSoundAt_step (minus ▸ by decide)).bind fun _ _ => yields_pure trivial
    · split
      · next plus => exact (isSoundAt_step (plus ▸ by decide)).bind fun _ _ => yields_pure trivial
      · exact (yields_pure trivial).here

/-- A double is a fraction. -/
theorem yields_double (negative : Bool) (significand : Nat) (exponent : Int) :
    (double negative significand exponent).Yields IsFraction := by
  rw [double]
  split
  · exact (refuses_fail _).yields
  · exact yields_pure trivial

/-- A sign for an exponent is looked for behind its letter only. -/
theorem yieldsAt_exponent (ascii : byte < 0x80) (negative : Bool) (significand : Nat)
    (place : Int) : (exponent negative significand place).YieldsAt (some byte) IsFraction := by
  refine (isSoundAt_step ascii).bind fun _ _ => isSound_sign.bind fun down _ =>
    yields_get fun cursor => ?_
  split
  · exact (refuses_fail _).yields
  · split
    · refine yields_get fun start => isSound_digits.bind fun written _ => ?_
      split
      split
      · exact yields_double _ _ _
      · split
        · exact (Refuses.after fun _ => refuses_fail _).yields
        · exact yields_pure trivial
    · exact (Refuses.after fun _ => refuses_fail _).yields

/-- Where an exponent may follow, an ASCII letter begins it. -/
theorem yields_atExponent {next : Bool → Reader Result} {outcome : Result → Prop}
    (exponent : ∀ byte, byte < 0x80 → (next true).YieldsAt (some byte) outcome)
    (none : (next false).Yields outcome) : (atExponent >>= next).Yields outcome := by
  intro start result stop read
  obtain ⟨_, _, looked, read⟩ := bind_eq_ok_iff.mp read
  cases looked
  cases letter : decide (start.rest.head? = some 0x65) || decide (start.rest.head? = some 0x45) with
  | false =>
    rw [letter] at read
    exact none _ _ _ read
  | true =>
    rw [letter] at read
    simp only [Bool.or_eq_true, decide_eq_true_eq] at letter
    rcases letter with small | capital
    · exact exponent _ (by decide) _ _ _ small read
    · exact exponent _ (by decide) _ _ _ capital read

/-- What follows the digits of a fraction makes up a fraction. -/
theorem yields_tail (negative : Bool) (significand : Nat) (place : Int) :
    (tail negative significand place).Yields IsFraction := by
  refine yields_atExponent (fun byte ascii => ?_) ?_
  · exact yieldsAt_exponent ascii _ _ _
  · exact yields_double _ _ _

/-- What follows a point makes up a fraction. -/
theorem yieldsAt_fraction (ascii : byte < 0x80) (negative : Bool) (significand : Nat)
    (place : Int) : (fraction negative significand place).YieldsAt (some byte) IsFraction := by
  refine (isSoundAt_step ascii).bind fun _ _ => isSound_digits.bind fun written _ => ?_
  split
  · refine yields_atNext fun head => Refuses.yieldsAt ?_
    split
    · exact refuses_failNext _
    · exact refuses_failNext _
  · exact yields_tail _ _ _

/-- Digits without a point are a number. -/
theorem isNumber_integerOf (negative : Bool) (significand : Nat) :
    IsNumber (integerOf negative significand) := by
  rw [integerOf]
  split
  · trivial
  · split <;> trivial

/-- What is read as a numeral is a number in UTF-8. -/
theorem yields_numeral (negative : Bool) : (numeral negative).Yields IsNumber := by
  refine yields_get fun cursor => ?_
  split
  · exact (refuses_fail _).yields
  · split
    · exact (Refuses.after fun _ => refuses_fail _).yields
    · refine yields_get fun start => isSound_digits.bind fun written _ => ?_
      split
      · exact (Refuses.after fun _ => refuses_failNext _).yields
      · split
        refine yields_atNext fun head => ?_
        split
        · next point =>
          rw [point]
          exact (yieldsAt_fraction (by decide) _ _ _).imp fun _ => IsFraction.isNumber
        · refine (yields_atExponent (fun byte _ => ?_) ?_).here
          · split
            · exact (yields_pure (isNumber_integerOf negative _)).here
            · exact ((yields_tail _ _ _).imp fun _ => IsFraction.isNumber).here
          · split
            · exact yields_pure (isNumber_integerOf negative _)
            · exact (yields_tail _ _ _).imp fun _ => IsFraction.isNumber

end Reader

/-! ## Texts -/

section Texts

variable {state next : TextState} {byte meantByte : UInt8} {raw meant completed : Bytes}

/-- The letters of escapes, and what they mean, are ASCII. -/
theorem ascii_of_byteOfEscape? (known : byteOfEscape? byte = some meantByte) :
    byte < 0x80 ∧ meantByte < 0x80 := by
  simp only [byteOfEscape?, Bool.or_eq_true, decide_eq_true_eq] at known
  split at known
  · next letter =>
    obtain rfl : byte = meantByte := Option.some.inj known
    rcases letter with (rfl | rfl) | rfl <;> decide
  · repeat' split at known
    all_goals first | cases known; next letter => subst letter; decide | cases known

/-- Hexadecimal digits are ASCII. -/
theorem ascii_of_hexValue? {digits : Bytes} {value : Nat} (read : hexValue? digits = some value) :
    ∀ digit ∈ digits, digit < 0x80 := by
  rw [hexValue?] at read
  generalize 0 = start at read
  induction digits generalizing start with
  | nil => exact List.forall_mem_nil _
  | cons digit others inductionHypothesis =>
    obtain ⟨further, known, read⟩ := Option.bind_eq_some_iff.mp read
    refine List.forall_mem_cons.mpr ⟨?_, inductionHypothesis _ read⟩
    obtain ⟨_, isDigit, -⟩ := Option.map_eq_some_iff.mp known
    simp only [hexDigit?, Bool.and_eq_true, decide_eq_true_eq] at isDigit
    split at isDigit
    · next range => exact UInt8.lt_of_le_of_lt range.2 (by decide)
    · split at isDigit
      · next range => exact UInt8.lt_of_le_of_lt range.2 (by decide)
      · split at isDigit
        · next range => exact UInt8.lt_of_le_of_lt range.2 (by decide)
        · cases isDigit

/-- Where a text can go on with the bytes that are meant, it can with those that are written. -/
def StandsFor (raw meant : Bytes) : Prop :=
  ∀ front, (Utf8.decode? (front ++ meant)).isSome → (Utf8.decode? (front ++ raw)).isSome

/-- The rest of an escape sequence and what follows it: the sequence stands for one character. -/
def Completes (raw meant : Bytes) : Prop :=
  ∃ escape character rawRest meantRest, raw = escape ++ rawRest ∧
    (∀ byte ∈ escape, byte < 0x80) ∧ meant = String.utf8EncodeChar character ++ meantRest ∧
    StandsFor rawRest meantRest

/-- An ASCII byte may come before the rest of an escape. -/
theorem Completes.cons (completes : Completes raw meant) (ascii : byte < 0x80) :
    Completes (byte :: raw) meant := by
  obtain ⟨escape, character, rawRest, meantRest, rfl, escapeAscii, rfl, stands⟩ := completes
  exact ⟨byte :: escape, character, rawRest, meantRest, rfl,
    List.forall_mem_cons.mpr ⟨ascii, escapeAscii⟩, rfl, stands⟩

/-- The last byte of an escape completes its character. -/
theorem StandsFor.completes (stands : StandsFor raw meant) (character : Char)
    (ascii : byte < 0x80) : Completes (byte :: raw) (String.utf8EncodeChar character ++ meant) :=
  ⟨[byte], character, raw, meant, rfl, List.forall_mem_singleton.mpr ascii, rfl, stands⟩

/-- The bytes before an escape sequence are whole characters, since the sequence stands for one. -/
theorem Completes.standsFor (completes : Completes raw meant) :
    StandsFor (escapeMark :: raw) meant := by
  obtain ⟨escape, character, rawRest, meantRest, rfl, ascii, rfl, stands⟩ := completes
  intro front text
  obtain ⟨frontIsText, restIsText⟩ := Utf8.isSome_decode?_around text
  have sequence : (Utf8.decode? (escapeMark :: escape)).isSome :=
    Utf8.isSome_decode?_of_ascii (List.forall_mem_cons.mpr ⟨by decide, ascii⟩)
  exact Utf8.isSome_decode?_append frontIsText
    (Utf8.isSome_decode?_append sequence (stands [] restIsText))

/-- What is known of the bytes that are left of a text, by where reading stands. -/
def TextState.Leaves (raw meant : Bytes) : TextState → Prop
  | .plain => StandsFor raw meant
  | .digits read _ => (∀ digit ∈ read, digit < 0x80) ∧ Completes raw meant
  | _ => Completes raw meant

/-- What one byte inside a text does: it goes on with an escape sequence, or it completes a
character. -/
inductive TextState.Goes (byte : UInt8) : TextState → Bytes → TextState → Prop where
  | mark (isMark : byte = escapeMark) : Goes byte .plain [] .escape
  | plain (notMark : byte ≠ escapeMark) (noControl : ¬ byte < 0x20) : Goes byte .plain [byte] .plain
  | opensDigits (isLetter : byte = 0x75) : Goes byte .escape [] (.digits [] none)
  | letter {meantByte : UInt8} (notDigits : byte ≠ 0x75)
      (known : byteOfEscape? byte = some meantByte) : Goes byte .escape [meantByte] .plain
  | digit {read : Bytes} {leading : Option Nat} (few : read.length < 3) :
      Goes byte (.digits read leading) [] (.digits (read ++ [byte]) leading)
  | opensPair {read : Bytes} {code : Nat} (enough : ¬ read.length < 3)
      (known : hexValue? (read ++ [byte]) = some code) :
      Goes byte (.digits read none) [] (.pairMark code)
  | character {read : Bytes} {leading : Option Nat} {code : Nat} (character : Char)
      (enough : ¬ read.length < 3) (known : hexValue? (read ++ [byte]) = some code) :
      Goes byte (.digits read leading) (String.utf8EncodeChar character) .plain
  | pairMark {leading : Nat} (isMark : byte = escapeMark) :
      Goes byte (.pairMark leading) [] (.pairLetter leading)
  | pairLetter {leading : Nat} (isLetter : byte = 0x75) :
      Goes byte (.pairLetter leading) [] (.digits [] (some leading))

/-- A number ends an escape sequence, even if another one has to follow. -/
theorem TextState.goes_of_readCode {digits : Bytes} {leading : Option Nat} {code : Nat}
    (enough : ¬ digits.length < 3) (known : hexValue? (digits ++ [byte]) = some code)
    (read : readCode leading code = .ok (completed, next)) :
    TextState.Goes byte (.digits digits leading) completed next := by
  cases leading with
  | none =>
    rw [readCode] at read
    split at read
    · cases read
    · split at read <;> cases read
      · exact .opensPair enough known
      · rw [Utf8.encodeChars, List.flatMap_singleton]
        exact .character _ enough known
  | some first =>
    rw [readCode] at read
    split at read
    · obtain ⟨rfl, rfl⟩ := Prod.mk.inj (Except.ok.inj read)
      rw [Utf8.encodeChars, List.flatMap_singleton]
      exact .character _ enough known
    · cases read

/-- A byte inside a text goes on with an escape or completes a character. -/
theorem TextState.goes_of_read (read : state.read byte = .ok (completed, next)) :
    TextState.Goes byte state completed next := by
  cases state with
  | plain =>
    rw [TextState.read] at read
    split at read
    · next isMark =>
      cases read
      exact .mark isMark
    · next notMark =>
      split at read <;> cases read
      next noControl => exact .plain notMark noControl
  | escape =>
    rw [TextState.read] at read
    split at read
    · next isLetter =>
      cases read
      exact .opensDigits isLetter
    · next notDigits =>
      split at read <;> cases read
      next known => exact .letter notDigits known
  | digits digits leading =>
    rw [TextState.read] at read
    split at read
    · next few =>
      cases read
      exact .digit few
    · next enough =>
      split at read
      · next known => exact goes_of_readCode enough known read
      · cases read
  | pairMark leading =>
    rw [TextState.read] at read
    split at read <;> cases read
    next isMark => exact .pairMark isMark
  | pairLetter leading =>
    rw [TextState.read] at read
    split at read <;> cases read
    next isLetter => exact .pairLetter isLetter

/-- One byte of a text carries this over from what is left behind it. -/
theorem TextState.leaves_of_read (read : state.read byte = .ok (completed, next))
    (leaves : next.Leaves raw meant) : state.Leaves (byte :: raw) (completed ++ meant) := by
  have asciiOf {digits : Bytes} {code : Nat} (known : hexValue? (digits ++ [byte]) = some code) :
      (∀ digit ∈ digits, digit < 0x80) ∧ byte < 0x80 := by
    obtain ⟨digitsAscii, byteAscii⟩ := List.forall_mem_append.mp (ascii_of_hexValue? known)
    exact ⟨digitsAscii, byteAscii byte (List.mem_singleton_self _)⟩
  cases goes_of_read read with
  | mark isMark => exact isMark ▸ Completes.standsFor leaves
  | plain notMark noControl =>
    intro front text
    rw [← List.append_assoc] at text
    rw [List.append_cons]
    exact leaves _ text
  | opensDigits isLetter => exact leaves.2.cons (isLetter ▸ by decide)
  | letter notDigits known =>
    obtain ⟨ascii, meantAscii⟩ := ascii_of_byteOfEscape? known
    rw [← Utf8.encode_ascii meantAscii]
    exact StandsFor.completes leaves _ ascii
  | digit few =>
    obtain ⟨ascii, completes⟩ := leaves
    obtain ⟨digitsAscii, byteAscii⟩ := List.forall_mem_append.mp ascii
    exact ⟨digitsAscii, completes.cons (byteAscii byte (List.mem_singleton_self _))⟩
  | opensPair enough known => exact ⟨(asciiOf known).1, leaves.cons (asciiOf known).2⟩
  | character character enough known =>
    exact ⟨(asciiOf known).1, StandsFor.completes leaves character (asciiOf known).2⟩
  | pairMark isMark => exact leaves.cons (isMark ▸ by decide)
  | pairLetter isLetter => exact leaves.2.cons (isLetter ▸ by decide)

/-- A text that is read is followed to the quotation mark that closes it. -/
theorem exists_of_readTextFrom {decoded before rest : Bytes} {text : String} {after : Cursor}
    (read : readTextFrom state decoded before rest = .ok (text, after)) :
    ∃ raw meant, rest = raw ++ after.rest ∧ (Utf8.decode? (decoded.reverse ++ meant)).isSome ∧
      state.Leaves raw meant := by
  induction rest generalizing state decoded before with
  | nil => cases read
  | cons byte rest inductionHypothesis =>
    rw [readTextFrom] at read
    split at read
    · next closes =>
      obtain ⟨rfl, rfl⟩ : state = .plain ∧ byte = quote := by simpa using closes
      rw [textOfDecoded] at read
      split at read
      · next whole =>
        cases read
        refine ⟨[quote], [], rfl, by simp [whole], fun front text => ?_⟩
        rw [List.append_nil] at text
        exact Utf8.isSome_decode?_append text (by decide)
      · cases read
    · split at read
      · cases read
      · next completed next readByte =>
        obtain ⟨raw, meant, rfl, whole, leaves⟩ := inductionHypothesis read
        refine ⟨byte :: raw, completed ++ meant, rfl, ?_, TextState.leaves_of_read readByte leaves⟩
        simpa using whole

end Texts

namespace Reader

variable {Value Result : Type} {read reader first : Reader Value} {next : Value → Reader Result}

/-- A text that is used is UTF-8 with its quotation marks and escape sequences. -/
theorem isSoundAt_quotation : quotation.IsSoundAt (some quote) := by
  intro start text stop comesNext taken
  obtain ⟨raw, meant, rest, whole, leaves⟩ := exists_of_readTextFrom taken
  obtain ⟨before, _⟩ := start
  obtain ⟨others, rfl⟩ := List.head?_eq_some_iff.mp comesNext
  refine ⟨⟨quote :: raw, congrArg (quote :: ·) rest, ?_⟩, trivial⟩
  exact Utf8.isSome_decode?_append (show (Utf8.decode? [quote]).isSome by decide) (leaves [] whole)

/-! ## Single values -/

/-- The byte that opens a bracket. -/
def opening : Found → Option UInt8
  | .list => some 0x5B
  | .object => some 0x7B
  | _ => none

/-- What may be found at a byte that is no blank, and where it ends. -/
inductive Finds (solid : Cursor) : Found → Cursor → Prop where
  | word {byte : UInt8} {letters : Bytes} {found : Found} {stop : Cursor} (meaning : Found)
      (comesNext : solid.rest.head? = some byte) (ascii : ∀ letter ∈ byte :: letters, letter < 0x80)
      (single : IsSingle meaning) (read : Reader.word letters meaning solid = .ok (found, stop)) :
      Finds solid found stop
  | negative {found : Found} {stop : Cursor} (comesNext : solid.rest.head? = some 0x2D)
      (read : numeral true solid.advance = .ok (found, stop)) : Finds solid found stop
  | number {found : Found} {stop : Cursor} (read : numeral false solid = .ok (found, stop)) :
      Finds solid found stop
  | text {text : String} {stop : Cursor} (comesNext : solid.rest.head? = some quote)
      (read : quotation solid = .ok (text, stop)) : Finds solid (.text text) stop
  | bracket {found : Found} {byte : UInt8} (isBracket : opening found = some byte)
      (comesNext : solid.rest.head? = some byte) : Finds solid found solid

/-- What is told of a value is found at its first byte. -/
theorem finds_of_token {start stop : Cursor} {found : Found}
    (read : token start = .ok (found, stop)) : Finds start.skipSpace found stop := by
  obtain ⟨byte, comesNext, read⟩ := exists_solid read
  -- The branches of the reader, one test after the other.
  split at read
  · next same =>
    exact .word .null comesNext (ascii_of_all (same ▸ by decide)) trivial read
  split at read
  · next same =>
    exact .word (.boolean true) comesNext (ascii_of_all (same ▸ by decide)) trivial read
  split at read
  · next same =>
    exact .word (.boolean false) comesNext (ascii_of_all (same ▸ by decide)) trivial read
  split at read
  · next same => exact .negative (same ▸ comesNext) read
  split at read
  · exact .number read
  split at read
  · next same =>
    obtain ⟨text, quoted, rfl⟩ := map_eq_ok_iff.mp read
    exact .text (same ▸ comesNext) quoted
  split at read
  · next same =>
    cases read
    exact .bracket rfl (same ▸ comesNext)
  split at read
  · next same =>
    cases read
    exact .bracket rfl (same ▸ comesNext)
  · cases read

/-- A bracket that is told is left in place. -/
theorem undamaged_of_token {start stop : Cursor} {found : Found}
    (read : token start = .ok (found, stop)) :
    Undamaged start stop ∧ (IsSingle found ∨ stop.rest.head? = opening found) := by
  have toSolid := undamaged_skip start fun _ => ascii_of_isSpace
  cases finds_of_token read with
  | word meaning comesNext ascii single read =>
    obtain ⟨firstAscii, ascii⟩ := List.forall_mem_cons.mp ascii
    obtain ⟨taken, isSingle⟩ := yieldsAt_word firstAscii ascii single _ _ _ comesNext read
    exact ⟨toSolid.trans taken, .inl isSingle⟩
  | negative comesNext read =>
    obtain ⟨taken, number⟩ := yields_numeral true _ _ _ read
    exact ⟨toSolid.trans ((undamaged_advance comesNext (by decide)).trans taken),
      .inl number.isSingle⟩
  | number read =>
    obtain ⟨taken, number⟩ := yields_numeral false _ _ _ read
    exact ⟨toSolid.trans taken, .inl number.isSingle⟩
  | text comesNext read =>
    exact ⟨toSolid.trans (isSoundAt_quotation.undamaged comesNext read), .inl trivial⟩
  | bracket isBracket comesNext => exact ⟨toSolid, .inr (comesNext.trans isBracket.symm)⟩

/-- The first token of a value is UTF-8. -/
theorem isSound_token : token.IsSound :=
  fun _ _ _ read => ⟨(undamaged_of_token read).1, trivial⟩

/-- What is read as a text is UTF-8. -/
theorem isSound_textFor (expected : String) : (textFor expected).IsSound := by
  refine isSound_token.bind fun found _ => ?_
  split
  · exact yields_pure trivial
  · exact (refuses_fail _).yields

/-- What is read as a path is UTF-8. -/
theorem isSound_path : path.IsSound :=
  (isSound_textFor _).map _

/-- What is read as a count is UTF-8. -/
theorem isSound_count : count.IsSound := by
  refine isSound_token.bind fun found _ => ?_
  split
  · split
    · exact (refuses_fail _).yields
    · exact yields_pure trivial
  · exact (refuses_fail _).yields

/-- What is read as an optional value is UTF-8 if the value is. -/
theorem Yields.optional (sound : reader.IsSound) : (Reader.optional reader).IsSound := by
  refine yields_atSolid fun head => ?_
  split
  · next same =>
    rw [same]
    have isSingle : IsSingle .null := trivial
    exact (yieldsAt_word (by decide) (ascii_of_all (by decide)) isSingle).bind fun _ _ =>
      yields_pure trivial
  · exact (sound.map _).here

/-- A colon and the blanks before it are UTF-8. -/
theorem isSound_colon : colon.IsSound :=
  yields_solid (refuses_failNext _) fun _ => isSoundAt_mark (by decide) (refuses_failNext _)

end Reader

end ElmWorkbench.Json
