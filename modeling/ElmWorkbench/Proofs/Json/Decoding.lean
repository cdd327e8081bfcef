import ElmWorkbench.Json.Value
import ElmWorkbench.Proofs.Json.Sequence
import ElmWorkbench.Proofs.Json.Skipping
import ElmWorkbench.Proofs.Path
import Mathlib.Data.List.Forall2
/-!
# Values are read back

`Takes` tells that a reader gives back what a value was written for, wherever a text of the value
stands and whatever blanks are in it. It is shown for single values and carried through lists
(`Takes.listOf`) and through the entries of objects (`Passes.reads_entries`). A value of any shape
can be read as such if its brackets do not nest too deep (`Fits.exists_takes`).
-/

namespace ElmWorkbench.Json

open Reader

/-- A reader takes each text of a value before whatever may follow a value, and gives back what the
value was written for. -/
structure Takes {Meaning : Type} (read : Reader Meaning) (value : Value) (meaning : Meaning) :
    Prop where
  /-- The first byte tells that a value follows, and not the end of a list. -/
  opens : ∃ byte others more, value.tokens = (byte :: others) :: more ∧ isSpace byte = false ∧
    byte ≠ 0x5D
  reads : ∀ text rest, Spaced value.tokens text → IsEnd rest → read.Reads text meaning rest

section Taking

variable {Meaning Result : Type} {read : Reader Meaning} {value : Value} {meaning : Meaning}

/-- A value that is read can be changed. -/
theorem Takes.map (change : Meaning → Result) (takes : Takes read value meaning) :
    Takes (change <$> read) value (change meaning) where
  opens := takes.opens
  reads text rest spaced ends := (takes.reads text rest spaced ends).map change

/-- What is done with a value once it is read takes nothing more. -/
theorem Takes.tell {next : Meaning → Reader Result} {result : Result}
    (takes : Takes read value meaning) (told : ∀ rest, (next meaning).Reads [] result rest) :
    Takes (read >>= next) value result where
  opens := takes.opens
  reads text rest spaced ends := (takes.reads text rest spaced ends).tell (told rest)

/-- A value that a reader takes is read from a whole message, which may end with blanks. -/
theorem Takes.runWhole (takes : Takes read value meaning) {bytes : Bytes}
    (spells : value.Spells bytes) : Reader.runWhole read bytes = .ok meaning := by
  obtain ⟨text, gap, spaced, blank, rfl⟩ := spells
  have taken := takes.reads text gap spaced (isEnd_of_isBlank blank) []
  rw [Reader.runWhole, Cursor.start, taken]
  simp only [rest_skipSpace blank, if_true]

/-! ## Single values -/

/-- What has a meaning begins with a byte that is no blank and ends no list. -/
theorem Means.exists_opening {bytes : Bytes} {found : Found} (means : Means bytes found) :
    ∃ byte others, bytes = byte :: others ∧ isSpace byte = false ∧ byte ≠ 0x5D := by
  cases means with
  | null => exact ⟨_, _, rfl, by decide⟩
  | yes => exact ⟨_, _, rfl, by decide⟩
  | no => exact ⟨_, _, rfl, by decide⟩
  | @integer number small =>
    obtain ⟨lead, others, opened, digit, -⟩ := exists_lead number
    refine ⟨lead, others, opened, (solid_of_isDigit digit).1, ?_⟩
    rintro rfl
    cases digit
  | negative small => exact ⟨_, _, rfl, by decide⟩
  | text text => exact ⟨quote, _, encodeChars_writeText text, by decide⟩

/-- A value without brackets is read as what it means. -/
theorem Means.takes {found : Found} (means : Means value.bytes found) (single : value.IsSingle) :
    Takes token value found where
  opens := by
    obtain ⟨byte, others, opened, solid, notEnd⟩ := means.exists_opening
    exact ⟨byte, others, [], by rw [Value.tokens_of_single single, opened], solid, notEnd⟩
  reads text rest spaced ends := by
    rw [Value.tokens_of_single single] at spaced
    obtain ⟨gap, blank, rfl⟩ := spaced_singleton_iff.mp spaced
    exact reads_token means blank ends

/-- A text is read back. -/
theorem Takes.text (expected text : String) : Takes (textFor expected) (.text text) text := by
  have means : Means (Value.text text).bytes (.text text) := by
    rw [bytes_text]
    exact .text text
  exact (means.takes trivial).tell fun rest => reads_pure text rest

/-- A path that is UTF-8 is written as its text. -/
theorem bytes_path {path : Path} {text : String} (decoded : path.text? = some text) :
    (Value.path path).bytes = keyBytes text := by
  rw [← bytes_text, Value.bytes, Value.compact, Value.write, decoded, Value.bytes, Value.compact,
    Value.write]

/-- A path that is UTF-8 means its text. -/
theorem means_path {path : Path} {text : String} (decoded : path.text? = some text) :
    Means (Value.path path).bytes (.text text) := by
  rw [bytes_path decoded]
  exact .text text

/-- A path that is UTF-8 is read back. -/
theorem Takes.path {path : Path} (isText : path.text?.isSome) :
    Takes Reader.path (.path path) path := by
  obtain ⟨text, decoded⟩ := Option.isSome_iff_exists.mp isText
  have itself : Path.ofString text = path := Path.text?_eq_some_iff.mp decoded
  have takes : Takes (textFor "path string") (.path path) text :=
    ((means_path decoded).takes trivial).tell fun rest => reads_pure text rest
  have read := takes.map Path.ofString
  rwa [itself] at read

/-- The digits of a count mean it. -/
theorem means_count (number : UInt64) :
    Means (Value.integer number.toNat).bytes (.integer number.toNat) := by
  rw [bytes_integer]
  exact .integer number.toNat_lt

/-- A count is read back. -/
theorem Takes.count (number : UInt64) : Takes count (.integer number.toNat) number := by
  refine ((means_count number).takes trivial).tell fun rest => ?_
  have small : ¬ (number.toNat : Int) < 0 := by omega
  simp only [small, if_false, Int.toNat_natCast, UInt64.ofNat_toNat]
  exact reads_pure number rest

/-- The word `null` is read as no value. -/
theorem Takes.absent (read : Reader Meaning) : Takes (Reader.optional read) .null none where
  opens := ⟨0x6E, _, [], rfl, by decide⟩
  reads text rest spaced ends := by
    obtain ⟨gap, blank, rfl⟩ := spaced_singleton_iff.mp spaced
    exact Reads.afterGap blank rfl ((reads_word 0x6E _ .null rest).tell (reads_pure none rest))

/-- A text is no word, so what it is read as is there. -/
theorem Takes.quoted {written : String} (takes : Takes read value meaning)
    (tokens : value.tokens = [keyBytes written]) :
    Takes (Reader.optional read) value (some meaning) where
  opens := takes.opens
  reads text rest spaced ends := by
    rw [tokens] at spaced
    obtain ⟨gap, blank, rfl⟩ := spaced_singleton_iff.mp spaced
    have withoutGap : Spaced value.tokens (keyBytes written) := by
      rw [tokens]
      exact spaced_singleton_iff.mpr ⟨[], isBlank_nil, rfl⟩
    have taken := takes.reads _ rest withoutGap ends
    rw [keyBytes, encodeChars_writeText] at taken ⊢
    exact Reads.afterGap blank rfl (taken.map some)

/-- A path is no word, and is read as itself. -/
theorem Takes.present {path : Path} (isText : path.text?.isSome) :
    Takes (Reader.optional Reader.path) (.path path) (some path) := by
  obtain ⟨written, decoded⟩ := Option.isSome_iff_exists.mp isText
  have tokens : (Value.path path).tokens = [keyBytes written] := by
    rw [← bytes_path decoded]
    rfl
  exact (Takes.path isText).quoted tokens

/-! ## Lists -/

/-- A reader that takes a value comes to its end. -/
theorem Takes.settles (takes : Takes read value meaning) :
    Settles read value.tokens (some meaning) where
  opens := takes.opens
  gives text rest spaced ends := (takes.reads text rest spaced ends).gives

/-- The elements of a list are read back one after the other. -/
theorem reads_elements {values : List Value} {meanings : List Meaning}
    (takes : List.Forall₂ (Takes read) values meanings) {text closing : Bytes}
    (spaced : Spaced (Value.elementTokens true values) text) (blank : IsBlank closing)
    (rest : Bytes) : (elements read).Reads (text ++ closing) meanings (0x5D :: rest) := by
  obtain ⟨same, each⟩ := List.forall₂_iff_zip.mp takes
  have settles : ∀ pair ∈ values.zip meanings, Settles read pair.1.tokens (some pair.2) :=
    fun pair member => (each member).settles
  have tokens : values.map Value.tokens =
      (values.zip meanings).map fun pair => pair.1.tokens :=
    (congrArg (List.map Value.tokens) (List.map_fst_zip same.le)).symm.trans List.map_map
  have outcome : (values.zip meanings).mapM (fun pair => some pair.2) = some meanings :=
    List.mapM_pure.trans (congrArg some (List.map_snd_zip same.ge))
  rw [Value.elementTokens_eq, tokens] at spaced
  have given := gives_elements settles spaced blank rest
  rw [outcome] at given
  exact gives_some_iff.mp given

/-- A reader of a list goes on at the bracket. -/
theorem takes_list {next : Found → Reader Result} {values : List Value} {result : Result}
    (taken : ∀ text closing rest, Spaced (Value.elementTokens true values) text →
      IsBlank closing → (next .list).Reads (0x5B :: (text ++ closing) ++ [0x5D]) result rest) :
    Takes (token >>= next) (.list values) result where
  opens := ⟨0x5B, [], _, rfl, by decide⟩
  reads text rest spaced _ := by
    obtain ⟨gap, inner, closing, blank, spacedInner, blankClosing, rfl⟩ :=
      exists_of_spaced_brackets spaced
    have opened : token.Reads gap .list (0x5B :: (inner ++ closing) ++ [0x5D] ++ rest) :=
      Reads.atGap blank rfl (reads_pure Found.list _)
    exact opened.bind (taken inner closing rest spacedInner blankClosing)

/-- A list is read back if its elements are. -/
theorem Takes.listOf {values : List Value} {meanings : List Meaning}
    (takes : List.Forall₂ (Takes read) values meanings) :
    Takes (listOf read) (.list values) meanings :=
  takes_list fun _ _ rest spaced blank => (reads_elements takes spaced blank rest).inList

end Taking

/-! ## Objects -/

section Objects

variable {State Result : Type} {read : State → String → Reader State} {state next final : State}
  {entries : List (String × Value)}

/-- A reader that goes on after each key takes the entries of an object one after the other. -/
inductive Passes {State : Type} (read : State → String → Reader State) :
    State → List (String × Value) → State → Prop where
  | done {state : State} : Passes read state [] state
  | entry {state next final : State} {key : String} {value : Value}
      {others : List (String × Value)}
      (taken : ∀ between text rest, IsBlank between → Spaced value.tokens text → IsEnd rest →
        (read state key).Reads (between ++ [0x3A] ++ text) next rest)
      (more : Passes read next others final) : Passes read state ((key, value) :: others) final

/-- A reader that takes entries comes to their end. -/
theorem Passes.endsIn (passes : Passes read state entries final) :
    EndsIn read state (entries.map Value.pair) (some final) := by
  induction passes with
  | done => exact .done
  | @entry state next final key value others taken passes inductionHypothesis =>
    refine @EndsIn.entry _ _ _ _ _ _ _ (some key) (fun _ => some next) (fun _ => some final)
      (encodeChars_writeText key) (fun rest => (reads_quotation key rest).gives) ?_ ?_
    · rintro _ ⟨⟩ between text rest blank spaced ends
      exact (taken between text rest blank spaced ends).gives
    · rintro _ ⟨⟩ _ ⟨⟩
      exact inductionHypothesis

/-- The entries of an object are read back one after the other. -/
theorem Passes.reads_entries (passes : Passes read state entries final) {text closing : Bytes}
    (spaced : Spaced (Value.entryTokens true entries) text) (blank : IsBlank closing)
    (rest : Bytes) : (Reader.entries read state).Reads (text ++ closing) final (0x7D :: rest) := by
  rw [Value.entryTokens_eq] at spaced
  exact gives_some_iff.mp (passes.endsIn.gives_entries spaced blank rest)

/-- A reader of an object goes on at the brace. -/
theorem takes_object {next : Found → Reader Result} {result : Result}
    (taken : ∀ text closing rest, Spaced (Value.entryTokens true entries) text →
      IsBlank closing → (next .object).Reads (0x7B :: (text ++ closing) ++ [0x7D]) result rest) :
    Takes (token >>= next) (.object entries) result where
  opens := ⟨0x7B, [], _, rfl, by decide⟩
  reads text rest spaced _ := by
    obtain ⟨gap, inner, closing, blank, spacedInner, blankClosing, rfl⟩ :=
      exists_of_spaced_brackets spaced
    exact (reads_token_object blank).bind (taken inner closing rest spacedInner blankClosing)

/-- The entries of an object are collected in their order. -/
theorem passes_collecting {Meaning : Type} {member : Reader Meaning}
    {members : List (String × Meaning)}
    (takes : List.Forall₂ (fun entry known => entry.1 = known.1 ∧ Takes member entry.2 known.2)
      entries members) (found : List (String × Meaning)) :
    Passes (fun found key => do
      colon
      let value ← member
      pure (found ++ [(key, value)])) found entries (found ++ members) := by
  induction takes generalizing found with
  | nil =>
    rw [List.append_nil]
    exact .done
  | @cons entry known entries members here later inductionHypothesis =>
    obtain ⟨key, value⟩ := entry
    obtain ⟨rfl, taken⟩ := here
    have more := inductionHypothesis (found ++ [known])
    rw [List.append_assoc, List.singleton_append] at more
    refine .entry (fun between text rest blank spaced ends => ?_) more
    exact (reads_colon blank).bind ((taken.reads text rest spaced ends).tell (reads_pure _ _))

/-- An object is read back with the keys and values of its entries. -/
theorem Takes.entriesOf {Meaning : Type} {member : Reader Meaning}
    {members : List (String × Meaning)}
    (takes : List.Forall₂ (fun entry known => entry.1 = known.1 ∧ Takes member entry.2 known.2)
      entries members) : Takes (Reader.entriesOf member) (.object entries) members :=
  takes_object fun _ _ rest spaced blank =>
    ((passes_collecting takes []).reads_entries spaced blank rest).inObject

end Objects

/-! ## Values of any shape -/

/-- A value that can be read as such although so many brackets may nest at most. -/
inductive Fits : Nat → Value → Prop where
  | single {depth : Nat} {value : Value} {found : Found} (single : value.IsSingle)
      (means : Means value.bytes found) : Fits (depth + 1) value
  | list {depth : Nat} {elements : List Value}
      (each : ∀ element ∈ elements, Fits (depth + 1) element) : Fits (depth + 2) (.list elements)
  | object {depth : Nat} {entries : List (String × Value)}
      (each : ∀ entry ∈ entries, Fits (depth + 1) entry.2) : Fits (depth + 2) (.object entries)

/-- If each element is read as something, so are all of them. -/
theorem exists_forall_takes {read : Reader Value} {elements : List Value}
    (each : ∀ element ∈ elements, ∃ result, Takes read element result) :
    ∃ results, List.Forall₂ (Takes read) elements results := by
  induction elements with
  | nil => exact ⟨[], .nil⟩
  | cons element others inductionHypothesis =>
    obtain ⟨⟨result, here⟩, later⟩ := List.forall_mem_cons.mp each
    obtain ⟨results, takes⟩ := inductionHypothesis later
    exact ⟨result :: results, .cons here takes⟩

/-- If the value of each entry is read as something, the entries are passed. -/
theorem exists_passes {read : Reader Value} {entries : List (String × Value)}
    (each : ∀ entry ∈ entries, ∃ result, Takes read entry.2 result)
    (found : List (String × Value)) :
    ∃ members, Passes (fun found key => do
      colon
      let member ← read
      pure (found ++ [(key, member)])) found entries members := by
  induction entries generalizing found with
  | nil => exact ⟨found, .done⟩
  | cons entry others inductionHypothesis =>
    obtain ⟨key, value⟩ := entry
    obtain ⟨⟨result, takes⟩, later⟩ := List.forall_mem_cons.mp each
    obtain ⟨members, passes⟩ := inductionHypothesis later (found ++ [(key, result)])
    refine ⟨members, .entry (fun between text rest blank spaced ends => ?_) passes⟩
    exact (reads_colon blank).bind ((takes.reads text rest spaced ends).tell (reads_pure _ _))

/-- It is read as some value, whatever its text. -/
theorem Fits.exists_takes {depth : Nat} {value : Value} (fits : Fits depth value) :
    ∃ result, Takes (Reader.value depth) value result := by
  induction fits with
  | @single depth value found single means =>
    have takes := means.takes single
    obtain ⟨notList, notObject⟩ := means.not_bracket
    rw [Reader.value]
    cases found with
    | list => exact absurd rfl notList
    | object => exact absurd rfl notObject
    | _ => exact ⟨_, takes.tell fun rest => reads_pure _ rest⟩
  | @list depth elements each inductionHypothesis =>
    obtain ⟨results, takes⟩ := exists_forall_takes inductionHypothesis
    rw [Reader.value]
    refine ⟨.list results, takes_list fun text closing rest spaced blank => ?_⟩
    exact (reads_elements takes spaced blank rest).inList.map Value.list
  | @object depth entries each inductionHypothesis =>
    obtain ⟨members, passes⟩ := exists_passes inductionHypothesis []
    rw [Reader.value]
    refine ⟨.object members, takes_object fun text closing rest spaced blank => ?_⟩
    exact (passes.reads_entries spaced blank rest).inObject.map Value.object

end ElmWorkbench.Json
