import ElmWorkbench.Proofs.Json.Members
import Mathlib.Data.List.Forall2
/-!
# Where a message need not be UTF-8

A value under a key that a record or a message does not use is stepped over (`Skipped`), and only
its syntax is looked at. All else that is taken is UTF-8: `Reader.crosses_fields` and
`Reader.crosses_record` say so of records, and `Reader.ofMessage_of_message` of messages, whose
contents depend on what they mean.
-/

namespace ElmWorkbench.Json

open Reader

/-- A value that is stepped over. -/
def Skipped : Stretch := fun start stop =>
  skipValue start = .ok ((), stop)

/-- The parts of a message that are used: its name and its contents. -/
def messageParts (contents : Stretch) : List (String × Stretch) :=
  [(tagKey, Undamaged), (dataKey, contents)]

/-- An object with the parts of a message, or a list of both. -/
def OfMessage (further contents : Stretch) : Stretch := fun start stop =>
  OfObject further (messageParts contents) start stop ∨
    ∃ opened name middle inside closing, token start = .ok (.list, opened) ∧
      anotherElement true opened.advance = .ok (true, name) ∧ Undamaged name middle ∧
      anotherElement false middle = .ok (true, inside) ∧ contents inside closing ∧
      endList closing = .ok ((), stop)

/-- A message with undamaged parts is not damaged. -/
theorem OfMessage.undamaged {further contents : Stretch} {start stop : Cursor}
    (furtherSound : ∀ {start stop}, further start stop → Undamaged start stop)
    (contentsSound : ∀ {start stop}, contents start stop → Undamaged start stop)
    (crossed : OfMessage further contents start stop) : Undamaged start stop := by
  rcases crossed with object | ⟨opened, name, middle, inside, closing, told, another, isName,
    goesOn, crossed, ended⟩
  · refine object.undamaged furtherSound ?_
    exact List.forall_mem_cons.mpr ⟨id, List.forall_mem_singleton.mpr contentsSound⟩
  · obtain ⟨toBracket, single | bracket⟩ := undamaged_of_token told
    · exact single.elim
    · have toName := (undamaged_advance bracket (by decide)).trans
        ((isSound_anotherElement true).undamaged another)
      have toContents := isName.trans ((isSound_anotherElement false).undamaged goesOn)
      have toEnd := (contentsSound crossed).trans (isSound_endList.undamaged ended)
      exact toBracket.trans (toName.trans (toContents.trans toEnd))

namespace Reader

/-! ## Records -/

section Records

variable {Draft Value : Type} {fields : List (Field Draft)} {shape : Shape Draft Value}
  {used : List (String × Stretch)}

/-- What a field takes stands under its name. -/
def IsPart (field : Field Draft) (part : String × Stretch) : Prop :=
  field.name = part.1 ∧ ∀ draft, (field.read draft).Crosses part.2

/-- A key is that of a field and of the part with the same name, or of neither. -/
theorem lookup_of_isPart (parts : List.Forall₂ IsPart fields used) (key : String) :
    (fields.find? fun field => field.name = key) = none ∧ used.lookup key = none ∨
      ∃ field stretch, (fields.find? fun field => field.name = key) = some field ∧
        used.lookup key = some stretch ∧ ∀ draft, (field.read draft).Crosses stretch := by
  induction parts with
  | nil => exact .inl ⟨rfl, rfl⟩
  | @cons field part fields used isPart others inductionHypothesis =>
    obtain ⟨name, stretch⟩ := part
    obtain ⟨named, crosses⟩ := isPart
    by_cases same : field.name = key
    · exact .inr ⟨field, stretch, by simp [same], by simp [← same, named], crosses⟩
    · have other : key ≠ name := fun isName => same (named.trans isName.symm)
      simpa [same, List.lookup_cons, beq_eq_false_iff_ne.mpr other] using inductionHypothesis

/-- What is read behind a key is the part of that name, or is skipped. -/
theorem crosses_fieldAfter (parts : List.Forall₂ IsPart fields used) (draft : Draft)
    (key : String) :
    (fieldAfter fields draft key).Crosses (AfterColon ((used.lookup key).getD Skipped)) := by
  intro start result stop taken
  rw [fieldAfter] at taken
  rcases lookup_of_isPart parts key with
    ⟨unknown, unused⟩ | ⟨field, stretch, known, isUsed, crosses⟩
  · rw [unknown] at taken
    obtain ⟨_, ready, parted, taken⟩ := bind_eq_ok_iff.mp taken
    obtain ⟨_, middle, skipped, taken⟩ := bind_eq_ok_iff.mp taken
    cases taken
    rw [unused]
    exact ⟨ready, parted, skipped⟩
  · rw [known] at taken
    dsimp only at taken
    split at taken
    · cases taken
    · obtain ⟨_, ready, parted, taken⟩ := bind_eq_ok_iff.mp taken
      rw [isUsed]
      exact ⟨ready, parted, crosses _ _ _ _ taken⟩

/-- To check that a value is whole reads nothing. -/
theorem crosses_whole (result : Except Fault Value) : (whole result).Crosses Eq := by
  cases result with
  | ok value => exact crosses_pure value
  | error fault => exact fun _ _ _ => nofun

/-- The members of an object are read as the parts of its fields. -/
theorem crosses_recordInObject (parts : List.Forall₂ IsPart shape.fields used) :
    (recordInObject shape).Crosses (Members Skipped used true) :=
  (crosses_entries (crosses_fieldAfter parts) shape.empty).bind fun _ => crosses_whole _

/-- What is read inside the braces of an object makes up the object. -/
theorem crosses_ofObject {inside : Reader Value} {start opened stop : Cursor} {value : Value}
    (crosses : inside.Crosses (Members Skipped used true))
    (told : token start = .ok (.object, opened))
    (read : inObject inside opened = .ok (value, stop)) : OfObject Skipped used start stop := by
  obtain ⟨closing, read, ended⟩ := exists_of_bracketed read
  exact .inr ⟨opened, closing, told, crosses _ _ _ read, ended⟩

/-- A bracket that is refused is an error. -/
theorem refuses_refuseBracket (found : Found) (expected : String) :
    (refuseBracket found expected : Reader Value).Refuses := by
  intro start value stop taken
  cases found with
  | list =>
    obtain ⟨_, settled, -⟩ := exists_of_bracketed taken
    cases settled
  | object =>
    obtain ⟨_, settled, -⟩ := exists_of_bracketed taken
    cases settled
  | _ => cases taken

/-- A record that stands in an object is UTF-8 but for values under other keys. -/
theorem crosses_fields (parts : List.Forall₂ IsPart shape.fields used) :
    (Reader.fields shape).Crosses (OfObject Skipped used) := by
  intro start value stop taken
  obtain ⟨found, opened, told, taken⟩ := bind_eq_ok_iff.mp taken
  cases found with
  | object => exact crosses_ofObject (crosses_recordInObject parts) told taken
  | _ => exact absurd taken (refuses_refuseBracket _ _ _ _ _)

/-- Fields in a list are read over text that is UTF-8. -/
theorem isSound_fieldsInList (sound : ∀ field ∈ fields, ∀ draft, (field.read draft).IsSound)
    (expected : String) (index : Nat) (draft : Draft) :
    (fieldsInList expected index fields draft).IsSound := by
  induction fields generalizing index draft with
  | nil => exact yields_pure trivial
  | cons field others inductionHypothesis =>
    obtain ⟨here, later⟩ := List.forall_mem_cons.mp sound
    rw [fieldsInList]
    refine (isSound_anotherElement _).bind fun another _ => ?_
    split
    · exact (here draft).bind fun next _ => inductionHypothesis later _ _
    · split
      · exact inductionHypothesis later _ _
      · exact (refuses_failWhole _).yields

/-- To check that a value is whole reads no damaged text. -/
theorem isSound_whole (result : Except Fault Value) : (whole result).IsSound := by
  cases result with
  | ok value => exact yields_pure trivial
  | error fault => exact (refuses_failWhole fault).yields

/-- A record whose fields are UTF-8 is so too but for values under other keys; a list has none. -/
theorem crosses_record (sound : ∀ field ∈ shape.fields, ∀ draft, (field.read draft).IsSound) :
    (record .direct shape).Crosses
      (OfObject Skipped (shape.fields.map fun field => (field.name, Undamaged))) := by
  intro start value stop taken
  obtain ⟨found, opened, told, taken⟩ := bind_eq_ok_iff.mp taken
  cases found with
  | object =>
    refine crosses_ofObject (crosses_recordInObject ?_) told taken
    refine List.forall₂_map_right_iff.mpr (List.forall₂_same.mpr fun field member => ?_)
    exact ⟨rfl, fun draft => (sound field member draft).crosses⟩
  | list =>
    obtain ⟨toBracket, single | bracket⟩ := undamaged_of_token told
    · exact single.elim
    · have inside : (recordInList .direct shape).IsSound :=
        (isSound_fieldsInList sound _ _ _).bind fun _ _ => isSound_whole _
      exact .inl (toBracket.trans (inside.inList.undamaged bracket taken))
  | _ => cases taken

/-- A record that is read has been built. -/
theorem exists_build_of_fields {start stop : Cursor} {value : Value}
    (taken : Reader.fields shape start = .ok (value, stop)) :
    ∃ draft, shape.build draft = .ok value := by
  obtain ⟨found, opened, -, taken⟩ := bind_eq_ok_iff.mp taken
  cases found with
  | object =>
    obtain ⟨closing, taken, -⟩ := exists_of_bracketed taken
    obtain ⟨draft, middle, -, taken⟩ := bind_eq_ok_iff.mp taken
    cases result : shape.build draft with
    | error fault =>
      rw [result] at taken
      cases taken
    | ok record =>
      rw [result] at taken
      cases taken
      exact ⟨draft, result⟩
  | _ => exact absurd taken (refuses_refuseBracket _ _ _ _ _)

end Records

/-! ## Names -/

section Names

variable {Value : Type} {known : List (String × Value)}

/-- What a known name stands for. -/
def IsKnown (known : List (String × Value)) (value : Value) : Prop :=
  ∃ name, (name, value) ∈ known

/-- A name that is read is a known one. -/
theorem yields_knownName (known : List (String × Value)) (name : String) :
    (knownName known name).Yields (IsKnown known) := by
  rw [knownName]
  split
  · next _ name value found => exact yields_pure ⟨name, List.mem_of_find?_eq_some found⟩
  · exact (refuses_fail _).yields

/-- A name in a text is a known one. -/
theorem yields_plainNameAmong (known : List (String × Value)) :
    (plainNameAmong known).Yields (IsKnown known) :=
  (isSound_textFor _).bind fun _ _ => yields_knownName known _

/-- What stands beside the name of a variant is UTF-8. -/
theorem isSound_besideName : (besideName .direct).IsSound := by
  refine isSound_token.bind fun found _ => ?_
  cases found with
  | null => exact yields_pure trivial
  | _ => exact (refuses_fail _).yields

/-- A name in a text or beside a bracket is a known one. -/
theorem yields_nameAmong (known : List (String × Value)) :
    (nameAmong known).Yields (IsKnown known) := by
  refine yields_solid (refuses_failNext _) fun byte => ?_
  split
  · next brace =>
    refine (isSoundAt_step (brace ▸ by decide)).bind fun _ _ =>
      (yields_plainNameAmong known).bind fun value isKnown => isSound_colon.bind fun _ _ =>
        isSound_besideName.bind fun _ _ => yields_solid (refuses_fail _) fun closing => ?_
    split
    · next same => exact (isSoundAt_step (same ▸ by decide)).bind fun _ _ => yields_pure isKnown
    · exact (refuses_fail _).yieldsAt
  split
  · next same => exact (same ▸ isSoundAt_quotation).bind fun _ _ => yields_knownName known _
  · exact (refuses_failNext _).yieldsAt

end Names

/-! ## Messages -/

section Messages

variable {Message : Type} {variants : List (Variant Message)} {contents : Message → Stretch}

/-- What the next key that matters means: the object ends there, or it goes on with the value under
that key. -/
def GoesOn (contents : Stretch) (first : Bool) (start stop : Cursor) : Option Bool → Prop
  | none => Members Skipped (messageParts contents) first start stop
  | some isTag => ∀ {middle last : Cursor},
      AfterColon (if isTag then Undamaged else contents) stop middle →
        Members Skipped (messageParts contents) false middle last →
          Members Skipped (messageParts contents) first start last

/-- Looking for a key that matters goes on behind what is skipped. -/
theorem goesOn_of_relevantKey (contents : Stretch) {steps : Nat} {first : Bool}
    {start stop : Cursor} {found : Option Bool}
    (told : relevantKey steps first start = .ok (found, stop)) :
    GoesOn contents first start stop found := by
  induction steps generalizing first start with
  | zero => cases told
  | succ steps inductionHypothesis =>
    obtain ⟨another, opened, goesOn, told⟩ := bind_eq_ok_iff.mp told
    cases another with
    | false =>
      cases told
      exact .ended goesOn
    | true =>
      obtain ⟨key, named, isKey, told⟩ := bind_eq_ok_iff.mp told
      split at told
      · next isTag =>
        cases told
        refine fun value others => .entry goesOn isKey ?_ others
        simpa [messageParts, isTag] using value
      · next notTag =>
        split at told
        · next isData =>
          cases told
          refine fun value others => .entry goesOn isKey ?_ others
          simpa [messageParts, List.lookup_cons, isData, dataKey, tagKey] using value
        · next notData =>
          obtain ⟨_, ready, parted, told⟩ := bind_eq_ok_iff.mp told
          obtain ⟨_, middle, skipped, told⟩ := bind_eq_ok_iff.mp told
          have unused : (messageParts contents).lookup key = none := by
            simp [messageParts, List.lookup_eq_none_iff, notTag, notData]
          have value : AfterColon (((messageParts contents).lookup key).getD Skipped)
              named middle := by
            rw [unused]
            exact ⟨ready, parted, skipped⟩
          have rest := inductionHypothesis told
          cases found with
          | none => exact .entry goesOn isKey value rest
          | some isTag =>
            intro middle last next others
            exact .entry goesOn isKey value (rest next others)

/-- The next key that matters stands behind what is skipped. -/
theorem goesOn_of_nextRelevantKey (contents : Stretch) {first : Bool} {start stop : Cursor}
    {found : Option Bool} (told : nextRelevantKey first start = .ok (found, stop)) :
    GoesOn contents first start stop found := by
  obtain ⟨_, _, looked, told⟩ := bind_eq_ok_iff.mp told
  cases looked
  exact goesOn_of_relevantKey contents told

/-- Once all parts are there, the rest of the object is skipped. -/
theorem members_of_noFurtherParts (contents : Stretch) {start stop : Cursor}
    {message result : Message} (taken : noFurtherParts message start = .ok (result, stop)) :
    result = message ∧ Members Skipped (messageParts contents) false start stop := by
  obtain ⟨found, _, told, taken⟩ := bind_eq_ok_iff.mp taken
  cases found with
  | none =>
    cases taken
    exact ⟨rfl, goesOn_of_nextRelevantKey contents told⟩
  | some isTag => cases taken

/-- What is read again is not taken again. -/
theorem crosses_again (start : Cursor) (reader : Reader Message) :
    (again start reader).Crosses Eq := by
  intro cursor value stop read
  rw [again] at read
  split at read <;> cases read
  rfl

/-- Whatever variant is read takes what the contents of its message are allowed to be. -/
def Contain (contents : Message → Stretch) (variants : List (Variant Message)) : Prop :=
  ∀ variant ∈ variants, ∀ start message stop,
    variant.read .direct start = .ok (message, stop) → contents message start stop

/-- A variant with a known name is one of the variants. -/
theorem mem_of_known {variant : Variant Message}
    (known : IsKnown (variants.map fun variant => (variant.name, variant)) variant) :
    variant ∈ variants := by
  obtain ⟨name, member⟩ := known
  obtain ⟨_, isVariant, same⟩ := List.mem_map.mp member
  cases same
  exact isVariant

/-- A message may have its name after its contents; these are UTF-8 then. -/
theorem members_of_messageInObject (contain : Contain contents variants)
    (whole : ∀ message {start stop}, Undamaged start stop → contents message start stop)
    {start stop : Cursor} {message : Message}
    (taken : messageInObject variants start = .ok (message, stop)) :
    Members Skipped (messageParts (contents message)) true start stop := by
  obtain ⟨found, keyed, told, taken⟩ := bind_eq_ok_iff.mp taken
  have goesOn := goesOn_of_nextRelevantKey (contents message) told
  cases found with
  | none => cases taken
  | some isTag =>
    cases isTag with
    | true =>
      obtain ⟨_, ready, parted, taken⟩ := bind_eq_ok_iff.mp taken
      obtain ⟨variant, named, isName, taken⟩ := bind_eq_ok_iff.mp taken
      obtain ⟨toName, isKnown⟩ := yields_nameAmong _ _ _ _ isName
      have name : AfterColon Undamaged keyed named := ⟨ready, parted, toName⟩
      obtain ⟨found, keyed, told, taken⟩ := bind_eq_ok_iff.mp taken
      have goesOnNext := goesOn_of_nextRelevantKey (contents message) told
      cases found with
      | none =>
        obtain rfl : keyed = stop := crosses_whole _ _ _ _ taken
        exact goesOn name goesOnNext
      | some isTag =>
        cases isTag with
        | true => cases taken
        | false =>
          obtain ⟨_, ready, parted, taken⟩ := bind_eq_ok_iff.mp taken
          obtain ⟨result, contained, read, taken⟩ := bind_eq_ok_iff.mp taken
          obtain ⟨rfl, rest⟩ := members_of_noFurtherParts (contents message) taken
          have data : AfterColon (contents message) keyed contained :=
            ⟨ready, parted, contain variant (mem_of_known isKnown) _ _ _ read⟩
          exact goesOn name (goesOnNext data rest)
    | false =>
      obtain ⟨_, ready, parted, taken⟩ := bind_eq_ok_iff.mp taken
      -- The data come before the tag: they are read once as any value and again as those of the
      -- variant, from the same bytes.
      obtain ⟨_, _, looked, taken⟩ := bind_eq_ok_iff.mp taken
      cases looked
      obtain ⟨_, buffered, read, taken⟩ := bind_eq_ok_iff.mp taken
      have data : AfterColon (contents message) keyed buffered :=
        ⟨ready, parted, whole _ ((isSound_value _).undamaged read)⟩
      obtain ⟨found, keyed, told, taken⟩ := bind_eq_ok_iff.mp taken
      have goesOnNext := goesOn_of_nextRelevantKey (contents message) told
      cases found with
      | none => cases taken
      | some isTag =>
        cases isTag with
        | false => cases taken
        | true =>
          obtain ⟨_, ready, parted, taken⟩ := bind_eq_ok_iff.mp taken
          obtain ⟨variant, named, isName, taken⟩ := bind_eq_ok_iff.mp taken
          obtain ⟨result, stayed, reread, taken⟩ := bind_eq_ok_iff.mp taken
          obtain rfl : named = stayed := crosses_again _ _ _ _ _ reread
          obtain ⟨rfl, rest⟩ := members_of_noFurtherParts (contents message) taken
          have name : AfterColon Undamaged keyed named :=
            ⟨ready, parted, (yields_nameAmong _).undamaged isName⟩
          exact goesOn data (goesOnNext name rest)

/-- All that a message takes is UTF-8, but for what its contents may be and for values under keys
that are not its own. -/
theorem ofMessage_of_message (contain : Contain contents variants)
    (whole : ∀ message {start stop}, Undamaged start stop → contents message start stop)
    {title : String} {start stop : Cursor} {message : Message}
    (taken : Reader.message title variants start = .ok (message, stop)) :
    OfMessage Skipped (contents message) start stop := by
  obtain ⟨found, opened, told, taken⟩ := bind_eq_ok_iff.mp taken
  cases found with
  | object =>
    obtain ⟨closing, taken, ended⟩ := exists_of_bracketed taken
    exact .inl (.inr ⟨opened, closing, told, members_of_messageInObject contain whole taken, ended⟩)
  | list =>
    obtain ⟨closing, taken, ended⟩ := exists_of_bracketed taken
    obtain ⟨another, name, hasName, taken⟩ := bind_eq_ok_iff.mp taken
    cases another with
    | false => cases taken
    | true =>
      obtain ⟨variant, middle, named, taken⟩ := bind_eq_ok_iff.mp taken
      obtain ⟨another, inside, hasContents, taken⟩ := bind_eq_ok_iff.mp taken
      cases another with
      | false => cases taken
      | true =>
        obtain ⟨toName, isKnown⟩ := yields_plainNameAmong _ _ _ _ named
        exact .inr ⟨opened, name, middle, inside, closing, told, hasName, toName, hasContents,
          contain variant (mem_of_known isKnown) _ _ _ taken, ended⟩
  | _ => cases taken

/-- A whole message is read up to the blanks at its end. -/
theorem exists_of_runWhole {reader : Reader Message} {bytes : Bytes} {message : Message}
    (read : runWhole reader bytes = .ok message) :
    ∃ stop, reader (Cursor.start bytes) = .ok (message, stop) ∧ stop.skipSpace.rest = [] := by
  rw [runWhole] at read
  split at read
  · cases read
  · cases read
  · next message stop taken =>
    dsimp only at read
    split at read
    · next atEnd =>
      cases read
      exact ⟨stop, taken, atEnd⟩
    · cases read

end Messages

end Reader

end ElmWorkbench.Json
