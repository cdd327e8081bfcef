import ElmWorkbench.Proofs.Json.Reading
import ElmWorkbench.Proofs.Json.Undamaged
/-!
# Stretches of lists and objects

What stands between brackets is UTF-8 if what is read there is (`Reader.isSound_value`). Values in
an object may be of several kinds: `Members` tells for each key where its value stands, and a reader
of entries stays within that (`Reader.crosses_entries`).
-/

namespace ElmWorkbench.Json

open Reader

namespace Reader

variable {Value Result : Type} {reader first : Reader Value} {next : Value → Reader Result}

/-! ## Brackets -/

/-- What is read after a single value has been read or a bracket has been told. -/
theorem isSound_atToken {next : Found → Reader Result}
    (single : ∀ found, IsSingle found → (next found).IsSound)
    (list : (next .list).IsSoundAt (some 0x5B)) (object : (next .object).IsSoundAt (some 0x7B)) :
    (token >>= next).IsSound := by
  intro start result stop read
  obtain ⟨found, middle, told, read⟩ := bind_eq_ok_iff.mp read
  obtain ⟨toFound, isSingle | comesNext⟩ := undamaged_of_token told
  · exact ⟨toFound.trans ((single found isSingle).undamaged read), trivial⟩
  · refine ⟨toFound.trans ?_, trivial⟩
    cases found with
    | list => exact list.undamaged comesNext read
    | object => exact object.undamaged comesNext read
    | null => exact (single .null trivial).undamaged read
    | boolean value => exact (single (.boolean value) trivial).undamaged read
    | integer value => exact (single (.integer value) trivial).undamaged read
    | fraction bits => exact (single (.fraction bits) trivial).undamaged read
    | text value => exact (single (.text value) trivial).undamaged read

/-- What `endObject` does with anything but a brace. -/
theorem refuses_besideBrace (byte : UInt8) :
    (if byte = 0x2C then failNext .trailingComma
      else failNext .trailingCharacters : Reader Unit).Refuses := by
  split <;> exact refuses_failNext _

/-- What `endList` does with anything but a bracket. -/
theorem refuses_besideBracket (byte : UInt8) :
    (if byte = 0x2C then do
        step
        if (← peekSolid) = some 0x5D then failNext .trailingComma
        else failNext .trailingCharacters
      else failNext .trailingCharacters : Reader Unit).Refuses := by
  split
  · refine Refuses.after fun _ => Refuses.after fun follower => ?_
    split <;> exact refuses_failNext _
  · exact refuses_failNext _

/-- The end of an object is UTF-8. -/
theorem isSound_endObject : endObject.IsSound :=
  yields_solid (refuses_failNext _) fun byte =>
    isSoundAt_mark (by decide) (refuses_besideBrace byte)

/-- The end of a list is UTF-8. -/
theorem isSound_endList : endList.IsSound :=
  yields_solid (refuses_failNext _) fun byte =>
    isSoundAt_mark (by decide) (refuses_besideBracket byte)

/-- What is read between brackets is UTF-8 if it is so inside. -/
theorem Yields.bracketed {place : Cursor → Cursor} {ends : Reader Unit} {opening : UInt8}
    (sound : reader.IsSound) (ascii : opening < 0x80) (ended : ends.IsSound) :
    (Reader.bracketed place ends reader).IsSoundAt (some opening) :=
  (isSoundAt_step ascii).bind fun _ _ => (sound.settle _).bind fun _ _ =>
    ended.bind fun _ _ => yields_pure trivial

/-- What is read in an object is UTF-8 if it is so inside. -/
theorem Yields.inObject (sound : reader.IsSound) :
    (Reader.inObject reader).IsSoundAt (some 0x7B) :=
  sound.bracketed (by decide) isSound_endObject

/-- What is read in a list is UTF-8 if it is so inside. -/
theorem Yields.inList (sound : reader.IsSound) :
    (Reader.inList reader).IsSoundAt (some 0x5B) :=
  sound.bracketed (by decide) isSound_endList

/-- What stands between two elements is UTF-8. -/
theorem isSound_anotherElement (first : Bool) : (anotherElement first).IsSound := by
  refine yields_solid (refuses_failNext _) fun byte => ?_
  split
  · exact (yields_pure trivial).here
  split
  · exact (yields_pure trivial).here
  split
  · next comma =>
    refine (isSoundAt_step (comma ▸ by decide)).bind fun _ _ =>
      yields_solid (refuses_failNext _) fun follower => ?_
    split
    · exact (refuses_failNext _).yieldsAt
    · exact (yields_pure trivial).here
  · exact (refuses_failNext _).yieldsAt

/-- Elements are UTF-8 if each one is, by induction on their number. -/
theorem isSound_elementsFrom (sound : reader.IsSound) (steps : Nat) (first : Bool) :
    (elementsFrom reader steps first).IsSound := by
  induction steps generalizing first with
  | zero => exact (refuses_failNext _).yields
  | succ steps inductionHypothesis =>
    rw [elementsFrom]
    refine (isSound_anotherElement first).bind fun another _ => ?_
    split
    · exact sound.bind fun value _ => (inductionHypothesis false).bind fun rest _ =>
        yields_pure trivial
    · exact yields_pure trivial

/-- The elements of a list are UTF-8 if each one is. -/
theorem isSound_elements (sound : reader.IsSound) : (elements reader).IsSound :=
  yields_get fun _ => isSound_elementsFrom sound _ true

/-- Where an object goes on, a key follows; all before that is UTF-8. -/
theorem undamaged_of_anotherKey {first another : Bool} {start stop : Cursor}
    (told : anotherKey first start = .ok (another, stop)) :
    Undamaged start stop ∧ (another → stop.rest.head? = some quote) := by
  have toSolid (cursor : Cursor) : Undamaged cursor cursor.skipSpace :=
    undamaged_skip cursor fun _ => ascii_of_isSpace
  obtain ⟨byte, comesNext, read⟩ := exists_solid told
  split at read
  · cases read
    exact ⟨toSolid start, nofun⟩
  split at read
  · split at read
    · next same =>
      cases read
      exact ⟨toSolid start, fun _ => same ▸ comesNext⟩
    · cases read
  split at read
  · next comma =>
    obtain ⟨_, _, stepped, read⟩ := bind_eq_ok_iff.mp read
    cases stepped
    obtain ⟨byte, follows, read⟩ := exists_solid read
    split at read
    · next same =>
      cases read
      exact ⟨(toSolid start).trans ((undamaged_advance comesNext (comma ▸ by decide)).trans
        (toSolid _)), fun _ => same ▸ follows⟩
    · split at read <;> cases read
  · cases read

end Reader

/-! ## Entries of objects -/

/-- A stretch with a colon before it. -/
def AfterColon (stretch : Stretch) : Stretch := fun start stop =>
  ∃ ready, colon start = .ok ((), ready) ∧ stretch ready stop

/-- The entries of an object up to its end. The stretch of a value depends on its key: it is the one
under which the key is listed, and that of further values under all other keys. -/
inductive Members (further : Stretch) (used : List (String × Stretch)) :
    Bool → Cursor → Cursor → Prop where
  | ended {first : Bool} {start stop : Cursor} (told : anotherKey first start = .ok (false, stop)) :
      Members further used first start stop
  | entry {first : Bool} {key : String} {start opened named middle stop : Cursor}
      (told : anotherKey first start = .ok (true, opened))
      (read : quotation opened = .ok (key, named))
      (value : AfterColon ((used.lookup key).getD further) named middle)
      (others : Members further used false middle stop) : Members further used first start stop

/-- A value in UTF-8, or an object with such entries. -/
def OfObject (further : Stretch) (used : List (String × Stretch)) : Stretch := fun start stop =>
  Undamaged start stop ∨ ∃ opened closing, token start = .ok (.object, opened) ∧
    Members further used true opened.advance closing ∧ endObject closing = .ok ((), stop)

section Parts

variable {stretch further : Stretch} {used : List (String × Stretch)} {start stop : Cursor}

/-- What all stretches have in common that an entry may be, the one under a key has. -/
theorem getD_lookup {common : Stretch → Prop} (furtherHas : common further)
    (usedHave : ∀ part ∈ used, common part.2) (key : String) :
    common ((used.lookup key).getD further) := by
  cases found : used.lookup key with
  | none => exact furtherHas
  | some stretch =>
    obtain ⟨before, after, rfl, -⟩ := List.lookup_eq_some_iff.mp found
    exact usedHave (key, stretch) (List.mem_append_right _ List.mem_cons_self)

/-- What stands behind a colon is undamaged if the value is. -/
theorem AfterColon.undamaged (sound : ∀ {start stop}, stretch start stop → Undamaged start stop)
    (crossed : AfterColon stretch start stop) : Undamaged start stop := by
  obtain ⟨ready, parted, crossed⟩ := crossed
  exact (isSound_colon.undamaged parted).trans (sound crossed)

/-- Entries are UTF-8 if their values are: keys have to be. -/
theorem Members.undamaged (furtherSound : ∀ {start stop}, further start stop → Undamaged start stop)
    (usedSound : ∀ part ∈ used, ∀ {start stop}, part.2 start stop → Undamaged start stop)
    {first : Bool} (members : Members further used first start stop) : Undamaged start stop := by
  induction members with
  | ended told => exact (undamaged_of_anotherKey told).1
  | @entry first key start opened named middle stop told read value others inductionHypothesis =>
    obtain ⟨toKey, comesNext⟩ := undamaged_of_anotherKey told
    have isKey : Undamaged opened named := isSoundAt_quotation.undamaged (comesNext rfl) read
    have isValue : Undamaged named middle := by
      have sound := @getD_lookup further used
        (fun stretch => ∀ start stop, stretch start stop → Undamaged start stop)
        (fun _ _ => furtherSound) (fun part member _ _ => usedSound part member)
      exact AfterColon.undamaged (sound key _ _) value
    exact toKey.trans (isKey.trans (isValue.trans inductionHypothesis))

/-- An object is undamaged if all of its values are. -/
theorem OfObject.undamaged
    (furtherSound : ∀ {start stop}, further start stop → Undamaged start stop)
    (usedSound : ∀ part ∈ used, ∀ {start stop}, part.2 start stop → Undamaged start stop)
    (crossed : OfObject further used start stop) : Undamaged start stop := by
  rcases crossed with whole | ⟨opened, closing, told, members, ended⟩
  · exact whole
  · obtain ⟨toBrace, single | brace⟩ := undamaged_of_token told
    · exact single.elim
    · exact toBrace.trans ((undamaged_advance brace (by decide)).trans
        ((members.undamaged furtherSound usedSound).trans (isSound_endObject.undamaged ended)))

end Parts

namespace Reader

section Crossing

variable {State Value Result : Type} {first inside : Reader Value} {next : Value → Reader Result}
  {stretch further : Stretch} {used : List (String × Stretch)} {start opened stop : Cursor}
  {read : State → String → Reader State}

/-- What does not move adds nothing to what has been taken. -/
theorem Crosses.bind (crosses : first.Crosses stretch) (stays : ∀ value, (next value).Crosses Eq) :
    (first >>= next).Crosses stretch := by
  intro start result stop read
  obtain ⟨value, middle, read, readNext⟩ := bind_eq_ok_iff.mp read
  exact stays value _ _ _ readNext ▸ crosses _ _ _ read

/-- A value that is only given reads nothing. -/
theorem crosses_pure (value : Value) : (pure value : Reader Value).Crosses Eq := by
  intro start _ stop read
  cases read
  rfl

/-- Entries are read as the members of an object, by induction on their number. -/
theorem crosses_entriesFrom
    (each : ∀ state key, (read state key).Crosses (AfterColon ((used.lookup key).getD further)))
    (steps : Nat) (first : Bool) (state : State) :
    (entriesFrom read steps first state).Crosses (Members further used first) := by
  intro start result stop taken
  induction steps generalizing first state start with
  | zero => cases taken
  | succ steps inductionHypothesis =>
    obtain ⟨another, opened, told, taken⟩ := bind_eq_ok_iff.mp taken
    cases another with
    | false =>
      cases taken
      exact .ended told
    | true =>
      obtain ⟨key, named, isKey, taken⟩ := bind_eq_ok_iff.mp taken
      obtain ⟨state, middle, value, taken⟩ := bind_eq_ok_iff.mp taken
      exact .entry told isKey (each _ _ _ _ _ value) (inductionHypothesis _ _ _ taken)

/-- The entries of an object are read as its members. -/
theorem crosses_entries
    (each : ∀ state key, (read state key).Crosses (AfterColon ((used.lookup key).getD further)))
    (state : State) : (entries read state).Crosses (Members further used true) := by
  intro start result stop taken
  obtain ⟨cursor, _, looked, taken⟩ := bind_eq_ok_iff.mp taken
  cases looked
  exact crosses_entriesFrom each _ _ _ _ _ _ taken

/-- The inside is what stands between the brackets. -/
theorem exists_of_bracketed {place : Cursor → Cursor} {ends : Reader Unit} {value : Value}
    (read : bracketed place ends inside opened = .ok (value, stop)) :
    ∃ closing, inside opened.advance = .ok (value, closing) ∧ ends closing = .ok ((), stop) := by
  obtain ⟨_, _, stepped, read⟩ := bind_eq_ok_iff.mp read
  cases stepped
  obtain ⟨_, closing, settled, read⟩ := bind_eq_ok_iff.mp read
  obtain ⟨_, _, ended, read⟩ := bind_eq_ok_iff.mp read
  cases read
  exact ⟨closing, eq_of_settle settled, ended⟩

end Crossing

/-- Entries of which all values are UTF-8 are UTF-8. -/
theorem isSound_entries {State : Type} {read : State → String → Reader State}
    (sound : ∀ state key, (read state key).Crosses (AfterColon Undamaged)) (state : State) :
    (entries read state).IsSound := by
  intro start result stop taken
  have members : Members Undamaged [] true start stop :=
    crosses_entries sound state start result stop taken
  exact ⟨members.undamaged id (List.forall_mem_nil _), trivial⟩

/-- A value of any shape is read whole. -/
theorem isSound_value (depth : Nat) : (value depth).IsSound := by
  induction depth with
  | zero => exact (refuses_failNext _).yields
  | succ depth inductionHypothesis =>
    rw [value]
    refine isSound_atToken (fun found single => ?_) ?_ ?_
    · cases found with
      | list => exact single.elim
      | object => exact single.elim
      | _ => exact yields_pure trivial
    · dsimp only
      split
      · exact (refuses_failNext _).yieldsAt
      · exact (isSound_elements inductionHypothesis).inList.map _
    · dsimp only
      split
      · exact (refuses_failNext _).yieldsAt
      · refine (Yields.inObject (isSound_entries (fun found key => ?_) [])).map _
        intro start _ stop taken
        obtain ⟨_, ready, parted, taken⟩ := bind_eq_ok_iff.mp taken
        obtain ⟨member, middle, read, taken⟩ := bind_eq_ok_iff.mp taken
        cases taken
        exact ⟨ready, parted, inductionHypothesis.undamaged read⟩

end Reader

end ElmWorkbench.Json
