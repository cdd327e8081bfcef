import ElmWorkbench.Proofs.Json.Sequence
import ElmWorkbench.Proofs.Json.Written
import Mathlib.Data.Set.List
/-!
# What is taken is a tree

A reader that comes to its end has taken the text of a value, and a tree tells how it is written.
The skipper keeps the brackets that are open, so what it goes on with has to close all of them
(`Closes`, `exists_wanted_of_skipWithin`), and then a value that is stepped over is one
(`Skipped.isValue`). Lists, objects and records are values if their parts are, so a message that is
read whole has a tree that spells it (`exists_spells_of_runWhole`).
-/

namespace ElmWorkbench.Json

open Reader

variable {start stop : Cursor}

/-! ## Brackets -/

/-- Parts that are each written in some way are written so one after the other. -/
theorem exists_map_eq {Item Part : Type} {write : Item → Part} {parts : List Part}
    (each : ∀ part ∈ parts, ∃ item, write item = part) : ∃ items, List.map write items = parts := by
  have range := Set.range_list_map write
  exact range.superset each

/-- Items between brackets make a value. -/
theorem exists_tree_of_items {bracket : Bracket} {items : List (List Bytes × Tree)}
    (keys : ∀ item ∈ items, bracket.IsKey item.1) :
    ∃ tree : Tree, tree.tokens =
      [bracket.opening] :: commaTokens true (items.map itemTokens) ++ [[bracket.closing]] := by
  cases bracket with
  | list =>
    have each : ∀ part ∈ items.map itemTokens, ∃ element : Tree, element.tokens = part := by
      refine List.forall_mem_map.mpr fun item member => ⟨item.2, ?_⟩
      have noKey : item.1 = [] := keys item member
      rw [itemTokens, noKey, List.nil_append]
    obtain ⟨elements, same⟩ := exists_map_eq each
    exact ⟨.list elements, by rw [Tree.tokens, Tree.elementTokens_eq, same]; rfl⟩
  | object =>
    have each : ∀ part ∈ items.map itemTokens,
        ∃ entry : Quotation × Tree, pairTokens (Tree.pair entry) = part := by
      refine List.forall_mem_map.mpr fun item member => ?_
      obtain ⟨key, isKey⟩ := keys item member
      exact ⟨(key, item.2), by rw [itemTokens, isKey]; rfl⟩
    obtain ⟨entries, same⟩ := exists_map_eq each
    exact ⟨.object entries, by rw [Tree.tokens, Tree.entryTokens_eq, List.map_map, ← same]; rfl⟩

/-- Tokens that close all brackets that are open, the innermost first. Between them stand further
items, and the innermost bracket may have no item before them. -/
inductive Closes : Bool → List Bracket → List Bytes → Prop where
  | outside {first : Bool} : Closes first [] []
  | inside {first : Bool} {bracket : Bracket} {outer : List Bracket}
      {items : List (List Bytes × Tree)} {more : List Bytes}
      (keys : ∀ item ∈ items, bracket.IsKey item.1) (closes : Closes false outer more) :
      Closes first (bracket :: outer)
        (commaTokens first (items.map itemTokens) ++ ([bracket.closing] :: more))

section Closing

variable {first : Bool} {bracket : Bracket} {outer : List Bracket} {more tokens : List Bytes}

/-- A bracket is closed before those around it. -/
theorem Closes.closed (closes : Closes false outer more) :
    Closes first (bracket :: outer) ([bracket.closing] :: more) :=
  @Closes.inside first bracket outer [] more (List.forall_mem_nil _) closes

/-- A further item may stand before the others. -/
theorem Closes.item {key : List Bytes} (isKey : bracket.IsKey key) (tree : Tree)
    (closes : Closes false (bracket :: outer) more) :
    Closes first (bracket :: outer) (separator first ++ (key ++ (tree.tokens ++ more))) := by
  cases closes with
  | @inside _ _ _ items more keys closes =>
    have whole := @Closes.inside first bracket outer ((key, tree) :: items) more
      (List.forall_mem_cons.mpr ⟨isKey, keys⟩) closes
    simpa [commaTokens, itemTokens] using whole

/-- What closes the innermost bracket makes a value with it. -/
theorem Closes.exists_tree (closes : Closes true (bracket :: outer) tokens) :
    ∃ (tree : Tree) (more : List Bytes), Closes false outer more ∧
      [bracket.opening] :: tokens = tree.tokens ++ more := by
  cases closes with
  | @inside _ _ _ items more keys closes =>
    obtain ⟨tree, written⟩ := exists_tree_of_items keys
    exact ⟨tree, more, closes, by rw [written]; simp⟩

end Closing

/-! ## Values that are stepped over -/

/-- Where only one mark is taken, it is what stands there. -/
theorem written_of_mark {fault : Fault} {mark : UInt8} {other : UInt8 → Reader Unit}
    (refuses : ∀ byte, (other byte).Refuses) (read : (show Reader Unit from do
      match ← peekSolid with
      | none => failNext fault
      | some byte => if byte = mark then step else other byte) start = .ok ((), stop)) :
    Written [[mark]] start stop := by
  obtain ⟨byte, comesNext, read⟩ := exists_solid read
  split at read
  · next same =>
    cases read
    exact written_solid (same ▸ comesNext)
  · exact absurd read (refuses byte _ _ _)

/-- A colon that is read is written. -/
theorem written_of_colon (read : colon start = .ok ((), stop)) : Written [[0x3A]] start stop :=
  written_of_mark (fun _ => refuses_failNext _) read

/-- What is skipped as a key is one. -/
theorem exists_key_of_skipKey {bracket : Bracket}
    (skipped : skipKey bracket start = .ok ((), stop)) :
    ∃ key, bracket.IsKey key ∧ Written key start stop := by
  cases bracket with
  | list =>
    cases skipped
    exact ⟨[], rfl, .refl start⟩
  | object =>
    obtain ⟨byte, comesNext, skipped⟩ := exists_solid skipped
    split at skipped
    · next same =>
      obtain ⟨_, middle, quoted, skipped⟩ := bind_eq_ok_iff.mp skipped
      obtain ⟨key, written⟩ := exists_written_of_skipQuotation (same ▸ comesNext) quoted
      have toColon := (written_skipSpace start).trans written
      exact ⟨_, ⟨key, rfl⟩, toColon.trans (written_of_colon skipped)⟩
    · cases skipped

/-- Nothing separates the first item from the bracket before it. -/
theorem written_nothing {first : Bool} (isFirst : first = true) :
    Written (separator first) start start.skipSpace := by
  rw [isFirst]
  exact written_skipSpace start

/-- A comma separates an item from those before it. -/
theorem written_comma {first : Bool} (notFirst : ¬ first = true)
    (comma : start.skipSpace.rest.head? = some 0x2C) :
    Written (separator first) start start.skipSpace.advance := by
  rw [Bool.eq_false_iff.mpr notFirst]
  exact written_solid comma

/-- A comma and the blanks behind it separate an item from those before it. -/
theorem written_comma_blanks {first : Bool} (notFirst : ¬ first = true)
    (comma : start.skipSpace.rest.head? = some 0x2C) :
    Written (separator first) start start.skipSpace.advance.skipSpace := by
  have separated := (written_comma notFirst comma).trans (written_skipSpace _)
  rwa [List.append_nil] at separated

/-- What has to be there where something is awaited between brackets. -/
def Awaited.Wants : Awaited → List Bracket → List Bytes → Prop
  | .value, opened, tokens => ∃ (tree : Tree) (more : List Bytes), Closes false opened more ∧
      tokens = tree.tokens ++ more
  | .firstOrEnd, opened, tokens => Closes true opened tokens
  | .commaOrEnd, opened, tokens => Closes false opened tokens

/-- Skipping goes on with what is wanted. -/
def GoesOnWanted (steps : Nat) (stop : Cursor) : Prop :=
  ∀ {awaited opened start}, skipWithin steps awaited opened start = .ok ((), stop) →
    ∃ tokens, awaited.Wants opened tokens ∧ Written tokens start stop

/-- Where a value is awaited, one is stepped over before the brackets are closed. -/
theorem exists_wanted_of_value {steps : Nat} (goesOn : GoesOnWanted steps stop)
    {opened : List Bracket}
    (skipped : skipWithin (steps + 1) .value opened start = .ok ((), stop)) :
    ∃ tokens, Awaited.value.Wants opened tokens ∧ Written tokens start stop := by
  rw [skipWithin] at skipped
  obtain ⟨bracket, middle, read, skipped⟩ := bind_eq_ok_iff.mp skipped
  rcases written_of_skipToken read with ⟨rfl, tree, written⟩ | ⟨bracket, rfl, written⟩
  · obtain ⟨more, closes, writtenMore⟩ := goesOn skipped
    exact ⟨tree.tokens ++ more, ⟨tree, more, closes, rfl⟩, written.trans writtenMore⟩
  · obtain ⟨tokens, closes, writtenMore⟩ := goesOn skipped
    obtain ⟨tree, more, closesOuter, whole⟩ := Closes.exists_tree closes
    exact ⟨tree.tokens ++ more, ⟨tree, more, closesOuter, rfl⟩,
      whole ▸ written.trans writtenMore⟩

/-- A further item is stepped over behind what separates it from those before it. -/
theorem exists_closes_of_item {steps : Nat} (goesOn : GoesOnWanted steps stop) {first : Bool}
    {bracket : Bracket} {outer : List Bracket} {middle : Cursor}
    (separated : Written (separator first) start middle)
    (skipped : (skipKey bracket >>= fun _ => skipWithin steps .value (bracket :: outer)) middle =
      .ok ((), stop)) :
    ∃ tokens, Closes first (bracket :: outer) tokens ∧ Written tokens start stop := by
  obtain ⟨_, ready, skippedKey, skipped⟩ := bind_eq_ok_iff.mp skipped
  obtain ⟨key, isKey, writtenKey⟩ := exists_key_of_skipKey skippedKey
  obtain ⟨_, ⟨tree, more, closes, rfl⟩, written⟩ := goesOn skipped
  exact ⟨_, closes.item isKey tree, separated.trans (writtenKey.trans written)⟩

/-- How skipping goes on inside of a bracket depends on the next byte that is no blank. -/
theorem skipWithin_brackets (steps : Nat) (first : Bool) (bracket : Bracket)
    (outer : List Bracket) : skipWithin (steps + 1) (awaitedBefore first) (bracket :: outer) =
      (show Reader Unit from do
        match ← peekSolid with
        | none => failNext bracket.endInside
        | some byte =>
          if byte = bracket.closing then
            step
            skipWithin steps .commaOrEnd outer
          else if first then
            skipKey bracket
            skipWithin steps .value (bracket :: outer)
          else if byte = 0x2C then
            step
            skipKey bracket
            skipWithin steps .value (bracket :: outer)
          else failNext bracket.commaOrEndExpected) := by
  cases first <;> rfl

/-- Inside of brackets, items are stepped over until all brackets are closed. -/
theorem exists_wanted_of_brackets {steps : Nat} (goesOn : GoesOnWanted steps stop) {first : Bool}
    {opened : List Bracket}
    (skipped : skipWithin (steps + 1) (awaitedBefore first) opened start = .ok ((), stop)) :
    ∃ tokens, Closes first opened tokens ∧ Written tokens start stop := by
  cases opened with
  | nil =>
    cases first <;>
    · cases skipped
      exact ⟨[], .outside, .refl start⟩
  | cons bracket outer =>
    rw [skipWithin_brackets] at skipped
    obtain ⟨byte, comesNext, skipped⟩ := exists_solid skipped
    split at skipped
    · next closing =>
      obtain ⟨_, _, stepped, skipped⟩ := bind_eq_ok_iff.mp skipped
      cases stepped
      obtain ⟨more, closes, written⟩ := goesOn skipped
      exact ⟨_, Closes.closed closes, (written_solid (closing ▸ comesNext)).trans written⟩
    split at skipped
    · next isFirst =>
      exact exists_closes_of_item goesOn (written_nothing isFirst) skipped
    · next notFirst =>
      split at skipped
      · next comma =>
        obtain ⟨_, _, stepped, skipped⟩ := bind_eq_ok_iff.mp skipped
        cases stepped
        have separated := written_comma notFirst (comma ▸ comesNext)
        exact exists_closes_of_item goesOn separated skipped
      · cases skipped

/-- Skipping ends where what was wanted has come. -/
theorem exists_wanted_of_skipWithin (steps : Nat) (stop : Cursor) : GoesOnWanted steps stop := by
  induction steps with
  | zero => exact fun skipped => nomatch skipped
  | succ steps inductionHypothesis =>
    -- What is awaited changes from step to step, and so do the brackets that are open.
    intro awaited opened start skipped
    cases awaited with
    | value => exact exists_wanted_of_value inductionHypothesis skipped
    | firstOrEnd => exact @exists_wanted_of_brackets _ _ _ inductionHypothesis true _ skipped
    | commaOrEnd => exact @exists_wanted_of_brackets _ _ _ inductionHypothesis false _ skipped

/-- A value that is stepped over is one. -/
theorem Skipped.isValue (skipped : Skipped start stop) : IsValue start stop := by
  obtain ⟨_, _, looked, skipped⟩ := bind_eq_ok_iff.mp skipped
  cases looked
  obtain ⟨_, ⟨tree, more, closes, rfl⟩, written⟩ := exists_wanted_of_skipWithin _ stop skipped
  cases closes
  rw [List.append_nil] at written
  exact ⟨tree, written⟩

/-! ## Parts of lists and objects -/

/-- The elements of a list up to its end, of which the first may have no other before it. -/
def AreElements (first : Bool) : Stretch := fun start stop =>
  ∃ elements, Written (Tree.elementTokens first elements) start stop

/-- The entries of an object up to its end, of which the first may have no other before it. -/
def AreEntries (first : Bool) : Stretch := fun start stop =>
  ∃ entries, Written (Tree.entryTokens first entries) start stop

section Parts

variable {first : Bool} {middle opened named : Cursor}

/-- A list may have no further element. -/
theorem AreElements.none (written : Written [] start stop) : AreElements first start stop :=
  ⟨[], written⟩

/-- An element comes before the others. -/
theorem AreElements.cons (separated : Written (separator first) start opened)
    (isValue : IsValue opened middle) (others : AreElements false middle stop) :
    AreElements first start stop := by
  obtain ⟨tree, written⟩ := isValue
  obtain ⟨elements, writtenOthers⟩ := others
  exact ⟨tree :: elements, (separated.trans written).trans writtenOthers⟩

/-- An object may have no further entry. -/
theorem AreEntries.none (written : Written [] start stop) : AreEntries first start stop :=
  ⟨[], written⟩

/-- An entry comes before the others. -/
theorem AreEntries.cons {key : Quotation} (separated : Written (separator first) start opened)
    (isKey : Written [key.bytes] opened named) (isValue : AfterColon IsValue named middle)
    (others : AreEntries false middle stop) : AreEntries first start stop := by
  obtain ⟨ready, parted, tree, written⟩ := isValue
  obtain ⟨entries, writtenOthers⟩ := others
  have entry := isKey.trans ((written_of_colon parted).trans (written.trans writtenOthers))
  exact ⟨(key, tree) :: entries, separated.trans entry⟩

/-- The end of a list is told, or what separates an element from the ones before it is taken. -/
theorem written_of_anotherElement {another : Bool}
    (told : anotherElement first start = .ok (another, stop)) :
    another = true ∧ Written (separator first) start stop ∨
      another = false ∧ stop = start.skipSpace ∧ stop.rest.head? = some 0x5D := by
  obtain ⟨byte, comesNext, told⟩ := exists_solid told
  split at told
  · next closing =>
    cases told
    exact .inr ⟨rfl, rfl, closing ▸ comesNext⟩
  split at told
  · next isFirst =>
    cases told
    exact .inl ⟨rfl, written_nothing isFirst⟩
  · next notFirst =>
    split at told
    · next comma =>
      obtain ⟨_, _, stepped, told⟩ := bind_eq_ok_iff.mp told
      cases stepped
      obtain ⟨follower, -, told⟩ := exists_solid told
      have separated := written_comma_blanks notFirst (comma ▸ comesNext)
      split at told
      · cases told
      · cases told
        exact .inl ⟨rfl, separated⟩
    · cases told

/-- Another key stands behind a separator. -/
theorem written_of_anotherKey {another : Bool}
    (told : anotherKey first start = .ok (another, stop)) :
    another = true ∧ Written (separator first) start stop ∨
      another = false ∧ Written [] start stop := by
  obtain ⟨byte, comesNext, told⟩ := exists_solid told
  split at told
  · cases told
    exact .inr ⟨rfl, written_skipSpace start⟩
  split at told
  · next isFirst =>
    split at told
    · cases told
      exact .inl ⟨rfl, written_nothing isFirst⟩
    · cases told
  · next notFirst =>
    split at told
    · next comma =>
      obtain ⟨_, _, stepped, told⟩ := bind_eq_ok_iff.mp told
      cases stepped
      obtain ⟨follower, -, told⟩ := exists_solid told
      have separated := written_comma_blanks notFirst (comma ▸ comesNext)
      split at told
      · cases told
        exact .inl ⟨rfl, separated⟩
      · split at told <;> cases told
    · cases told

/-- Entries stand where the members of an object do, if all their values are such. -/
theorem Members.areEntries {further : Stretch} {used : List (String × Stretch)}
    (furtherAre : ∀ {start stop}, further start stop → IsValue start stop)
    (usedAre : ∀ part ∈ used, ∀ {start stop}, part.2 start stop → IsValue start stop)
    (members : Members further used first start stop) : AreEntries first start stop := by
  induction members with
  | ended told =>
    obtain ⟨same, -⟩ | ⟨-, written⟩ := written_of_anotherKey told
    · cases same
    · exact .none written
  | @entry first key start opened named middle stop told read value others inductionHypothesis =>
    obtain ⟨-, separated⟩ | ⟨same, -⟩ := written_of_anotherKey told
    · obtain ⟨-, comesNext⟩ := undamaged_of_anotherKey told
      obtain ⟨key, isKey⟩ := exists_written_of_quotation (comesNext rfl) read
      obtain ⟨ready, parted, crossed⟩ := value
      have are := @getD_lookup further used (fun stretch => ∀ start stop, stretch start stop →
        IsValue start stop) (fun _ _ => furtherAre) (fun part member _ _ => usedAre part member)
      exact .cons separated isKey ⟨ready, parted, are _ _ _ crossed⟩ inductionHypothesis
    · cases same

end Parts

namespace Reader

section Values

variable {Value Result : Type} {read inside : Reader Value} {opened : Cursor} {value : Value}

/-- What is made of a value takes the same stretch. -/
theorem Crosses.map {stretch : Stretch} (crosses : read.Crosses stretch)
    (change : Value → Result) : (change <$> read).Crosses stretch := by
  intro start result stop taken
  obtain ⟨value, taken, -⟩ := map_eq_ok_iff.mp taken
  exact crosses start value stop taken

/-- What is read as a text is a whole value. -/
theorem isValue_textFor (expected : String) : (textFor expected).Crosses IsValue := by
  intro start value stop taken
  obtain ⟨found, middle, told, taken⟩ := bind_eq_ok_iff.mp taken
  cases found with
  | text value =>
    cases taken
    exact isValue_of_token_text told
  | _ => cases taken

/-- What is read as a path is a whole value. -/
theorem isValue_path : path.Crosses IsValue :=
  (isValue_textFor "path string").map Path.ofString

/-- What is read as an optional value is a whole value. -/
theorem Crosses.optional (crosses : read.Crosses IsValue) : (optional read).Crosses IsValue := by
  intro start value stop taken
  have toSolid := written_skipSpace start
  obtain ⟨_, _, looked, taken⟩ := bind_eq_ok_iff.mp taken
  cases looked
  split at taken
  · next comesNext =>
    obtain ⟨_, _, isWord, taken⟩ := bind_eq_ok_iff.mp taken
    cases taken
    exact ⟨.null, toSolid.trans (written_of_word comesNext isWord).2⟩
  · obtain ⟨tree, written⟩ := crosses.map some _ _ _ taken
    exact ⟨tree, toSolid.trans written⟩

/-! ## Lists and objects -/

/-- The end of a list is its bracket. -/
theorem written_of_endList (ended : endList start = .ok ((), stop)) :
    Written [[0x5D]] start stop :=
  written_of_mark refuses_besideBracket ended

/-- The end of an object is its bracket. -/
theorem written_of_endObject (ended : endObject start = .ok ((), stop)) :
    Written [[0x7D]] start stop :=
  written_of_mark refuses_besideBrace ended

/-- Elements in brackets are a value. -/
theorem isValue_of_inList (crosses : inside.Crosses (AreElements true))
    (told : token start = .ok (.list, opened)) (taken : inList inside opened = .ok (value, stop)) :
    IsValue start stop := by
  obtain ⟨closing, taken, ended⟩ := exists_of_bracketed taken
  obtain ⟨elements, written⟩ := crosses _ _ _ taken
  obtain ⟨toBracket, comesNext⟩ := comesNext_of_token_bracket rfl told
  have toInside := toBracket.trans (written_advance comesNext)
  exact ⟨.list elements, (toInside.trans written).trans (written_of_endList ended)⟩

/-- Entries in braces are a value. -/
theorem isValue_of_inObject (crosses : inside.Crosses (AreEntries true))
    (told : token start = .ok (.object, opened))
    (taken : inObject inside opened = .ok (value, stop)) : IsValue start stop := by
  obtain ⟨closing, taken, ended⟩ := exists_of_bracketed taken
  obtain ⟨entries, written⟩ := crosses _ _ _ taken
  obtain ⟨toBrace, comesNext⟩ := comesNext_of_token_bracket rfl told
  have toInside := toBrace.trans (written_advance comesNext)
  exact ⟨.object entries, (toInside.trans written).trans (written_of_endObject ended)⟩

/-- What is read as elements are whole values with commas between them. -/
theorem areElements_elementsFrom (crosses : read.Crosses IsValue) (steps : Nat) (first : Bool) :
    (elementsFrom read steps first).Crosses (AreElements first) := by
  intro start values stop taken
  induction steps generalizing first start values with
  | zero => cases taken
  | succ steps inductionHypothesis =>
    obtain ⟨another, opened, told, taken⟩ := bind_eq_ok_iff.mp taken
    obtain ⟨rfl, separated⟩ | ⟨rfl, rfl, -⟩ := written_of_anotherElement told
    · obtain ⟨value, middle, isValue, taken⟩ := bind_eq_ok_iff.mp taken
      obtain ⟨rest, _, others, taken⟩ := bind_eq_ok_iff.mp taken
      cases taken
      exact .cons separated (crosses _ _ _ isValue) (inductionHypothesis _ _ _ others)
    · cases taken
      exact .none (written_skipSpace start)

/-- What is read as a list is a whole value. -/
theorem Crosses.listOf (crosses : read.Crosses IsValue) : (listOf read).Crosses IsValue := by
  intro start values stop taken
  obtain ⟨found, opened, told, taken⟩ := bind_eq_ok_iff.mp taken
  cases found with
  | list =>
    have inside : (elements read).Crosses (AreElements true) := by
      intro start values stop taken
      obtain ⟨_, _, looked, taken⟩ := bind_eq_ok_iff.mp taken
      cases looked
      exact areElements_elementsFrom crosses _ _ _ _ _ taken
    exact isValue_of_inList inside told taken
  | _ => cases taken

/-- What is read as an object of entries is a whole value. -/
theorem Crosses.entriesOf (crosses : read.Crosses IsValue) : (entriesOf read).Crosses IsValue := by
  intro start values stop taken
  obtain ⟨found, opened, told, taken⟩ := bind_eq_ok_iff.mp taken
  cases found with
  | object =>
    refine isValue_of_inObject (fun start values stop taken => ?_) told taken
    have members : Members IsValue [] true start stop := by
      refine crosses_entries (fun found key start _ stop taken => ?_) [] _ _ _ taken
      obtain ⟨_, ready, parted, taken⟩ := bind_eq_ok_iff.mp taken
      obtain ⟨value, _, isValue, taken⟩ := bind_eq_ok_iff.mp taken
      cases taken
      exact ⟨ready, parted, crosses _ _ _ isValue⟩
    exact members.areEntries id (List.forall_mem_nil _)
  | _ => cases taken

/-! ## Records -/

section Records

variable {Draft Record : Type} {fields : List (Field Draft)} {shape : Shape Draft Record}

/-- At the end of a list no field is read from it. -/
theorem written_of_fieldsInList_end {expected : String} {index : Nat} {draft filled : Draft}
    (atEnd : start.rest.head? = some 0x5D)
    (taken : fieldsInList expected index fields draft start = .ok (filled, stop)) :
    Written [] start stop := by
  obtain ⟨before, rest⟩ := start
  obtain ⟨others, rfl⟩ := List.head?_eq_some_iff.mp atEnd
  induction fields generalizing index with
  | nil =>
    cases taken
    exact .refl _
  | cons field fields inductionHypothesis =>
    obtain ⟨another, opened, told, taken⟩ := bind_eq_ok_iff.mp taken
    have ended := reads_anotherElement_end (decide (index = 0)) isBlank_nil others before
    obtain ⟨rfl, rfl⟩ := Prod.mk.inj (Except.ok.inj (told.symm.trans ended))
    rw [if_neg Bool.false_ne_true] at taken
    split at taken
    · exact inductionHypothesis taken
    · cases taken

/-- Fields in a list are whole values with commas between them. -/
theorem areElements_fieldsInList
    (crosses : ∀ field ∈ fields, ∀ draft, (field.read draft).Crosses IsValue) (expected : String)
    (index : Nat) (draft : Draft) :
    (fieldsInList expected index fields draft).Crosses (AreElements (index = 0)) := by
  intro start filled stop taken
  induction fields generalizing index draft start with
  | nil =>
    cases taken
    exact .none (.refl _)
  | cons field fields inductionHypothesis =>
    obtain ⟨here, later⟩ := List.forall_mem_cons.mp crosses
    obtain ⟨another, opened, told, taken⟩ := bind_eq_ok_iff.mp taken
    obtain ⟨rfl, separated⟩ | ⟨rfl, rfl, atEnd⟩ := written_of_anotherElement told
    · rw [if_pos rfl] at taken
      obtain ⟨next, middle, isValue, taken⟩ := bind_eq_ok_iff.mp taken
      exact .cons separated (here _ _ _ _ isValue) (inductionHypothesis later _ _ _ taken)
    · rw [if_neg Bool.false_ne_true] at taken
      split at taken
      · -- A field that may be left out takes nothing, and no element stands behind it.
        exact .none ((written_skipSpace start).trans (written_of_fieldsInList_end atEnd taken))
      · cases taken

/-- A record as a list has whole values for its elements. -/
theorem areElements_recordInList
    (crosses : ∀ field ∈ shape.fields, ∀ draft, (field.read draft).Crosses IsValue) :
    (recordInList .direct shape).Crosses (AreElements true) :=
  (areElements_fieldsInList crosses _ 0 _).bind fun _ => crosses_whole _

/-- A record as an object has whole values for its entries. -/
theorem areEntries_recordInObject
    (crosses : ∀ field ∈ shape.fields, ∀ draft, (field.read draft).Crosses IsValue) :
    (recordInObject shape).Crosses (AreEntries true) := by
  intro start record stop taken
  have parts : List.Forall₂ IsPart shape.fields
      (shape.fields.map fun field => (field.name, IsValue)) :=
    List.forall₂_map_right_iff.mpr (List.forall₂_same.mpr fun field member =>
      ⟨rfl, crosses field member⟩)
  refine (crosses_recordInObject parts _ _ _ taken).areEntries Skipped.isValue ?_
  exact List.forall_mem_map.mpr fun _ _ _ _ => id

/-- A record is a value if what is read for its fields is. -/
theorem isValue_record
    (crosses : ∀ field ∈ shape.fields, ∀ draft, (field.read draft).Crosses IsValue) :
    (record .direct shape).Crosses IsValue := by
  intro start record stop taken
  obtain ⟨found, opened, told, taken⟩ := bind_eq_ok_iff.mp taken
  cases found with
  | object => exact isValue_of_inObject (areEntries_recordInObject crosses) told taken
  | list => exact isValue_of_inList (areElements_recordInList crosses) told taken
  | _ => cases taken

end Records

/-- A message that is read whole has a tree. -/
theorem exists_spells_of_runWhole (crosses : read.Crosses IsValue) {bytes : Bytes}
    (taken : runWhole read bytes = .ok value) : ∃ tree : Tree, tree.Spells bytes := by
  rw [runWhole] at taken
  split at taken
  · cases taken
  · cases taken
  · next result stop isRead =>
    dsimp only at taken
    split at taken
    · next atEnd =>
      obtain ⟨tree, written⟩ := crosses _ _ _ isRead
      exact ⟨tree, written.exists_of_end atEnd⟩
    · cases taken

end Values

end Reader

end ElmWorkbench.Json
