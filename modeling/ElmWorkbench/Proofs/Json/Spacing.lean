import ElmWorkbench.Proofs.Json.Writing
/-!
# Texts with blanks

The text of a value is a sequence of tokens, and blanks may stand before each of them. `Spaced`
tells the texts that tokens have with blanks between them; the compact text has none
(`Value.spaced_bytes`). A text splits where its tokens do (`spaced_append_iff`), so the parts of a
value are followed one by one.
-/

namespace ElmWorkbench.Json

open Reader

/-- The bytes of the compact text of a value. -/
def Value.bytes (value : Value) : Bytes :=
  Utf8.encodeChars value.compact.text

/-- The bytes of a key with its quotation marks. -/
def keyBytes (key : String) : Bytes :=
  Utf8.encodeChars (writeText key)

/-- A text is written as the bytes of a key. -/
theorem bytes_text (text : String) : (Value.text text).bytes = keyBytes text := by
  rw [Value.bytes, Value.compact, Value.write]
  rfl

/-- Tokens one after the other, with blanks before each of them. -/
inductive Spaced : List Bytes → Bytes → Prop where
  | done : Spaced [] []
  | token {gap token text : Bytes} {others : List Bytes} (blank : IsBlank gap)
      (more : Spaced others text) : Spaced (token :: others) (gap ++ (token ++ text))

/-- What stands before an element or an entry: a comma, unless it is the first. -/
def separator (first : Bool) : List Bytes :=
  if first then [] else [[0x2C]]

mutual

/-- The tokens of a value. -/
def Value.tokens : Value → List Bytes
  | .list elements => [0x5B] :: elementTokens true elements ++ [[0x5D]]
  | .object entries => [0x7B] :: entryTokens true entries ++ [[0x7D]]
  | value => [value.bytes]

/-- The tokens of the elements of a list, of which the first may have no other before it. -/
def Value.elementTokens (first : Bool) : List Value → List Bytes
  | [] => []
  | element :: others => separator first ++ element.tokens ++ elementTokens false others

/-- The tokens of the entries of an object, of which the first may have no other before it. -/
def Value.entryTokens (first : Bool) : List (String × Value) → List Bytes
  | [] => []
  | (key, value) :: others =>
    separator first ++ (keyBytes key :: [0x3A] :: value.tokens ++ entryTokens false others)

end

/-- A value without brackets. -/
def Value.IsSingle : Value → Prop
  | .list _ => False
  | .object _ => False
  | _ => True

/-- A value of one token is written as it. -/
theorem Value.tokens_of_single {value : Value} (single : value.IsSingle) :
    value.tokens = [value.bytes] := by
  cases value with
  | list elements => cases single
  | object entries => cases single
  | _ => rfl

/-- A text is one token. -/
theorem Value.tokens_text (text : String) : (Value.text text).tokens = [keyBytes text] := by
  rw [← bytes_text]
  rfl

/-- The tokens of parts with commas between them, of which the first may have no other before it. -/
def commaTokens (first : Bool) : List (List Bytes) → List Bytes
  | [] => []
  | part :: others => separator first ++ (part ++ commaTokens false others)

/-- The tokens of elements are those of each with commas between them. -/
theorem Value.elementTokens_eq (first : Bool) (elements : List Value) :
    elementTokens first elements = commaTokens first (elements.map Value.tokens) := by
  induction elements generalizing first with
  | nil => rfl
  | cons element others inductionHypothesis =>
    rw [elementTokens, inductionHypothesis, List.append_assoc]
    rfl

/-- The tokens of an entry: a key, a colon and a value. -/
def pairTokens (entry : Bytes × List Bytes) : List Bytes :=
  entry.1 :: [0x3A] :: entry.2

/-- What an entry is written with. -/
def Value.pair (entry : String × Value) : Bytes × List Bytes :=
  (keyBytes entry.1, entry.2.tokens)

/-- The tokens of entries are those of each pair with commas between them. -/
theorem Value.entryTokens_eq (first : Bool) (entries : List (String × Value)) :
    entryTokens first entries = commaTokens first ((entries.map Value.pair).map pairTokens) := by
  induction entries generalizing first with
  | nil => rfl
  | cons entry others inductionHypothesis =>
    rw [entryTokens, inductionHypothesis]
    rfl

/-- A text of a value, with blanks around its tokens. -/
def Value.Spells (value : Value) (bytes : Bytes) : Prop :=
  ∃ text gap, Spaced value.tokens text ∧ IsBlank gap ∧ bytes = text ++ gap

/-! ## Tokens one after the other -/

section Splitting

variable {token text : Bytes} {front back others : List Bytes}

/-- A token stands behind blanks and before the others. -/
theorem spaced_cons_iff : Spaced (token :: others) text ↔
    ∃ gap more, IsBlank gap ∧ Spaced others more ∧ text = gap ++ (token ++ more) := by
  constructor
  · rintro (_ | ⟨blank, more⟩)
    exact ⟨_, _, blank, more, rfl⟩
  · rintro ⟨gap, more, blank, spaced, rfl⟩
    exact .token blank spaced

/-- Tokens one after the other are spaced if both parts of them are. -/
theorem spaced_append_iff : Spaced (front ++ back) text ↔
    ∃ first second, Spaced front first ∧ Spaced back second ∧ text = first ++ second := by
  induction front generalizing text with
  | nil =>
    constructor
    · exact fun spaced => ⟨[], text, .done, spaced, rfl⟩
    · rintro ⟨first, second, ⟨⟩, spaced, rfl⟩
      exact spaced
  | cons token front inductionHypothesis =>
    rw [List.cons_append, spaced_cons_iff]
    constructor
    · rintro ⟨gap, more, blank, spaced, rfl⟩
      obtain ⟨first, second, spacedFront, spacedBack, rfl⟩ := inductionHypothesis.mp spaced
      exact ⟨gap ++ (token ++ first), second, .token blank spacedFront, spacedBack, by simp⟩
    · rintro ⟨first, second, spacedFirst, spacedBack, rfl⟩
      obtain ⟨gap, more, blank, spacedFront, rfl⟩ := spaced_cons_iff.mp spacedFirst
      exact ⟨gap, more ++ second, blank,
        inductionHypothesis.mpr ⟨more, second, spacedFront, spacedBack, rfl⟩, by simp⟩

/-- A single token has blanks before it. -/
theorem spaced_singleton_iff :
    Spaced [token] text ↔ ∃ gap, IsBlank gap ∧ text = gap ++ token := by
  rw [spaced_cons_iff]
  constructor
  · rintro ⟨gap, more, blank, ⟨⟩, rfl⟩
    exact ⟨gap, blank, by rw [List.append_nil]⟩
  · rintro ⟨gap, blank, rfl⟩
    exact ⟨gap, [], blank, .done, by rw [List.append_nil]⟩

/-- Some number of blanks before each token makes a text. -/
theorem spaced_zipWith {gaps tokens : List Bytes} (blank : ∀ gap ∈ gaps, IsBlank gap)
    (same : gaps.length = tokens.length) :
    Spaced tokens (List.zipWith (· ++ ·) gaps tokens).flatten := by
  induction gaps generalizing tokens with
  | nil =>
    obtain rfl := List.length_eq_zero_iff.mp same.symm
    exact .done
  | cons gap gaps inductionHypothesis =>
    cases tokens with
    | nil => cases same
    | cons token tokens =>
      obtain ⟨here, later⟩ := List.forall_mem_cons.mp blank
      rw [List.zipWith_cons_cons, List.flatten_cons, List.append_assoc]
      exact .token here (inductionHypothesis later (Nat.succ.inj same))

/-- The same blanks before each token make a text. -/
theorem spaced_flatMap {gap : Bytes} (blank : IsBlank gap) (tokens : List Bytes) :
    Spaced tokens (tokens.flatMap (gap ++ ·)) := by
  induction tokens with
  | nil => exact .done
  | cons token others inductionHypothesis =>
    rw [List.flatMap_cons, List.append_assoc]
    exact .token blank inductionHypothesis

end Splitting

/-! ## Written texts -/

/-- A blank before the first token makes the blanks there longer. -/
theorem Spaced.behind {gap text : Bytes} {tokens : List Bytes} (spaced : Spaced tokens text)
    (nonempty : tokens ≠ []) (blank : IsBlank gap) : Spaced tokens (gap ++ text) := by
  cases spaced with
  | done => exact absurd rfl nonempty
  | token blankInner more =>
    rw [← List.append_assoc]
    exact .token (List.forall_mem_append.mpr ⟨blank, blankInner⟩) more

/-- Behind commas and blanks stand the texts of parts. -/
theorem spaced_parts {Part : Type} {tokens : Part → List Bytes} {written : Part → Bytes}
    {gap : Bytes} (blank : IsBlank gap) {parts : List Part}
    (spaced : ∀ part ∈ parts, tokens part ≠ [] ∧ Spaced (tokens part) (written part)) :
    Spaced (commaTokens false (parts.map tokens))
      (parts.flatMap fun part => 0x2C :: (gap ++ written part)) := by
  induction parts with
  | nil => exact .done
  | cons part others inductionHypothesis =>
    obtain ⟨⟨nonempty, here⟩, later⟩ := List.forall_mem_cons.mp spaced
    rw [List.flatMap_cons]
    have behind : Spaced (tokens part ++ commaTokens false (others.map tokens))
        (gap ++ written part ++ others.flatMap fun part => 0x2C :: (gap ++ written part)) :=
      spaced_append_iff.mpr ⟨_, _, here.behind nonempty blank, inductionHypothesis later, rfl⟩
    exact .token isBlank_nil behind

namespace Layout

/-- The bytes of the blanks before an element. -/
def gap (layout : Layout) : Bytes :=
  Utf8.encode layout.lineStart

/-- A layout puts nothing but blanks before an element. -/
theorem isBlank_gap (layout : Layout) : IsBlank layout.gap := by
  cases layout with
  | compact => exact isBlank_nil
  | lines depth =>
    intro byte member
    rw [gap, lineStart, Utf8.encode, String.toList_ofList, Utf8.encodeChars_cons,
      Utf8.encodeChars] at member
    rcases List.mem_append.mp member with newline | blank
    · rw [List.mem_singleton.mp newline]
      rfl
    · obtain ⟨character, isBlank, written⟩ := List.mem_flatMap.mp blank
      rw [List.eq_of_mem_replicate isBlank] at written
      rw [List.mem_singleton.mp written]
      rfl

/-- A colon and blanks stand between a key and its value. -/
theorem exists_afterKey (layout : Layout) :
    ∃ gap, IsBlank gap ∧ Utf8.encode layout.afterKey = 0x3A :: gap := by
  cases layout with
  | compact => exact ⟨[], isBlank_nil, rfl⟩
  | lines depth => exact ⟨[0x20], by decide, by rw [afterKey]; decide⟩

/-- The bytes of elements between brackets. -/
theorem bytes_enclose (layout : Layout) (opening closing : String) {first : Output}
    {others : List Output} (complete : ∀ output ∈ first :: others, output.complete) :
    Utf8.encodeChars (layout.enclose opening closing (first :: others)).text =
      Utf8.encode opening ++ ((layout.inner.gap ++ Utf8.encodeChars first.text) ++
        (others.flatMap fun output =>
          0x2C :: (layout.inner.gap ++ Utf8.encodeChars output.text)) ++
          (layout.gap ++ Utf8.encode closing)) := by
  have commas (outputs : List Output) : Utf8.encodeChars (outputs.flatMap fun output =>
      ',' :: (layout.inner.lineStart.toList ++ output.text)) = outputs.flatMap fun output =>
        0x2C :: (layout.inner.gap ++ Utf8.encodeChars output.text) := by
    rw [Utf8.encodeChars, List.flatMap_assoc]
    refine congrArg (List.flatMap · outputs) (funext fun output => ?_)
    rw [← Utf8.encodeChars, Utf8.encodeChars_cons, Utf8.encodeChars_append]
    rfl
  rw [text_enclose layout opening closing complete]
  simp only [Utf8.encodeChars_append, commas]
  rfl

/-- The text of brackets with parts, with blanks between the tokens only. -/
theorem spaced_enclose (layout : Layout) {opening closing : String} {first last : UInt8}
    (opens : Utf8.encode opening = [first]) (closes : Utf8.encode closing = [last]) {Part : Type}
    {tokens : Part → List Bytes} {written : Part → Output} {parts : List Part}
    (complete : ∀ part ∈ parts, (written part).complete)
    (spaced : ∀ part ∈ parts,
      tokens part ≠ [] ∧ Spaced (tokens part) (Utf8.encodeChars (written part).text)) :
    Spaced ([first] :: commaTokens true (parts.map tokens) ++ [[last]])
      (Utf8.encodeChars (layout.enclose opening closing (parts.map written)).text) := by
  cases parts with
  | nil =>
    have empty : Utf8.encodeChars (layout.enclose opening closing []).text =
        [] ++ ([first] ++ ([] ++ ([last] ++ []))) := by
      rw [enclose, if_pos rfl, Output.text_of, String.toList_append, Utf8.encodeChars_append,
        ← Utf8.encode, ← Utf8.encode, opens, closes]
      rfl
    rw [List.map_nil, List.map_nil, empty]
    exact .token isBlank_nil (.token isBlank_nil .done)
  | cons part others =>
    obtain ⟨⟨nonempty, here⟩, later⟩ := List.forall_mem_cons.mp spaced
    have each : ∀ output ∈ (part :: others).map written, output.complete :=
      List.forall_mem_map.mpr complete
    have inside : commaTokens true ((part :: others).map tokens) =
        tokens part ++ commaTokens false (others.map tokens) := rfl
    rw [inside, List.map_cons, layout.bytes_enclose opening closing each, List.flatMap_map, opens,
      closes]
    exact .token isBlank_nil (spaced_append_iff.mpr ⟨_, _, spaced_append_iff.mpr ⟨_, _,
      here.behind nonempty layout.inner.isBlank_gap, spaced_parts layout.inner.isBlank_gap later,
      rfl⟩, spaced_singleton_iff.mpr ⟨_, layout.isBlank_gap, rfl⟩, rfl⟩)

end Layout

namespace Value

/-- Every value is written with a token. -/
theorem tokens_ne_nil (value : Value) : value.tokens ≠ [] := by
  cases value <;> simp [tokens]

/-- The layout does not matter for a value without brackets. -/
theorem spaced_of_single {layout : Layout} {value : Value} (single : value.IsSingle)
    (same : value.write layout = value.compact) :
    Spaced value.tokens (Utf8.encodeChars (value.write layout).text) := by
  rw [tokens_of_single single, same]
  exact spaced_singleton_iff.mpr ⟨[], isBlank_nil, rfl⟩

/-- An entry is written as its key, a colon and its value. -/
theorem spaced_writeEntry {layout : Layout} {entry : String × Value}
    (spaced : Spaced entry.2.tokens (Utf8.encodeChars (entry.2.write layout).text)) :
    Spaced (keyBytes entry.1 :: [0x3A] :: entry.2.tokens)
      (Utf8.encodeChars (writeEntry layout entry).text) := by
  obtain ⟨gap, blank, afterKey⟩ := layout.exists_afterKey
  have written : Utf8.encodeChars (writeEntry layout entry).text =
      keyBytes entry.1 ++ ([0x3A] ++ (gap ++ Utf8.encodeChars (entry.2.write layout).text)) := by
    rw [writeEntry, Output.text_append rfl, Output.text_append rfl, Utf8.encodeChars_append,
      Utf8.encodeChars_append, Output.text_of, ← Utf8.encode, afterKey]
    simp [keyBytes, writeString]
  rw [written]
  exact .token isBlank_nil (.token isBlank_nil (spaced.behind entry.2.tokens_ne_nil blank))

/-- However a value is laid out, blanks stand between its tokens only. -/
theorem spaced_write (layout : Layout) {value : Value} (complete : (value.write layout).complete) :
    Spaced value.tokens (Utf8.encodeChars (value.write layout).text) := by
  induction value using induction generalizing layout with
  | null => exact spaced_of_single trivial rfl
  | boolean value => exact spaced_of_single trivial rfl
  | integer value => exact spaced_of_single trivial rfl
  | fraction bits => exact spaced_of_single trivial rfl
  | text value => exact spaced_of_single trivial rfl
  | path value => exact spaced_of_single trivial rfl
  | list elements inductionHypothesis =>
    rw [write_list] at complete ⊢
    rw [Layout.complete_enclose, List.all_eq_true, List.forall_mem_map] at complete
    rw [tokens, elementTokens_eq]
    exact layout.spaced_enclose rfl rfl complete fun element member =>
      ⟨element.tokens_ne_nil, inductionHypothesis element member layout.inner
        (complete element member)⟩
  | object entries inductionHypothesis =>
    rw [write_object] at complete ⊢
    rw [Layout.complete_enclose, List.all_eq_true, List.forall_mem_map] at complete
    rw [tokens, entryTokens_eq, List.map_map]
    refine layout.spaced_enclose rfl rfl complete fun entry member => ⟨by simp [pairTokens], ?_⟩
    have whole := complete entry member
    rw [complete_writeEntry] at whole
    exact spaced_writeEntry (inductionHypothesis entry member layout.inner whole)

/-- The compact text of a value is a text without blanks. -/
theorem spaced_bytes {value : Value} (complete : value.compact.complete) :
    Spaced value.tokens value.bytes :=
  spaced_write .compact complete

/-- A value is spelled by its compact text if all of it can be written. -/
theorem spells_bytes {value : Value} (complete : value.compact.complete) :
    value.Spells value.bytes :=
  ⟨value.bytes, [], spaced_bytes complete, isBlank_nil, (List.append_nil _).symm⟩

end Value

/-! ## What follows a value -/

/-- What may follow a value in a text: a blank, a comma, a closing bracket or the end. -/
def IsEnd (rest : Bytes) : Prop :=
  ∀ byte ∈ rest.head?, isSpace byte ∨ byte = 0x2C ∨ byte = 0x5D ∨ byte = 0x7D

/-- Blanks and a byte that may follow a value. -/
theorem isEnd_append {gap rest : Bytes} (blank : IsBlank gap) (ends : IsEnd rest) :
    IsEnd (gap ++ rest) := by
  cases gap with
  | nil => exact ends
  | cons byte others =>
    intro found isFirst
    obtain rfl := Option.some.inj isFirst
    exact .inl (blank byte List.mem_cons_self)

/-- A value may end before blanks. -/
theorem isEnd_of_isBlank {gap : Bytes} (blank : IsBlank gap) : IsEnd gap := by
  rw [← List.append_nil gap]
  exact isEnd_append blank (by simp [IsEnd])

/-- A value may end before a comma. -/
theorem isEnd_comma {tokens : List Bytes} {text : Bytes} (spaced : Spaced ([0x2C] :: tokens) text)
    (rest : Bytes) : IsEnd (text ++ rest) := by
  obtain ⟨gap, behind, blank, -, rfl⟩ := spaced_cons_iff.mp spaced
  rw [List.append_assoc]
  exact isEnd_append blank (by simp [IsEnd])

/-- Behind a part comes a comma, or what stands behind the last one. -/
theorem isEnd_parts {others : List (List Bytes)} {text back rest : Bytes}
    (spaced : Spaced (commaTokens false others) text) (ends : IsEnd (back ++ rest)) :
    IsEnd (text ++ back ++ rest) := by
  cases others with
  | nil =>
    cases spaced
    exact ends
  | cons part others =>
    rw [List.append_assoc]
    exact isEnd_comma spaced _

/-- A value may end before a closing bracket. -/
theorem isEnd_closing {gap : Bytes} {closing : UInt8} (blank : IsBlank gap)
    (isBracket : closing = 0x5D ∨ closing = 0x7D) (rest : Bytes) :
    IsEnd (gap ++ closing :: rest) := by
  refine isEnd_append blank ?_
  rintro _ ⟨⟩
  exact .inr (.inr isBracket)

/-- A value may end before further entries and the end of the object. -/
theorem isEnd_entries {others : List (String × Value)} {text closing : Bytes}
    (spaced : Spaced (Value.entryTokens false others) text) (blank : IsBlank closing)
    (rest : Bytes) : IsEnd (text ++ closing ++ 0x7D :: rest) := by
  rw [Value.entryTokens_eq] at spaced
  exact isEnd_parts spaced (isEnd_closing blank (.inr rfl) rest)

/-! ## Reading over blanks -/

section Blanks

variable {gap lead rest : Bytes}

/-- The opening brace of an object is told. -/
theorem reads_token_object (blank : IsBlank gap) : token.Reads gap .object (0x7B :: rest) :=
  Reads.atGap blank rfl (reads_pure Found.object _)

/-- The end of an object is told and left in place. -/
theorem reads_anotherKey_end (first : Bool) (blank : IsBlank gap) :
    (anotherKey first).Reads gap false (0x7D :: rest) :=
  Reads.atGap blank rfl (reads_pure false _)

/-- A comma is stepped over where one must stand, and the key after it is left in place. -/
theorem reads_anotherKey {first : Bool} (spaced : Spaced (separator first) lead)
    (blank : IsBlank gap) (more : Bytes) :
    (anotherKey first).Reads (lead ++ gap) true (quote :: more) := by
  cases first with
  | true =>
    cases spaced
    exact Reads.atGap blank rfl (reads_pure true _)
  | false =>
    obtain ⟨before, blankBefore, rfl⟩ := spaced_singleton_iff.mp spaced
    rw [List.append_assoc]
    exact Reads.afterGap blankBefore rfl
      (reads_step.bind (Reads.atGap blank rfl (reads_pure true _)))

/-- The key is a written one. -/
theorem reads_anotherKey_written {first : Bool} (spaced : Spaced (separator first) lead)
    (blank : IsBlank gap) (key : String) (more : Bytes) :
    (anotherKey first).Reads (lead ++ gap) true (keyBytes key ++ more) := by
  obtain ⟨inside, opened⟩ : ∃ inside, keyBytes key = quote :: inside :=
    ⟨_, encodeChars_writeText key⟩
  rw [opened]
  exact reads_anotherKey spaced blank (inside ++ more)

end Blanks

/-! ## Parts of lists and objects -/

/-- The tokens of a list or an object stand between brackets. -/
theorem exists_of_spaced_brackets {opening closing : UInt8} {tokens : List Bytes} {text : Bytes}
    (spaced : Spaced ([opening] :: tokens ++ [[closing]]) text) :
    ∃ gap inner last, IsBlank gap ∧ Spaced tokens inner ∧ IsBlank last ∧
      text = gap ++ (opening :: (inner ++ last) ++ [closing]) := by
  rw [List.cons_append] at spaced
  obtain ⟨gap, more, blank, spacedMore, rfl⟩ := spaced_cons_iff.mp spaced
  obtain ⟨inner, behind, spacedInner, spacedBehind, rfl⟩ := spaced_append_iff.mp spacedMore
  obtain ⟨last, blankLast, rfl⟩ := spaced_singleton_iff.mp spacedBehind
  exact ⟨gap, inner, last, blank, spacedInner, blankLast, by simp⟩

/-- A first byte that tells that brackets do not close yet. -/
def Opens (closing : UInt8) (tokens : List Bytes) : Prop :=
  ∃ byte others more, tokens = (byte :: others) :: more ∧ isSpace byte = false ∧ byte ≠ closing

/-- The first part and what stands before it. -/
theorem exists_of_spaced_part {closing : UInt8} {part : List Bytes} {others : List (List Bytes)}
    {first : Bool} {text : Bytes} (opens : Opens closing part)
    (spaced : Spaced (commaTokens first (part :: others)) text) :
    ∃ lead gap byte bytes more, Spaced (separator first) lead ∧ IsBlank gap ∧
      isSpace byte = false ∧ byte ≠ closing ∧ Spaced part (byte :: bytes) ∧
      Spaced (commaTokens false others) more ∧ text = lead ++ gap ++ (byte :: bytes ++ more) := by
  obtain ⟨byte, bytes, tokens, rfl, solid, notEnd⟩ := opens
  obtain ⟨lead, _, spacedLead, spacedParts, rfl⟩ := spaced_append_iff.mp spaced
  obtain ⟨_, more, spacedPart, spacedMore, rfl⟩ := spaced_append_iff.mp spacedParts
  obtain ⟨gap, behind, blank, spacedBehind, rfl⟩ := spaced_cons_iff.mp spacedPart
  exact ⟨lead, gap, byte, bytes ++ behind, more, spacedLead, blank, solid, notEnd,
    .token isBlank_nil spacedBehind, spacedMore, by simp⟩

/-- A text with a token that is not empty is not empty. -/
theorem Spaced.ne_nil {tokens : List Bytes} {text token : Bytes} (spaced : Spaced tokens text)
    (member : token ∈ tokens) (nonempty : token ≠ []) : text ≠ [] := by
  induction spaced with
  | done => cases member
  | token blank more inductionHypothesis =>
    rcases List.mem_cons.mp member with rfl | later
    · simp [nonempty]
    · simp [inductionHypothesis later]

/-- Every part takes a byte at least. -/
theorem length_le_of_spaced_parts {parts : List (List Bytes)} {first : Bool} {text : Bytes}
    (filled : ∀ part ∈ parts, ∃ token ∈ part, token ≠ [])
    (spaced : Spaced (commaTokens first parts) text) : parts.length ≤ text.length := by
  induction parts generalizing first text with
  | nil => exact Nat.zero_le _
  | cons part others inductionHypothesis =>
    obtain ⟨⟨token, member, nonempty⟩, later⟩ := List.forall_mem_cons.mp filled
    obtain ⟨lead, _, -, spacedParts, rfl⟩ := spaced_append_iff.mp spaced
    obtain ⟨inner, more, spacedPart, spacedMore, rfl⟩ := spaced_append_iff.mp spacedParts
    have fewer := inductionHypothesis later spacedMore
    have some := List.length_pos_iff.mpr (spacedPart.ne_nil member nonempty)
    simp only [List.length_append, List.length_cons]
    omega

/-- The text of an entry of an object, and of those after it. -/
theorem exists_of_spaced_entry {first : Bool} {key text : Bytes} {value others : List Bytes}
    (spaced : Spaced (separator first ++ (key :: [0x3A] :: value ++ others)) text) :
    ∃ lead gap between inner more, Spaced (separator first) lead ∧ IsBlank gap ∧ IsBlank between ∧
      Spaced value inner ∧ Spaced others more ∧
      text = lead ++ gap ++ (key ++ (between ++ [0x3A] ++ (inner ++ more))) := by
  obtain ⟨lead, _, spacedLead, fromKey, rfl⟩ := spaced_append_iff.mp spaced
  obtain ⟨gap, _, blank, fromColon, rfl⟩ := spaced_cons_iff.mp fromKey
  obtain ⟨between, _, blankBetween, fromValue, rfl⟩ := spaced_cons_iff.mp fromColon
  obtain ⟨inner, more, spacedInner, spacedMore, rfl⟩ := spaced_append_iff.mp fromValue
  exact ⟨lead, gap, between, inner, more, spacedLead, blank, blankBetween, spacedInner, spacedMore,
    by simp⟩

end ElmWorkbench.Json
