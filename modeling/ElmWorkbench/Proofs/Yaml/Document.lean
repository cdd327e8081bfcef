import ElmWorkbench.Proofs.Yaml.Layout
/-!
# Documents in YAML

A mapping whose values each stand on the line of their key is read back from the lines that are
written for it (`Lines.ofText?_eq`).
-/

namespace ElmWorkbench.Yaml

open Json (Value)
open Layout (BeginsLine between)
open Toml.Scan (bind_of_some)

/-! ## Lines -/

/-- Entries of a mapping with the lines they are written in and the scalars that are read from
them. -/
inductive Lines : List (String × Value) → List Char → List (String × ScalarStyle × List Char) → Prop
  | nil : Lines [] [] []
  | cons {key : String} {value : Value} {written inside text : List Char} {style : ScalarStyle}
      {entries : List (String × Value)} {scalars : List (String × ScalarStyle × List Char)}
      (isKey : Layout.IsKey key) (stands : Stands value written style inside)
      (more : Lines entries text scalars) :
      Lines ((key, value) :: entries) (entryLine key written ++ text)
        ((key, style, inside) :: scalars)

namespace Lines

variable {entries : List (String × Value)} {text : List Char}
  {scalars : List (String × ScalarStyle × List Char)} {tokens : List Token} {cursor : Cursor}
  {steps : Nat}

/-- Behind lines nothing stands, or a key does. -/
theorem beginsLine (lines : Lines entries text scalars) : BeginsLine text := by
  cases lines with
  | nil => exact fun _ isFirst => absurd isFirst (by simp)
  | cons isKey stands more =>
    obtain ⟨first, word, isWord, letter⟩ := isKey.begins
    rw [entryLine, isWord]
    rintro _ ⟨⟩
    exact letter

/-- The tokens of entries. -/
def tokensOf (scalars : List (String × ScalarStyle × List Char)) : List Token :=
  scalars.flatMap fun entry => entryTokens entry.1 entry.2.1 entry.2.2

/-- The tokens of entries are taken from their lines, and the mapping is closed after them. -/
theorem takeAll_eq (lines : Lines entries text scalars) (isLeft : cursor.rest = text)
    (atStart : cursor.column = 0) (enough : 3 * entries.length < steps) :
    ∃ final, (between [0] tokens cursor true).takeAll steps = some final ∧
      final.tokens = .blockEnd :: ((tokensOf scalars).reverse ++ tokens) := by
  induction lines generalizing tokens cursor steps with
  | nil =>
    obtain ⟨steps, rfl⟩ := Nat.exists_eq_add_one.mpr (Nat.zero_lt_of_lt enough)
    obtain ⟨rest, index, line, column⟩ := cursor
    obtain rfl : rest = [] := isLeft
    obtain rfl : column = 0 := atStart
    exact ⟨_, rfl, rfl⟩
  | @cons key _ written inside text style entries scalars isKey stands more inductionHypothesis =>
    rw [List.length_cons] at enough
    obtain ⟨steps, rfl⟩ : ∃ fewer, steps = fewer + 3 := ⟨steps - 3, by omega⟩
    obtain ⟨next, taken, nextLeft, nextStart⟩ :=
      Layout.takeAll_entry isKey stands (.inr rfl) atStart isLeft more.beginsLine steps
    obtain ⟨final, others, finalTokens⟩ :=
      @inductionHypothesis ((entryTokens key style inside).reverse ++ tokens) next steps nextLeft
        nextStart (by omega)
    exact ⟨final, taken.trans others, finalTokens.trans (by simp [tokensOf])⟩

/-- Every entry has a key, a colon and the end of a line at least. -/
theorem length_le (lines : Lines entries text scalars) : 3 * entries.length ≤ text.length := by
  induction lines with
  | nil => exact Nat.le_refl 0
  | cons isKey stands more inductionHypothesis =>
    simp only [entryLine, List.length_append, List.length_cons, List.length_nil]
    omega

/-- All characters of the lines are allowed. -/
theorem allowed (lines : Lines entries text scalars) : text.all isAllowed := by
  induction lines with
  | nil => rfl
  | cons isKey stands more inductionHypothesis =>
    have keyAllowed := List.all_eq_true.mpr isKey.allowed
    have writtenAllowed := List.all_eq_true.mpr stands.allowed
    rw [entryLine, List.all_append, List.all_append, List.all_append, List.all_append, keyAllowed,
      writtenAllowed, inductionHypothesis]
    decide

/-- The lines are cut into the tokens of one mapping. -/
theorem tokens?_eq (lines : Lines entries text scalars) (nonempty : entries ≠ []) :
    tokens? text = some (.blockMapping :: tokensOf scalars ++ [.blockEnd]) := by
  have enough := lines.length_le
  rw [tokens?, if_pos lines.allowed]
  cases lines with
  | nil => exact absurd rfl nonempty
  | @cons key value written inside text style entries scalars isKey stands more =>
    rw [List.length_cons] at enough
    obtain ⟨steps, same⟩ : ∃ fewer, (entryLine key written ++ text).length + 1 = fewer + 3 :=
      ⟨(entryLine key written ++ text).length - 2, by omega⟩
    let cursor := Cursor.start (entryLine key written ++ text)
    have start : Layout.start (entryLine key written ++ text) = between [] [] cursor true := rfl
    have fewer : 3 * entries.length < steps := by omega
    obtain ⟨next, taken, nextLeft, nextStart⟩ := Layout.takeAll_entry isKey stands (.inl rfl)
      (show cursor.column = 0 from rfl) rfl more.beginsLine steps
    obtain ⟨final, others, finalTokens⟩ := more.takeAll_eq nextLeft nextStart fewer
    rw [same, start, taken, others, Option.map_some, finalTokens]
    simp [tokensOf, Layout.opening]

/-- Entries are written in their lines. -/
theorem writeEntries?_eq (lines : Lines entries text scalars) :
    writeEntries? 0 entries = some text := by
  induction lines with
  | nil => rfl
  | @cons key value written inside text style entries scalars isKey stands more inductionHypothesis =>
    obtain ⟨first, rest, same, notFiller, -⟩ := stands.reads
    have notBreak : (written ++ ['\n']).head? ≠ some '\n' := by
      rw [same]
      rintro ⟨⟩
      exact absurd notFiller (by decide)
    have others : (if entries.isEmpty then [] else blanks 0 ++ text) = text := by
      cases more <;> rfl
    rw [writeEntries?, isKey.isShort, if_pos rfl, stands.writes, inductionHypothesis, isKey.isPlain]
    change some _ = some _
    dsimp only
    rw [if_pos rfl, if_neg notBreak, others]
    simp [writeStyled, entryLine]

/-- An object of such entries is written as their lines. -/
theorem write?_eq (lines : Lines entries text scalars) (nonempty : entries ≠ []) :
    write? (.object entries) = some (String.ofList text) := by
  obtain ⟨entry, others, rfl⟩ := List.exists_cons_of_ne_nil nonempty
  rw [write?, lines.writeEntries?_eq, Option.map_some]

end Lines

/-- An entry with a path that is not a text leaves a mapping without a form. -/
theorem writeEntries?_eq_none {key : String} {path : Path} {entries : List (String × Value)}
    (member : (key, .path path) ∈ entries) (notText : path.text? = none) (indent : Nat) :
    writeEntries? indent entries = none := by
  induction entries with
  | nil => cases member
  | cons entry others inductionHypothesis =>
    obtain ⟨name, value⟩ := entry
    rw [writeEntries?]
    rcases List.mem_cons.mp member with same | further
    · obtain ⟨-, rfl⟩ := Prod.mk.inj same
      rw [writeValue?, notText]
      rfl
    · cases writeValue? indent (if isShortKey name then .afterKey else .afterMark) value with
      | none => rfl
      | some written =>
        rw [inductionHypothesis further]
        rfl

/-- An object with a path that is not UTF-8 is not written. -/
theorem write?_eq_none {key : String} {path : Path} {entries : List (String × Value)}
    (member : (key, .path path) ∈ entries) (notText : path.text? = none) :
    write? (.object entries) = none := by
  cases entries with
  | nil => cases member
  | cons entry others => rw [write?, writeEntries?_eq_none member notText, Option.map_none]

/-! ## Nodes -/

/-- The entry of a mapping of scalars. -/
def entryNodes (entry : String × ScalarStyle × List Char) : Node × Node :=
  (.scalar none .plain entry.1, .scalar none entry.2.1 (String.ofList entry.2.2))

namespace Group

variable {grouping : Grouping} {tokens : List Token} {steps : Nat}

/-- The tokens of an entry are grouped before those of the others. -/
theorem blockEntries_cons (steps : Nat) (key : String) (style : ScalarStyle) (text : List Char) :
    blockEntries (steps + 3)
        { grouping with tokens := entryTokens key style text ++ tokens } =
      (blockEntries (steps + 2) { grouping with tokens }).map fun grouped =>
        (entryNodes (key, style, text) :: grouped.1, grouped.2) := by
  have whole : entryNodes (key, style, text) =
      (.scalar none .plain (String.ofList key.toList),
        .scalar none style (String.ofList text)) := by
    rw [entryNodes, String.ofList_toList]
  rw [whole]
  change Option.bind (blockEntries (steps + 2) { grouping with tokens }) _ = Option.map _ _
  cases blockEntries (steps + 2) { grouping with tokens } <;> rfl

/-- The tokens of entries up to the end of their mapping are grouped into its nodes. -/
theorem blockEntries_eq {scalars : List (String × ScalarStyle × List Char)}
    (isLeft : grouping.tokens = Lines.tokensOf scalars ++ .blockEnd :: tokens)
    (enough : scalars.length + 2 < steps) :
    blockEntries steps grouping = some (scalars.map entryNodes, { grouping with tokens }) := by
  obtain ⟨steps, rfl⟩ : ∃ fewer, steps = fewer + 3 := ⟨steps - 3, by omega⟩
  obtain ⟨_, shorthands, numbers, anchorCount, anchored⟩ := grouping
  obtain rfl := isLeft
  induction scalars generalizing steps with
  | nil => rfl
  | cons entry others inductionHypothesis =>
    rw [List.length_cons] at enough
    obtain ⟨steps, rfl⟩ : ∃ fewer, steps = fewer + 1 := ⟨steps - 1, by omega⟩
    have more := inductionHypothesis steps (by omega)
    obtain ⟨key, style, text⟩ := entry
    have first : Lines.tokensOf ((key, style, text) :: others) ++ .blockEnd :: tokens =
        entryTokens key style text ++ (Lines.tokensOf others ++ .blockEnd :: tokens) := by
      simp [Lines.tokensOf]
    have step := @blockEntries_cons ⟨[], shorthands, numbers, anchorCount, anchored⟩
      (Lines.tokensOf others ++ .blockEnd :: tokens) (steps + 1) key style text
    rw [first]
    exact step.trans (congrArg (Option.map _) more)

/-- The tokens of a mapping of scalars are grouped into its only node. -/
theorem document_eq {scalars : List (String × ScalarStyle × List Char)}
    (isLeft : grouping.tokens = .blockMapping :: (Lines.tokensOf scalars ++ [.blockEnd]))
    (enough : scalars.length + 4 < steps) :
    document steps grouping = some (some (.mapping none (scalars.map entryNodes)),
      { grouping with tokens := [], shorthands := grouping.shorthands ++ standardShorthands }) := by
  obtain ⟨steps, rfl⟩ : ∃ fewer, steps = fewer + 2 := ⟨steps - 2, by omega⟩
  obtain ⟨_, shorthands, numbers, anchorCount, anchored⟩ := grouping
  obtain rfl := isLeft
  let inside : Grouping :=
    { tokens := Lines.tokensOf scalars ++ [.blockEnd]
      shorthands := shorthands ++ standardShorthands
      numbers, anchorCount, anchored }
  have fewer : scalars.length + 2 < steps := by omega
  have entries := blockEntries_eq (show inside.tokens = _ from rfl) fewer
  change Option.bind (Option.bind (blockEntries steps inside) _) _ = _
  rw [entries]
  rfl

end Group

/-- A mapping is read from its lines. -/
theorem Lines.ofText?_eq {entries : List (String × Value)} {text : List Char}
    {scalars : List (String × ScalarStyle × List Char)} (lines : Lines entries text scalars)
    (nonempty : entries ≠ []) :
    Document.ofText? (String.ofList text) =
      some { root := some (.mapping none (scalars.map entryNodes)), anchored := [] } := by
  have count : (tokensOf scalars).length = 4 * scalars.length := by
    simp [tokensOf, List.length_flatMap, entryTokens, List.map_const', Nat.mul_comm]
  have enough : scalars.length + 4 <
      4 * ((.blockMapping :: tokensOf scalars ++ [Token.blockEnd]).length + 1) := by
    rw [List.length_append, List.length_cons, count]
    omega
  rw [Document.ofText?, String.toList_ofList, lines.tokens?_eq nonempty]
  simp only [Option.bind_eq_bind, Option.bind_some]
  rw [Group.document_eq rfl enough]
  rfl

end ElmWorkbench.Yaml
