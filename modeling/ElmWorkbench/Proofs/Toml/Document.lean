import ElmWorkbench.Proofs.Toml.Text
import ElmWorkbench.Toml.Document
import Mathlib.Data.List.Basic
/-!
# Documents in TOML

A table whose values each stand on a line of their own is read back from the lines that are written
for it (`read?_of_lines`).
-/

namespace ElmWorkbench.Toml

open Json (Value)
open Scan (Takes bind_of_some left_apply)

/-! ## One line -/

/-- A value with its characters on a line, from which another value is read. -/
structure Stands (value : Value) (written : List Char) (meant : Value) : Prop where
  isPlain : hasHeader value = false
  writes : writeValue? value = some written
  begins : ∀ character ∈ (written ++ ['\n']).head?, isBlank character = false
  reads : ∀ rest, (Toml.value nestingBound).Takes written meant ('\n' :: rest)

/-- A line with a key and what stands behind it. -/
def entryLine (name : String) (written : List Char) : List Char :=
  name.toList ++ [' ', '=', ' '] ++ written ++ ['\n']

/-- Entries of a table with the lines they are written in and the values that are read from them. -/
inductive Lines : List (String × Value) → List Char → List (String × Value) → Prop
  | nil : Lines [] [] []
  | cons {name : String} {value meant : Value} {written text : List Char}
      {entries values : List (String × Value)} (bare : isBare name.toList)
      (stands : Stands value written meant) (more : Lines entries text values) :
      Lines ((name, value) :: entries) (entryLine name written ++ text) ((name, meant) :: values)

variable {value meant : Value} {written text rest : List Char} {name : String}
  {entries before values : List (String × Value)}

/-- A bare key begins with a character that begins nothing else. -/
theorem exists_cons_of_isBare (bare : isBare name.toList) :
    ∃ first others, name.toList = first :: others ∧ isBareKey first := by
  rw [isBare, Bool.and_eq_true, decide_eq_true_eq] at bare
  obtain ⟨nonempty, all⟩ := bare
  obtain ⟨first, others, same⟩ := List.exists_cons_of_ne_nil nonempty
  exact ⟨first, others, same, List.all_eq_true.mp all first (same ▸ List.mem_cons_self)⟩

/-- No blank stands in a bare key. -/
theorem isBlank_of_isBareKey {character : Char} (bare : isBareKey character) :
    isBlank character = false := by
  refine Bool.eq_false_iff.mpr fun blank => ?_
  rw [isBlank, Bool.or_eq_true, decide_eq_true_eq, decide_eq_true_eq] at blank
  rcases blank with rfl | rfl <;> exact absurd bare (by decide)

/-- A bare key is taken as it stands. -/
theorem takes_keyPart (bare : isBare name.toList) (rest : List Char) :
    keyPart.Takes name.toList name (' ' :: rest) := by
  obtain ⟨first, others, same, firstBare⟩ := exists_cons_of_isBare bare
  rw [isBare, Bool.and_eq_true, decide_eq_true_eq] at bare
  have noQuote : basicText (name.toList ++ ' ' :: rest) = none := by
    refine Scan.bind_of_none (Scan.word_of_absent (Scan.not_prefix_of_head ?_))
    rw [same]
    rintro _ ⟨⟩ rfl
    exact absurd firstBare (by decide)
  have noApostrophe : literalText (name.toList ++ ' ' :: rest) = none := by
    refine Scan.bind_of_none (Scan.word_of_absent (Scan.not_prefix_of_head ?_))
    rw [same]
    rintro _ ⟨⟩ rfl
    exact absurd firstBare (by decide)
  have run : (Scan.run isBareKey).Takes name.toList name.toList (' ' :: rest) :=
    Scan.takes_run (List.all_eq_true.mp bare.2) (by rintro _ ⟨⟩; decide)
  refine .orElse_of_none noQuote (.orElse_of_none noApostrophe (run.tell ?_))
  rw [if_neg bare.1, String.ofList_toList]
  exact Scan.takes_pure name _

/-- A key of one part, with the blank that follows it. -/
theorem takes_key (bare : isBare name.toList) (rest : List Char) :
    key.Takes (name.toList ++ [' ']) [name] ('=' :: rest) := by
  obtain ⟨first, others, same, firstBare⟩ := exists_cons_of_isBare bare
  have noBlank : Scan.blanks.Takes [] () (name.toList ++ [' '] ++ '=' :: rest) := by
    refine Scan.takes_blanks ?_
    rw [same]
    rintro _ ⟨⟩
    exact isBlank_of_isBareKey firstBare
  have noMore : (keyRest nestingBound).Takes [' '] [] ('=' :: rest) :=
    (Scan.takes_blank (by rintro _ ⟨⟩; decide)).tell
      ((Scan.takes_not_found (by simp)).tell (Scan.takes_pure _ _))
  exact noBlank.bind ((takes_keyPart bare _).bind (noMore.tell (Scan.takes_pure _ _)))

/-- A key and its value are taken from their line. -/
theorem takes_keyAndValue (bare : isBare name.toList) (stands : Stands value written meant)
    (rest : List Char) :
    (keyAndValue (Toml.value nestingBound)).Takes
      (name.toList ++ [' '] ++ (['='] ++ ([' '] ++ written))) ([name], meant) ('\n' :: rest) := by
  have blank : Scan.blanks.Takes [' '] () (written ++ '\n' :: rest) := by
    refine Scan.takes_blank fun character isFirst => stands.begins character ?_
    cases written <;> exact isFirst
  exact (takes_key bare _).bind ((Scan.takes_word ['='] _).bind
    (blank.bind ((stands.reads rest).tell (Scan.takes_pure _ _))))

/-- The end of a line is taken. -/
theorem takes_lineRest (rest : List Char) : lineRest.Takes ['\n'] () rest :=
  (Scan.takes_blanks (by rintro _ ⟨⟩; decide)).bind
    ((Scan.takes_peek _).bind (Scan.takes_word ['\n'] rest).orElse)

/-- A line that begins as a key does holds a key and its value. -/
theorem takes_line (bare : isBare name.toList) (stands : Stands value written meant)
    (rest : List Char) : line.Takes (entryLine name written) (.entry [name] meant) rest := by
  obtain ⟨first, others, same, firstBare⟩ := exists_cons_of_isBare bare
  have whole : entryLine name written =
      name.toList ++ [' '] ++ (['='] ++ ([' '] ++ written)) ++ ['\n'] := by
    simp [entryLine]
  have noBlank : Scan.blanks.Takes [] () (entryLine name written ++ rest) := by
    refine Scan.takes_blanks ?_
    rw [entryLine, same]
    rintro _ ⟨⟩
    exact isBlank_of_isBareKey firstBare
  have said : (keyAndValue (Toml.value nestingBound) >>= fun entry => do
      lineRest
      pure (Line.entry entry.1 entry.2)).Takes (entryLine name written) (.entry [name] meant) rest :=
    whole ▸ (takes_keyAndValue bare stands rest).bind
      ((takes_lineRest rest).tell (Scan.takes_pure _ rest))
  have begins : (entryLine name written ++ rest).head? = some first := by
    rw [entryLine, same]
    rfl
  refine noBlank.bind ?_
  rw [Takes, bind_of_some (left_apply _)]
  rw [Takes] at said
  generalize entryLine name written ++ rest = text at said begins ⊢
  split
  -- Everything but a key begins in a way of its own.
  any_goals cases begins <;> exact absurd firstBare (by decide)
  exact said

/-! ## Several lines -/

/-- A bare key is written without quotes. -/
theorem writeKey_of_isBare (bare : isBare name.toList) : writeKey name = name.toList :=
  if_pos bare

/-- Entries are written in their lines. -/
theorem plainLines?_of_lines (lines : Lines entries text values) :
    plainLines? entries = some text := by
  induction lines with
  | nil => rfl
  | cons bare stands more inductionHypothesis =>
    rw [plainLines?] at inductionHypothesis ⊢
    rw [List.filter_cons_of_pos (by simp [stands.isPlain]), List.foldrM_cons, inductionHypothesis]
    change (writeValue? _ >>= _) = _
    rw [stands.writes, writeKey_of_isBare bare]
    simp [entryLine]

/-- A value on a line opens no section. -/
theorem EntryForm.of_stands (stands : Stands value written meant) :
    EntryForm.of value = .plain := by
  have isPlain := stands.isPlain
  rw [hasHeader] at isPlain
  cases form : EntryForm.of value with
  | plain => rfl
  | table inside => simp [form] at isPlain
  | tables elements => simp [form] at isPlain

/-- Entries on lines of their own are plain ones. -/
theorem Lines.isPlain (lines : Lines entries text values) :
    ∀ entry ∈ entries, EntryForm.of entry.2 = .plain := by
  induction lines with
  | nil => exact List.forall_mem_nil _
  | cons bare stands more inductionHypothesis =>
    exact List.forall_mem_cons.mpr ⟨EntryForm.of_stands stands, inductionHypothesis⟩

/-- Nothing is collected from entries of which none has anything below. -/
theorem mapM_of_none {below : String × Value → Option (List (List Char))}
    (none : ∀ entry ∈ entries, below entry = some []) :
    entries.mapM below = some (entries.map fun _ => []) := by
  induction entries with
  | nil => rfl
  | cons entry others inductionHypothesis =>
    rw [List.forall_mem_cons] at none
    rw [List.mapM_cons, none.1, inductionHypothesis none.2]
    rfl

/-- A table whose entries all stand on lines has no section but its own. -/
theorem sections?_of_lines (lines : Lines entries text values) (depth : Nat) :
    sections? (depth + 1) false [] entries = some (if text = [] then [] else [text]) := by
  rw [sections?, plainLines?_of_lines lines, mapM_of_none]
  · simp
  · rintro ⟨key, value⟩ member
    simp only [lines.isPlain (key, value) member]

/-- An object of such entries is written as their lines. -/
theorem write?_of_lines (lines : Lines entries text values) :
    write? (.object entries) = some (String.ofList text) := by
  rw [write?, sections?_of_lines lines]
  change some _ = some _
  split
  · next empty => rw [empty, List.intercalate_nil]
  · rw [List.intercalate_singleton]

/-- An entry whose value has no form leaves a table without lines. -/
theorem plainLines?_eq_none {key : String} {value : Value} {entries : List (String × Value)}
    (member : (key, value) ∈ entries) (isPlain : hasHeader value = false)
    (formless : writeValue? value = none) : plainLines? entries = none := by
  have kept : (key, value) ∈ entries.filter fun entry => !hasHeader entry.2 :=
    List.mem_filter.mpr ⟨member, by simp [isPlain]⟩
  rw [plainLines?]
  generalize (entries.filter fun entry => !hasHeader entry.2) = plain at kept
  induction plain with
  | nil => cases kept
  | cons entry others inductionHypothesis =>
    rw [List.foldrM_cons]
    rcases List.mem_cons.mp kept with rfl | further
    · refine Option.bind_eq_none_iff.mpr fun rest _ => ?_
      change (writeValue? value >>= _) = none
      rw [formless]
      rfl
    · rw [inductionHypothesis further]
      rfl

/-- An object with a value that cannot be written is not written. -/
theorem write?_eq_none {key : String} {value : Value} {entries : List (String × Value)}
    (member : (key, value) ∈ entries) (isPlain : hasHeader value = false)
    (formless : writeValue? value = none) : write? (.object entries) = none := by
  rw [write?, sections?, plainLines?_eq_none member isPlain formless]
  rfl

/-- A document that has values under keys at its root and nothing else. -/
def Document.ofValues (values : List (String × Value)) : Document where
  root := { origin := .header, entries := values.map fun entry => (entry.1, .value entry.2) }
  current := []

/-- A value under a new key joins those of a document. -/
theorem Document.take_entry (fresh : name ∉ before.map Prod.fst) :
    (ofValues before).take (.entry [name] meant) = some (ofValues (before ++ [(name, meant)])) := by
  have free : (ofValues before).root.find? name = none := by
    rw [Table.find?, Option.map_eq_none_iff, List.find?_eq_none]
    rintro entry member
    obtain ⟨known, isKnown, rfl⟩ := List.mem_map.mp member
    exact fun same => fresh (List.mem_map.mpr ⟨known, isKnown, of_decide_eq_true same⟩)
  have added : (ofValues before).root.add [name] meant =
      some (ofValues (before ++ [(name, meant)])).root := by
    rw [Table.add, List.getLast?_singleton]
    change Table.changeAt true _ [] _ = _
    rw [Table.changeAt, Table.addLeaf, if_neg (by simp [ofValues]), free, if_neg (by simp),
      Table.put, free]
    simp [ofValues]
  rw [take]
  change (Table.changeAt false _ [] _).bind _ = _
  rw [Table.changeAt, added]
  rfl

/-- Nothing more is read at the end of a text. -/
theorem Document.linesFrom_nil (steps : Nat) (document : Document) :
    linesFrom (steps + 1) document [] = some (document, []) :=
  rfl

/-- Lines with keys that are all different are read one after another. -/
theorem linesFrom_of_lines (lines : Lines entries text values)
    (different : ((before ++ values).map Prod.fst).Nodup) {steps : Nat}
    (enough : entries.length < steps) :
    Document.linesFrom steps (.ofValues before) text =
      some (.ofValues (before ++ values), []) := by
  obtain ⟨steps, rfl⟩ := Nat.exists_eq_add_one.mpr (Nat.zero_lt_of_lt enough)
  induction lines generalizing before steps with
  | nil => rw [List.append_nil, Document.linesFrom_nil]
  | @cons name _ meant written text _ values bare stands more inductionHypothesis =>
    have fresh : name ∉ before.map Prod.fst := by
      rw [List.map_append, List.nodup_append] at different
      exact fun member => different.2.2 name member name List.mem_cons_self rfl
    rw [List.append_cons] at different ⊢
    rw [List.length_cons] at enough
    obtain ⟨fewer, rfl⟩ : ∃ fewer, steps = fewer + 1 := Nat.exists_eq_add_one.mpr (by omega)
    have later := inductionHypothesis different fewer (by omega)
    have nonempty : entryLine name written ++ text ≠ [] := by simp [entryLine]
    rw [Document.linesFrom, bind_of_some (left_apply _), if_neg nonempty,
      bind_of_some (takes_line bare stands text)]
    have taken : (Document.ofValues before).take (.entry [name] meant) = _ :=
      Document.take_entry fresh
    rw [taken, bind_of_some (Scan.lift_some _ text), later]

/-- The values of a table are those that it was given. -/
theorem entriesToValues_map (values : List (String × Value)) :
    entriesToValues (values.map fun entry => (entry.1, .value entry.2)) = values := by
  induction values with
  | nil => rfl
  | cons entry others inductionHypothesis =>
    rw [List.map_cons, entriesToValues, inductionHypothesis]
    rfl

/-- There are no more entries than characters in their lines. -/
theorem length_le_of_lines (lines : Lines entries text values) : entries.length ≤ text.length := by
  induction lines with
  | nil => exact Nat.le_refl 0
  | cons bare stands more inductionHypothesis =>
    rw [List.length_append, List.length_cons, entryLine, List.length_append, List.length_singleton]
    omega

/-- Lines do not begin with a byte order mark. -/
theorem unmarked_of_lines (lines : Lines entries text values) :
    ∀ first ∈ text.head?, first.toNat ≠ 0xFEFF := by
  cases lines with
  | nil => simp
  | @cons name _ _ _ _ _ _ bare =>
    obtain ⟨first, others, same, firstBare⟩ := exists_cons_of_isBare bare
    rw [entryLine, same]
    rintro _ ⟨⟩ marked
    have isMark : first = Char.ofNat 0xFEFF := Char.toNat_inj.mp marked
    exact absurd firstBare (by rw [isMark]; decide)

/-- A text without a byte order mark is read from its beginning. -/
theorem read?_of_unmarked (unmarked : ∀ first ∈ text.head?, first.toNat ≠ 0xFEFF) :
    read? (String.ofList text) =
      (Document.linesFrom (text.length + 1) .empty text).map fun read => read.1.root.toValue := by
  rw [read?, String.toList_ofList]
  cases text with
  | nil => rfl
  | cons first others =>
    dsimp only
    rw [if_neg (unmarked first rfl)]
    split
    · next read => rw [read, Option.map_some]
    · next failed => rw [failed, Option.map_none]

/-- A table with different keys is read back from its lines. -/
theorem read?_of_lines (lines : Lines entries text values)
    (different : (values.map Prod.fst).Nodup) :
    read? (String.ofList text) = some (.object values) := by
  have whole := linesFrom_of_lines lines ((List.nil_append values).symm ▸ different)
    (Nat.lt_succ_of_le (length_le_of_lines lines))
  have start : Document.empty = .ofValues [] := rfl
  rw [read?_of_unmarked (unmarked_of_lines lines), start, whole]
  exact congrArg (fun values => some (Value.object values)) (entriesToValues_map values)

end ElmWorkbench.Toml
