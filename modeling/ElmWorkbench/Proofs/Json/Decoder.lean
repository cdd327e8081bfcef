import ElmWorkbench.Proofs.Json.Decoding
import ElmWorkbench.Proofs.Json.Nesting
/-!
# Readers as decoders of trees

A reader `Decodes` trees if what it makes of a text depends on the tree of the text alone, whatever
blanks stand there. So two texts come to the same if their trees are decoded alike. It is shown for
single values and carried through lists (`Decodes.listOf`) and through the entries of objects
(`Follows.gives_entries`), whether or not the reader comes to their end.
-/

namespace ElmWorkbench.Json

open Reader

/-- A reader makes of every text of a tree what the decoder makes of the tree. -/
def Decodes {Meaning : Type} (read : Reader Meaning) (decode : Tree → Option Meaning) : Prop :=
  ∀ tree text rest, Spaced tree.tokens text → IsEnd rest → read.Gives text (decode tree) rest

section Decoding

variable {Meaning Result : Type} {read : Reader Meaning} {decode : Tree → Option Meaning}

/-- A decoded value can be changed. -/
theorem Decodes.map (change : Meaning → Result) (decodes : Decodes read decode) :
    Decodes (change <$> read) fun tree => (decode tree).map change :=
  fun tree text rest spaced ends => (decodes tree text rest spaced ends).map change

/-- A decoded value can be changed in what follows. -/
theorem Decodes.tell_pure (change : Meaning → Result) (decodes : Decodes read decode) :
    Decodes (do let value ← read; pure (change value)) fun tree => (decode tree).map change :=
  fun tree text rest spaced ends => (decodes tree text rest spaced ends).tell_pure change

/-- What a decoder makes of a tree is what comes of each whole text of it. -/
theorem Decodes.toOption_runWhole (decodes : Decodes read decode) {tree : Tree} {bytes : Bytes}
    (spells : tree.Spells bytes) : (Reader.runWhole read bytes).toOption = decode tree := by
  obtain ⟨text, gap, spaced, blank, rfl⟩ := spells
  have given := decodes tree text gap spaced (isEnd_of_isBlank blank) []
  rw [Reader.runWhole, Cursor.start]
  cases decoded : decode tree with
  | none =>
    rw [decoded] at given
    cases read : read { before := [], rest := text ++ gap } with
    | error problem => cases problem <;> rfl
    | ok result => rw [read] at given; cases given
  | some value =>
    rw [decoded] at given
    rw [toOption_eq_some_iff.mp given]
    simp only [rest_skipSpace blank, if_true]
    rfl

/-! ## Single values -/

/-- A text is decoded from a tree that is one. -/
theorem decodes_textFor (expected : String) : Decodes (textFor expected) Tree.text? := by
  intro tree text rest spaced ends
  have refused (noText : ∀ quotation, tree ≠ .text quotation) :
      (textFor expected).Gives text none rest := by
    refine gives_none_of_token spaced ends fun found shows => ?_
    split
    · obtain ⟨quotation, isText⟩ := shows.exists_text
      exact absurd isText (noText quotation)
    · exact refuses_fail _
  cases tree with
  | text quotation =>
    obtain ⟨gap, blank, rfl⟩ := spaced_singleton_iff.mp spaced
    have given := gives_token_text blank quotation rest
    rw [Tree.text?]
    cases meant : quotation.text? with
    | none =>
      rw [meant] at given
      exact given.none_bind
    | some text =>
      rw [meant] at given
      exact ((gives_some_iff.mp given).tell (reads_pure text rest)).gives
  | _ => exact refused nofun

/-- A path is decoded from a tree that is a text. -/
theorem decodes_path :
    Decodes Reader.path fun tree => tree.text?.map Path.ofString :=
  (decodes_textFor "path string").map Path.ofString

/-- The word `null` or a value. -/
def Tree.optional? (decode : Tree → Option Meaning) : Tree → Option (Option Meaning)
  | .null => some none
  | tree => (decode tree).map some

/-- A tree other than `null` stands for what is optional. -/
theorem Tree.optional?_of_ne_null {tree : Tree} (different : tree ≠ .null) :
    tree.optional? decode = (decode tree).map some := by
  cases tree with
  | null => exact absurd rfl different
  | _ => rfl

/-- An optional value is decoded from `null` or from its tree. -/
theorem Decodes.optional (decodes : Decodes read decode) :
    Decodes (Reader.optional read) (Tree.optional? decode) := by
  intro tree text rest spaced ends
  by_cases isNull : tree = .null
  · subst isNull
    obtain ⟨gap, blank, rfl⟩ := spaced_singleton_iff.mp spaced
    exact (Reads.afterGap blank rfl
      ((reads_word 0x6E _ .null rest).tell (reads_pure none rest))).gives
  · obtain ⟨byte, others, more, tokens, solid, -, onlyNull⟩ := tree.exists_opening
    rw [Tree.optional?_of_ne_null isNull]
    rw [tokens] at spaced
    obtain ⟨gap, behind, blank, spacedBehind, rfl⟩ := spaced_cons_iff.mp spaced
    have withoutGap : Spaced tree.tokens (byte :: (others ++ behind)) := by
      rw [tokens]
      exact .token isBlank_nil spacedBehind
    have noWord : byte ≠ 0x6E := fun same => isNull (onlyNull same)
    refine Gives.afterGap blank solid ?_
    simp only [Option.some.injEq, noWord, if_false]
    exact (decodes tree _ rest withoutGap ends).map some

/-! ## Lists -/

/-- A decoder settles a tree from its tokens. -/
theorem Decodes.settles (decodes : Decodes read decode) (tree : Tree) :
    Settles read tree.tokens (decode tree) where
  opens := tree.opens
  gives := decodes tree

/-- A list of values of one kind. -/
def Tree.listOf? (decode : Tree → Option Meaning) : Tree → Option (List Meaning)
  | .list elements => elements.mapM decode
  | _ => none

/-- A list is decoded from the trees of its elements. -/
theorem Decodes.listOf (decodes : Decodes read decode) :
    Decodes (Reader.listOf read) (Tree.listOf? decode) := by
  intro tree text rest spaced ends
  have refused (noList : ∀ elements, tree ≠ .list elements) :
      (Reader.listOf read).Gives text none rest := by
    refine gives_none_of_token spaced ends fun found shows => ?_
    split
    · obtain ⟨elements, isList⟩ := shows.exists_list
      exact absurd isList (noList elements)
    · exact refuses_fail _
  cases tree with
  | list elements =>
    refine gives_list spaced fun inner closing spacedInner blankClosing => ?_
    rw [Tree.elementTokens_eq] at spacedInner
    have given := gives_elements (fun element _ => decodes.settles element) spacedInner blankClosing
    exact (given rest).inList
  | _ => exact refused nofun

/-! ## Objects -/

end Decoding

/-- A reader goes on behind each key as it is told by the tree that follows. -/
def Follows {State : Type} (read : State → String → Reader State)
    (further : State → String → Tree → Option State) : Prop :=
  ∀ state name value between text rest, IsBlank between → Spaced value.tokens text → IsEnd rest →
    (read state name).Gives (between ++ [0x3A] ++ text) (further state name value) rest

/-- What comes of an entry, whose key has to be a text. -/
def enter? {State : Type} (further : State → String → Tree → Option State) (state : State)
    (entry : Quotation × Tree) : Option State :=
  entry.1.text?.bind fun name => further state name entry.2

section Entries

variable {State : Type} {read : State → String → Reader State}
  {further : State → String → Tree → Option State} {entries : List (Quotation × Tree)}

/-- Entries are followed one after the other, up to the first that is refused. -/
theorem Follows.endsIn (follows : Follows read further) (state : State) :
    EndsIn read state (entries.map Tree.pair) (entries.foldlM (enter? further) state) := by
  induction entries generalizing state with
  | nil => exact .done
  | cons entry others inductionHypothesis =>
    rw [List.foldlM_cons, enter?, Option.bind_eq_bind]
    exact .entry rfl (gives_quotation entry.1)
      (fun name _ => follows state name entry.2) fun _ _ reached _ => inductionHypothesis reached

/-- The entries of an object are read as the fold over their trees. -/
theorem Follows.gives_entries (follows : Follows read further) {state : State}
    {text closing : Bytes} (spaced : Spaced (Tree.entryTokens true entries) text)
    (blank : IsBlank closing) (rest : Bytes) :
    (Reader.entries read state).Gives (text ++ closing) (entries.foldlM (enter? further) state)
      (0x7D :: rest) := by
  rw [Tree.entryTokens_eq] at spaced
  exact (follows.endsIn state).gives_entries spaced blank rest

end Entries

section Collecting

variable {Meaning : Type} {read : Reader Meaning} {decode : Tree → Option Meaning}

/-- An entry with its key as a text. -/
def pairOf? (decode : Tree → Option Meaning) (entry : Quotation × Tree) :
    Option (String × Meaning) := do
  let name ← entry.1.text?
  let value ← decode entry.2
  pure (name, value)

/-- An object with values of one kind, as its entries in order. -/
def Tree.entriesOf? (decode : Tree → Option Meaning) : Tree → Option (List (String × Meaning))
  | .object entries => entries.mapM (pairOf? decode)
  | _ => none

/-- Entries are collected in their order. -/
theorem foldlM_collecting (entries : List (Quotation × Tree)) (found : List (String × Meaning)) :
    entries.foldlM (enter? fun found name value =>
      (decode value).map fun value => found ++ [(name, value)]) found =
        (entries.mapM (pairOf? decode)).map (found ++ ·) := by
  induction entries generalizing found with
  | nil => simp
  | cons entry others inductionHypothesis =>
    rw [List.foldlM_cons, List.mapM_cons, enter?, pairOf?]
    cases entry.1.text? with
    | none => rfl
    | some name =>
      cases decode entry.2 with
      | none => rfl
      | some value =>
        refine (inductionHypothesis (found ++ [(name, value)])).trans ?_
        cases others.mapM (pairOf? decode) <;> simp

/-- Entries are decoded from the trees of an object. -/
theorem Decodes.entriesOf (decodes : Decodes read decode) :
    Decodes (Reader.entriesOf read) (Tree.entriesOf? decode) := by
  intro tree text rest spaced ends
  have refused (noObject : ∀ entries, tree ≠ .object entries) :
      (Reader.entriesOf read).Gives text none rest := by
    refine gives_none_of_token spaced ends fun found shows => ?_
    split
    · obtain ⟨entries, isObject⟩ := shows.exists_object
      exact absurd isObject (noObject entries)
    · exact refuses_fail _
  cases tree with
  | object entries =>
    have follows : Follows (fun found key => do
        colon
        let value ← read
        pure (found ++ [(key, value)])) fun found name value =>
          (decode value).map fun value => found ++ [(name, value)] := by
      intro found name value between text rest blank spaced ends
      exact (reads_colon blank).goesOn ((decodes value text rest spaced ends).tell_pure _)
    have collected := @foldlM_collecting _ decode entries []
    simp only [List.nil_append, Option.map_id'] at collected
    rw [Tree.entriesOf?, ← collected]
    exact gives_object spaced fun inner closing spacedInner blankClosing =>
      (follows.gives_entries spacedInner blankClosing rest).inObject
  | _ => exact refused nofun

end Collecting

end ElmWorkbench.Json
