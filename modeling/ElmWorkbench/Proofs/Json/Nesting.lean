import ElmWorkbench.Proofs.Json.Token
/-!
# Values that nobody uses, at any depth

A value that nobody uses is stepped over, whatever it is (`Tree.reads_skipValue`). The skipper keeps
the brackets that are open, so it is followed with what it goes on with behind a value: if it takes
the rest from there, it takes the value and the rest (`Tree.IsSkipped`).
-/

namespace ElmWorkbench.Json

open Reader

namespace Tree

/-- What holds of a list if it holds of its elements, of an object if it holds of the values in it,
and of every tree without brackets, holds of all trees. -/
@[elab_as_elim]
theorem induction {motive : Tree → Prop} (single : ∀ tree, tree.IsSingle → motive tree)
    (list : ∀ elements, (∀ element ∈ elements, motive element) → motive (.list elements))
    (object : ∀ entries, (∀ entry ∈ entries, motive entry.2) → motive (.object entries))
    (tree : Tree) : motive tree :=
  @Tree.rec motive (fun elements => ∀ element ∈ elements, motive element)
    (fun entries => ∀ entry ∈ entries, motive entry.2) (fun entry => motive entry.2)
    (single .null trivial) (fun value => single (.boolean value) trivial)
    (fun numeral => single (.number numeral) trivial)
    (fun quotation => single (.text quotation) trivial) list object
    (fun _ member => absurd member List.not_mem_nil)
    (fun _ _ holds others => List.forall_mem_cons.mpr ⟨holds, others⟩)
    (fun _ member => absurd member List.not_mem_nil)
    (fun _ _ holds others => List.forall_mem_cons.mpr ⟨holds, others⟩)
    (fun _ _ holds => holds) tree

/-- A value is skipped in so many steps that twice its bytes are more, and then skipping goes on. -/
def IsSkipped (tree : Tree) : Prop :=
  ∀ text, Spaced tree.tokens text → ∃ cost, cost < 2 * text.length ∧
    ∀ {steps opened back rest}, IsEnd (back ++ rest) →
      (skipWithin steps .commaOrEnd opened).Reads back () rest →
      (skipWithin (steps + cost) .value opened).Reads (text ++ back) () rest

end Tree

section Skipping

variable {gap text rest : Bytes} {tree : Tree}

/-- A value without brackets is stepped over in one step. -/
theorem reads_skipToken_single (single : tree.IsSingle) (spaced : Spaced tree.tokens text)
    (ends : IsEnd rest) : skipToken.Reads text none rest := by
  have skipped : (pure none : Reader (Option Bracket)).Reads [] none rest := reads_pure none rest
  cases tree with
  | null =>
    obtain ⟨gap, blank, rfl⟩ := spaced_singleton_iff.mp spaced
    exact reads_skipToken .null blank ends
  | boolean value =>
    cases value with
    | true =>
      obtain ⟨gap, blank, rfl⟩ := spaced_singleton_iff.mp spaced
      exact reads_skipToken .yes blank ends
    | false =>
      obtain ⟨gap, blank, rfl⟩ := spaced_singleton_iff.mp spaced
      exact reads_skipToken .no blank ends
  | number numeral =>
    obtain ⟨gap, blank, rfl⟩ := spaced_singleton_iff.mp spaced
    obtain ⟨lead, others, opened, solid, kind⟩ := numeral.exists_opening
    have numeralSkipped := numeral.reads_skipNumeral ends
    rcases kind with ⟨-, rfl, rfl⟩ | ⟨positive, digit⟩
    · rw [opened]
      exact Reads.afterGap blank rfl ((reads_step.bind numeralSkipped).tell skipped)
    · have unsigned : numeral.unsigned = lead :: others := by
        rw [← opened, Numeral.bytes, positive]
        rfl
      obtain ⟨-, notNull, notTrue, notFalse, notMinus⟩ := solid_of_isDigit digit
      rw [unsigned] at numeralSkipped
      rw [opened]
      refine Reads.afterGap blank solid ?_
      simp only [notNull, notTrue, notFalse, notMinus, digit, if_false, if_true]
      exact numeralSkipped.tell skipped
  | text quotation =>
    obtain ⟨gap, blank, rfl⟩ := spaced_singleton_iff.mp spaced
    exact Reads.afterGap blank rfl ((quotation.reads_skipQuotation rest).tell skipped)
  | list elements => cases single
  | object entries => cases single

/-- A tree of one token is skipped. -/
theorem Tree.IsSingle.isSkipped (single : tree.IsSingle) : tree.IsSkipped := by
  intro text spaced
  obtain ⟨byte, others, more, tokens, -⟩ := tree.exists_opening
  refine ⟨1, ?_, fun ends goesOn => ?_⟩
  · rw [tokens] at spaced
    obtain ⟨gap, behind, -, -, rfl⟩ := spaced_cons_iff.mp spaced
    simp only [List.length_append, List.length_cons]
    omega
  · rw [skipWithin]
    exact (reads_skipToken_single single spaced ends).bind goesOn

/-! ## Items between brackets -/

/-- The tokens of an item between brackets: what stands before a value, and the value. -/
def itemTokens (item : List Bytes × Tree) : List Bytes :=
  item.1 ++ item.2.tokens

/-- What stands before a value in brackets: nothing in a list, a key and a colon in an object. -/
def Bracket.IsKey : Bracket → List Bytes → Prop
  | .list, tokens => tokens = []
  | .object, tokens => ∃ key : Quotation, tokens = [key.bytes, [0x3A]]

/-- A key is skipped up to its value. -/
theorem Bracket.IsKey.reads_skipKey {bracket : Bracket} {key : List Bytes}
    (isKey : bracket.IsKey key)
    (spaced : Spaced key text) (rest : Bytes) : (skipKey bracket).Reads text () rest := by
  cases bracket with
  | list =>
    obtain rfl : key = [] := isKey
    cases spaced
    exact reads_pure () rest
  | object =>
    obtain ⟨quotation, rfl⟩ := isKey
    obtain ⟨gap, _, blank, colonSpaced, rfl⟩ := spaced_cons_iff.mp spaced
    obtain ⟨between, blankBetween, rfl⟩ := spaced_singleton_iff.mp colonSpaced
    exact Reads.afterGap blank rfl
      ((quotation.reads_skipQuotation _).bind (reads_colon blankBetween))

/-- The first byte of an item is told from the end of the brackets. -/
theorem Bracket.IsKey.opens {bracket : Bracket} {key : List Bytes} (isKey : bracket.IsKey key)
    (value : Tree) : Opens bracket.closing (itemTokens (key, value)) := by
  cases bracket with
  | list =>
    obtain rfl : key = [] := isKey
    exact value.opens
  | object =>
    obtain ⟨quotation, rfl⟩ := isKey
    exact ⟨quote, _, _, rfl, rfl, by decide⟩

/-- What is awaited before the first item, or before another one. -/
def awaitedBefore (first : Bool) : Awaited :=
  if first then .firstOrEnd else .commaOrEnd

/-- What stands before an item is stepped over, and its blanks if it is the first one. -/
theorem exists_skipped_lead {bracket : Bracket} {part : List Bytes} {first : Bool} {lead item : Bytes}
    (opens : Opens bracket.closing part) (spacedLead : Spaced (separator first) lead)
    (spacedItem : Spaced part item) :
    ∃ left, Spaced part left ∧ left.length ≤ (lead ++ item).length ∧ ∀ {outer steps back rest},
      (skipKey bracket >>= fun _ => skipWithin steps .value (bracket :: outer)).Reads
        (left ++ back) () rest →
      (skipWithin (steps + 1) (awaitedBefore first) (bracket :: outer)).Reads
        (lead ++ item ++ back) () rest := by
  cases first with
  | true =>
    cases spacedLead
    obtain ⟨byte, bytes, tokens, rfl, solid, notEnd⟩ := opens
    obtain ⟨gap, behind, blank, spacedBehind, rfl⟩ := spaced_cons_iff.mp spacedItem
    refine ⟨byte :: bytes ++ behind, .token isBlank_nil spacedBehind, by simp,
      fun {outer steps back rest} reads => ?_⟩
    have whole : [] ++ (gap ++ (byte :: bytes ++ behind)) ++ back =
        gap ++ (byte :: (bytes ++ behind ++ back)) := by simp
    rw [whole]
    refine Reads.afterGap blank solid ?_
    simp only [notEnd, awaitedBefore, if_false, if_true]
    exact reads
  | false =>
    obtain ⟨gap, blank, rfl⟩ := spaced_singleton_iff.mp spacedLead
    refine ⟨item, spacedItem, ?_, fun {outer steps back rest} reads => ?_⟩
    · rw [List.length_append]
      exact Nat.le_add_left _ _
    have whole : gap ++ [0x2C] ++ item ++ back = gap ++ (0x2C :: (item ++ back)) := by simp
    have notEnd : (0x2C : UInt8) ≠ bracket.closing := by cases bracket <;> decide
    rw [whole]
    refine Reads.afterGap blank rfl ?_
    simp only [notEnd, awaitedBefore, if_false, if_true]
    exact reads_step.bind reads

/-- Between brackets, skipping goes on with `back`, whether or not an item has come before. -/
structure GoesOn (bracket : Bracket) (outer : List Bracket) (steps : Nat) (back rest : Bytes) :
    Prop where
  ends : IsEnd (back ++ rest)
  reads : ∀ first, (skipWithin steps (awaitedBefore first) (bracket :: outer)).Reads back () rest

/-- Items are stepped over in so many steps, and then skipping goes on between the brackets. -/
theorem exists_reads_skipItems {bracket : Bracket} {items : List (List Bytes × Tree)}
    (keys : ∀ item ∈ items, bracket.IsKey item.1) (skipped : ∀ item ∈ items, item.2.IsSkipped)
    {first : Bool} (spaced : Spaced (commaTokens first (items.map itemTokens)) text) :
    ∃ cost, cost ≤ 2 * text.length ∧ ∀ {outer steps back rest},
      GoesOn bracket outer steps back rest →
      (skipWithin (steps + cost) (awaitedBefore first) (bracket :: outer)).Reads (text ++ back) ()
        rest := by
  induction items generalizing first text with
  | nil =>
    cases spaced
    exact ⟨0, Nat.zero_le _, fun goesOn => goesOn.reads first⟩
  | cons item others inductionHypothesis =>
    obtain ⟨key, value⟩ := item
    obtain ⟨isKey, keys⟩ := List.forall_mem_cons.mp keys
    obtain ⟨valueSkipped, skipped⟩ := List.forall_mem_cons.mp skipped
    obtain ⟨lead, _, spacedLead, spacedItems, rfl⟩ := spaced_append_iff.mp spaced
    obtain ⟨item, more, spacedItem, spacedMore, rfl⟩ := spaced_append_iff.mp spacedItems
    obtain ⟨left, spacedLeft, shorter, stepsOver⟩ :=
      exists_skipped_lead (isKey.opens value) spacedLead spacedItem
    obtain ⟨keyText, valueText, spacedKey, spacedValue, rfl⟩ := spaced_append_iff.mp spacedLeft
    obtain ⟨cost, few, readsValue⟩ := valueSkipped valueText spacedValue
    obtain ⟨costMore, fewMore, readsMore⟩ := inductionHypothesis keys skipped spacedMore
    refine ⟨costMore + cost + 1, ?_, fun {outer steps back rest} goesOn => ?_⟩
    · simp only [List.length_append] at shorter ⊢
      omega
    · have ends := isEnd_parts spacedMore goesOn.ends
      have fromValue := readsValue (by simpa using ends) (readsMore goesOn)
      have fromKey : (skipKey bracket >>= fun _ => skipWithin (steps + costMore + cost) .value
          (bracket :: outer)).Reads (keyText ++ valueText ++ (more ++ back)) () rest := by
        rw [List.append_assoc]
        exact (isKey.reads_skipKey spacedKey _).bind fromValue
      have whole : lead ++ (item ++ more) ++ back = lead ++ item ++ (more ++ back) := by simp
      rw [whole, ← Nat.add_assoc, ← Nat.add_assoc]
      exact stepsOver fromKey

/-! ## Brackets -/

/-- The byte that opens a bracket. -/
def Bracket.opening : Bracket → UInt8
  | .list => 0x5B
  | .object => 0x7B

/-- An opening bracket is told. -/
theorem Bracket.reads_skipToken (bracket : Bracket) (blank : IsBlank gap) (rest : Bytes) :
    skipToken.Reads (gap ++ [bracket.opening]) (some bracket) rest := by
  cases bracket with
  | list => exact Reads.afterGap blank rfl (reads_step.tell (reads_pure (some Bracket.list) rest))
  | object =>
    exact Reads.afterGap blank rfl (reads_step.tell (reads_pure (some Bracket.object) rest))

/-- The end of brackets is stepped over, and skipping goes on behind it. -/
theorem goesOn_closing {bracket : Bracket} {outer : List Bracket} {steps : Nat} {back : Bytes}
    (blank : IsBlank gap) (goesOn : (skipWithin steps .commaOrEnd outer).Reads back () rest) :
    GoesOn bracket outer (steps + 1) (gap ++ bracket.closing :: back) rest where
  ends := by
    rw [List.append_assoc]
    exact isEnd_closing blank (by cases bracket <;> simp [Bracket.closing]) (back ++ rest)
  reads first := by
    have solid : isSpace bracket.closing = false := by cases bracket <;> rfl
    cases first <;>
    · refine Reads.afterGap blank solid ?_
      simp only [if_true]
      exact reads_step.bind goesOn

/-- A value in brackets is stepped over if its items are. -/
theorem isSkipped_of_items {bracket : Bracket} {items : List (List Bytes × Tree)}
    (tokens : tree.tokens =
      [bracket.opening] :: commaTokens true (items.map itemTokens) ++ [[bracket.closing]])
    (keys : ∀ item ∈ items, bracket.IsKey item.1) (skipped : ∀ item ∈ items, item.2.IsSkipped) :
    tree.IsSkipped := by
  intro text spaced
  rw [tokens] at spaced
  obtain ⟨gap, inner, last, blank, spacedInner, blankLast, rfl⟩ := exists_of_spaced_brackets spaced
  obtain ⟨cost, few, reads⟩ := exists_reads_skipItems keys skipped spacedInner
  refine ⟨cost + 2, ?_, fun {steps opened back rest} ends goesOn => ?_⟩
  · simp only [List.length_append, List.length_cons, List.length_nil]
    omega
  · have parts : gap ++ (bracket.opening :: (inner ++ last) ++ [bracket.closing]) ++ back =
        gap ++ [bracket.opening] ++ (inner ++ (last ++ bracket.closing :: back)) := by simp
    have closes := reads (goesOn_closing blankLast goesOn)
    rw [parts, show steps + (cost + 2) = steps + 1 + cost + 1 by omega, skipWithin]
    exact (bracket.reads_skipToken blank _).bind closes

/-- Whatever a value is, it is stepped over. -/
theorem Tree.isSkipped (tree : Tree) : tree.IsSkipped := by
  induction tree using Tree.induction with
  | single tree single => exact single.isSkipped
  | list elements inductionHypothesis =>
    refine @isSkipped_of_items _ .list (elements.map fun element => ([], element)) ?_ ?_ ?_
    · rw [Tree.tokens, elementTokens_eq, List.map_map]
      rfl
    · exact List.forall_mem_map.mpr fun _ _ => rfl
    · exact List.forall_mem_map.mpr inductionHypothesis
  | object entries inductionHypothesis =>
    refine @isSkipped_of_items _ .object
      (entries.map fun entry => ([entry.1.bytes, [0x3A]], entry.2)) ?_ ?_ ?_
    · rw [Tree.tokens, entryTokens_eq, List.map_map, List.map_map]
      rfl
    · exact List.forall_mem_map.mpr fun entry _ => ⟨entry.1, rfl⟩
    · exact List.forall_mem_map.mpr inductionHypothesis

/-- The tokens of every tree are skipped as one value. -/
theorem Tree.reads_skipValue (tree : Tree) (spaced : Spaced tree.tokens text) (ends : IsEnd rest) :
    skipValue.Reads text () rest := by
  obtain ⟨cost, few, reads⟩ := tree.isSkipped text spaced
  refine Reads.get fun before => ?_
  -- What is left of the bound is enough to see that no bracket is open.
  obtain ⟨steps, bound⟩ : ∃ steps, 2 * (text ++ rest).length + 2 = steps + 1 + cost :=
    ⟨2 * (text ++ rest).length + 1 - cost, by rw [List.length_append]; omega⟩
  have stops : (skipWithin (steps + 1) .commaOrEnd []).Reads [] () rest := reads_pure () rest
  have whole := reads (show IsEnd ([] ++ rest) from ends) stops
  rwa [← bound, List.append_nil] at whole

end Skipping

end ElmWorkbench.Json
