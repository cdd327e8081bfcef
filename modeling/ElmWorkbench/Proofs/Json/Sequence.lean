import ElmWorkbench.Proofs.Json.Outcome
import ElmWorkbench.Proofs.Json.Spacing
/-!
# Lists and objects, part by part

What a reader makes of the elements of a list, or of the entries of an object, tells what it makes of
all of them. It goes on until one of them is refused, or up to the closing bracket
(`gives_elements`, `EndsIn.gives_entries`).
-/

namespace ElmWorkbench.Json

open Reader

/-! ## Elements -/

section Elements

variable {Part Meaning : Type} {read : Reader Meaning} {tokens : Part → List Bytes}
  {outcome : Part → Option Meaning} {parts : List Part} {text closing : Bytes}

/-- Before whatever may follow a value, a reader makes the same of each text of its tokens. -/
structure Settles (read : Reader Meaning) (tokens : List Bytes) (outcome : Option Meaning) :
    Prop where
  opens : Opens 0x5D tokens
  gives : ∀ text rest, Spaced tokens text → IsEnd rest → read.Gives text outcome rest

/-- Another element stands behind a separator. -/
theorem reads_anotherElement {first : Bool} {byte : UInt8} {lead gap : Bytes}
    (spaced : Spaced (separator first) lead) (blank : IsBlank gap) (solid : isSpace byte = false)
    (notEnd : byte ≠ 0x5D) (rest : Bytes) :
    (anotherElement first).Reads (lead ++ gap) true (byte :: rest) := by
  cases first with
  | true =>
    cases spaced
    refine Reads.atGap blank solid ?_
    simp only [notEnd, if_false, if_true]
    exact reads_pure true _
  | false =>
    obtain ⟨before, blankBefore, rfl⟩ := spaced_singleton_iff.mp spaced
    rw [List.append_assoc]
    refine Reads.afterGap blankBefore rfl (reads_step.bind (Reads.atGap blank solid ?_))
    simp only [notEnd, if_false]
    exact reads_pure true _

/-- The end of a list is told and left in place. -/
theorem reads_anotherElement_end (first : Bool) (blank : IsBlank closing) (rest : Bytes) :
    (anotherElement first).Reads closing false (0x5D :: rest) :=
  Reads.atGap blank rfl (reads_pure false _)

/-- The elements of a list are settled one after the other, up to the first that fails. -/
theorem gives_elementsFrom (settles : ∀ part ∈ parts, Settles read (tokens part) (outcome part))
    {bound : Nat} {first : Bool} (enough : parts.length < bound)
    (spaced : Spaced (commaTokens first (parts.map tokens)) text) (blank : IsBlank closing)
    (rest : Bytes) :
    (elementsFrom read bound first).Gives (text ++ closing) (parts.mapM outcome)
      (0x5D :: rest) := by
  induction parts generalizing bound first text with
  | nil =>
    obtain ⟨bound, rfl⟩ := Nat.exists_eq_add_one.mpr enough
    cases spaced
    exact ((reads_anotherElement_end first blank rest).tell (reads_pure [] _)).gives
  | cons part others inductionHypothesis =>
    obtain ⟨bound, rfl⟩ := Nat.exists_eq_add_one.mpr (Nat.zero_lt_of_lt enough)
    obtain ⟨here, later⟩ := List.forall_mem_cons.mp settles
    obtain ⟨lead, gap, byte, bytes, more, spacedLead, blankGap, solid, notEnd, spacedPart,
      spacedMore, rfl⟩ := exists_of_spaced_part here.opens spaced
    have opened := reads_anotherElement spacedLead blankGap solid notEnd
      (bytes ++ (more ++ closing) ++ 0x5D :: rest)
    have ends := isEnd_parts spacedMore (isEnd_closing blank (.inl rfl) rest)
    have whole : lead ++ gap ++ (byte :: bytes ++ more) ++ closing =
        lead ++ gap ++ (byte :: bytes ++ (more ++ closing)) := by simp
    rw [whole, List.mapM_cons]
    refine opened.goesOn (Gives.bind (here.gives _ _ spacedPart (by simpa using ends)) ?_)
    intro value _
    exact (inductionHypothesis later (Nat.lt_of_succ_lt_succ enough) spacedMore).tell
      fun values _ => (reads_pure (value :: values) _).gives

/-- The elements of a list have the outcomes of each of them. -/
theorem gives_elements (settles : ∀ part ∈ parts, Settles read (tokens part) (outcome part))
    (spaced : Spaced (commaTokens true (parts.map tokens)) text) (blank : IsBlank closing)
    (rest : Bytes) :
    (Reader.elements read).Gives (text ++ closing) (parts.mapM outcome) (0x5D :: rest) := by
  refine Gives.bounded (fun bound => elementsFrom read bound true) fun bound enough => ?_
  have filled : ∀ part ∈ parts, ∃ token ∈ tokens part, token ≠ [] := by
    intro part member
    obtain ⟨byte, others, more, opened, -⟩ := (settles part member).opens
    exact ⟨byte :: others, by simp [opened], by simp⟩
  have fewer := length_le_of_spaced_parts (List.forall_mem_map.mpr filled) spaced
  rw [List.length_map] at fewer
  rw [List.length_append] at enough
  exact gives_elementsFrom settles (by omega) spaced blank rest

end Elements

/-! ## Entries -/

section Entries

variable {State : Type} {read : State → String → Reader State} {state : State}
  {entries : List (Bytes × List Bytes)} {outcome : Option State} {text closing : Bytes}

/-- What comes of entries one after the other, with a reader that goes on behind each key. -/
inductive EndsIn {State : Type} (read : State → String → Reader State) :
    State → List (Bytes × List Bytes) → Option State → Prop where
  | done {state : State} : EndsIn read state [] (some state)
  | entry {state : State} {key inside : Bytes} {value : List Bytes}
      {others : List (Bytes × List Bytes)} {name : Option String} {next : String → Option State}
      {final : State → Option State} (opens : key = quote :: inside)
      (named : ∀ rest, Reader.quotation.Gives key name rest)
      (given : ∀ text ∈ name, ∀ between inner rest, IsBlank between → Spaced value inner →
        IsEnd rest → (read state text).Gives (between ++ [0x3A] ++ inner) (next text) rest)
      (more : ∀ text ∈ name, ∀ reached ∈ next text, EndsIn read reached others (final reached)) :
      EndsIn read state ((key, value) :: others) ((name.bind next).bind final)

/-- The entries of an object are settled one after the other, up to the first that fails. -/
theorem EndsIn.gives_entriesFrom (endsIn : EndsIn read state entries outcome) {bound : Nat}
    {first : Bool} (enough : entries.length < bound)
    (spaced : Spaced (commaTokens first (entries.map pairTokens)) text) (blank : IsBlank closing)
    (rest : Bytes) :
    (entriesFrom read bound first state).Gives (text ++ closing) outcome (0x7D :: rest) := by
  induction endsIn generalizing bound first text with
  | @done state =>
    obtain ⟨bound, rfl⟩ := Nat.exists_eq_add_one.mpr enough
    cases spaced
    exact ((reads_anotherKey_end first blank).tell (reads_pure state _)).gives
  | @entry state key inside value others name next final opens named given _ inductionHypothesis =>
    obtain ⟨bound, rfl⟩ := Nat.exists_eq_add_one.mpr (Nat.zero_lt_of_lt enough)
    obtain ⟨lead, gap, between, inner, more, spacedLead, blankGap, blankBetween, spacedInner,
      spacedMore, rfl⟩ := exists_of_spaced_entry spaced
    have opened := reads_anotherKey spacedLead blankGap
      (inside ++ (between ++ [0x3A] ++ inner ++ (more ++ closing)) ++ 0x7D :: rest)
    have ends := isEnd_parts spacedMore (isEnd_closing blank (.inr rfl) rest)
    have whole : lead ++ gap ++ (key ++ (between ++ [0x3A] ++ (inner ++ more))) ++ closing =
        lead ++ gap ++ (key ++ (between ++ [0x3A] ++ inner ++ (more ++ closing))) := by simp
    rw [whole, Option.bind_assoc]
    rw [← List.cons_append, ← List.cons_append, ← opens] at opened
    refine opened.goesOn (Gives.bind (named _) fun text isNamed => ?_)
    refine Gives.bind (given text isNamed between inner _ blankBetween spacedInner ?_) ?_
    · simpa using ends
    · exact fun reached isReached => inductionHypothesis text isNamed reached isReached
        (Nat.lt_of_succ_lt_succ enough) spacedMore

/-- The entries of an object have the outcome that they end in. -/
theorem EndsIn.gives_entries (endsIn : EndsIn read state entries outcome)
    (spaced : Spaced (commaTokens true (entries.map pairTokens)) text) (blank : IsBlank closing)
    (rest : Bytes) :
    (Reader.entries read state).Gives (text ++ closing) outcome (0x7D :: rest) := by
  refine Gives.bounded (fun bound => entriesFrom read bound true state) fun bound enough => ?_
  have filled : ∀ entry ∈ entries, ∃ token ∈ pairTokens entry, token ≠ [] :=
    fun entry _ => ⟨[0x3A], by simp [pairTokens], by simp⟩
  have fewer := length_le_of_spaced_parts (List.forall_mem_map.mpr filled) spaced
  rw [List.length_map] at fewer
  rw [List.length_append] at enough
  exact endsIn.gives_entriesFrom (by omega) spaced blank rest

end Entries

end ElmWorkbench.Json
