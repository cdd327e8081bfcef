import ElmWorkbench.Json.Variant
import ElmWorkbench.Proofs.Json.Variation
/-!
# Records and messages are read back

A record is read back from every variant of an object that fills its fields (`Fills.recovers`), and
a message from every variant of one that holds its tag and its contents, in either order
(`Recovers.message`). A message without contents is read back from its tag (`Takes.bareMessage`).
-/

namespace ElmWorkbench.Json

open Reader

/-! ## Records -/

section Records

variable {Draft Result : Type} {fields : List (Field Draft)} {draft : List String → Draft}
  {entries arranged : List (String × Value)} {seen final : List String}

/-- A scalar under a key that nobody asks for is skipped. -/
theorem reads_skipValue_scalar {extra : Value} (scalar : extra.IsScalar) {text rest : Bytes}
    (spaced : Spaced extra.tokens text) (ends : IsEnd rest) : skipValue.Reads text () rest := by
  obtain ⟨found, means⟩ := scalar.exists_means
  rw [Value.tokens_of_single scalar.isSingle] at spaced
  obtain ⟨gap, blank, rfl⟩ := spaced_singleton_iff.mp spaced
  exact reads_skipValue means blank ends

/-- The entries of an object fill the fields of a record, where `draft` tells what has been read
when the entries with given keys have come. -/
structure Fills (fields : List (Field Draft)) (draft : List String → Draft)
    (entries : List (String × Value)) : Prop where
  names : fields.map Field.name = entries.map Prod.fst
  each : ∀ entry ∈ entries, ∃ field,
    fields.find? (fun field => field.name = entry.1) = some field ∧
      ∀ seen, entry.1 ∉ seen → field.isFilled (draft seen) = false ∧
        Recovers (field.read (draft seen)) entry.2 (draft (entry.1 :: seen))

/-- A part of a record that has been read when its key has come. -/
def given {Part : Type} (key : String) (part : Part) (seen : List String) : Option Part :=
  if key ∈ seen then some part else none

/-- A part whose key was seen is given. -/
theorem given_of_mem {Part : Type} {key : String} {part : Part} (isSeen : key ∈ seen) :
    given key part seen = some part :=
  if_pos isSeen

/-- A part whose key was not seen is missing. -/
theorem given_of_fresh {Part : Type} {key : String} {part : Part} (fresh : key ∉ seen) :
    given key part seen = none :=
  if_neg fresh

/-- A part is given once its key is seen. -/
theorem given_self {Part : Type} (key : String) (part : Part) (seen : List String) :
    given key part (key :: seen) = some part :=
  given_of_mem List.mem_cons_self

/-- The key of another part changes nothing. -/
theorem given_other {Part : Type} {key other : String} (different : key ≠ other) (part : Part)
    (seen : List String) : given key part (other :: seen) = given key part seen := by
  simp [given, different]

/-- A field is filled with what is read for it. -/
theorem Recovers.fill {Part : Type} {read : Reader Part} {value : Value} {part : Part}
    (recovers : Recovers read value part) {change : Part → Draft} {filled : Draft}
    (same : change part = filled) :
    Recovers (do let read ← read; pure (change read)) value filled :=
  recovers.tell fun rest => same ▸ reads_pure _ rest

/-- A field that has not been filled is filled with what stands under its key. -/
theorem reads_fieldAfter {key : String} {field : Field Draft} {before after : Draft} {value : Value}
    (named : fields.find? (fun field => field.name = key) = some field)
    (free : field.isFilled before = false) (takes : Takes (field.read before) value after)
    (between text rest : Bytes) (blank : IsBlank between) (spaced : Spaced value.tokens text)
    (ends : IsEnd rest) :
    (fieldAfter fields before key).Reads (between ++ [0x3A] ++ text) after rest := by
  rw [fieldAfter, named]
  simp only [free, Bool.false_eq_true, if_false]
  exact (reads_colon blank).bind (takes.reads text rest spaced ends)

/-- A scalar under a key that is no field changes nothing. -/
theorem reads_fieldAfter_unnamed {key : String} {extra : Value} {reached : Draft}
    (unnamed : fields.find? (fun field => field.name = key) = none) (scalar : extra.IsScalar)
    (between text rest : Bytes) (blank : IsBlank between) (spaced : Spaced extra.tokens text)
    (ends : IsEnd rest) :
    (fieldAfter fields reached key).Reads (between ++ [0x3A] ++ text) reached rest := by
  rw [fieldAfter, unnamed]
  exact (reads_colon blank).bind
    ((reads_skipValue_scalar scalar spaced ends).tell (reads_pure _ _))

/-- Fields are filled in the order in which their entries come. -/
theorem Fills.passes (fills : Fills fields draft entries)
    (arranges : Arranged entries seen arranged final) :
    Passes (fieldAfter fields) (draft seen) arranged (draft final) := by
  induction arranges with
  | done => exact .done
  | @own seen final key value variant others member fresh varies more inductionHypothesis =>
    obtain ⟨field, named, filled⟩ := fills.each _ member
    obtain ⟨free, recovers⟩ := filled seen fresh
    exact .entry (reads_fieldAfter named free (recovers variant varies)) inductionHypothesis
  | @further seen final key extra others unknown scalar more inductionHypothesis =>
    have unnamed : fields.find? (fun field => field.name = key) = none := by
      refine List.find?_eq_none.mpr fun field member named => unknown ?_
      rw [← fills.names]
      exact List.mem_map.mpr ⟨field, member, by simpa using named⟩
    exact .entry (reads_fieldAfter_unnamed unnamed scalar) inductionHypothesis

variable {shape : Shape Draft Result} {result : Result}

/-- A reader that reads an object as a record takes one whose entries make up a record. -/
theorem Passes.takes_record {filled : Draft}
    (passes : Passes (fieldAfter shape.fields) shape.empty entries filled)
    (built : shape.build filled = .ok result) {next : Found → Reader Result}
    (opened : next .object = inObject (recordInObject shape)) :
    Takes (token >>= next) (.object entries) result := by
  refine takes_object fun text closing rest spaced blank => ?_
  rw [opened]
  refine ((passes.reads_entries spaced blank _).tell ?_).inObject
  rw [built]
  exact reads_pure result _

/-- A reader that reads an object as a record takes every variant of an object in which every field
stands once. -/
theorem Fills.recovers (fills : Fills shape.fields draft entries)
    (distinct : (shape.fields.map Field.name).Nodup) (start : draft [] = shape.empty)
    (built : ∀ seen, (∀ entry ∈ entries, entry.1 ∈ seen) → shape.build (draft seen) = .ok result)
    {next : Found → Reader Result} (opened : next .object = inObject (recordInObject shape)) :
    Recovers (token >>= next) (.object entries) result := by
  rw [fills.names] at distinct
  intro variant varies
  obtain ⟨arranged, final, rfl, arranges, covers⟩ := varies.exists_arranged distinct
  have passes := fills.passes arranges
  rw [start] at passes
  exact passes.takes_record (built final covers) opened

end Records

/-! ## Names and tags -/

section Messages

variable {Result : Type} {rest : Bytes}

/-- A known name is read back as what it stands for. -/
theorem Takes.name {known : List (String × Result)} {name : String} {entry : String × Result}
    (found : known.find? (fun entry => entry.1 = name) = some entry) :
    Takes (nameAmong known) (.text name) entry.2 where
  opens := by
    rw [Value.tokens_text, keyBytes, encodeChars_writeText]
    exact ⟨quote, _, [], rfl, by decide⟩
  reads text rest spaced ends := by
    rw [Value.tokens_text] at spaced
    obtain ⟨gap, blank, rfl⟩ := spaced_singleton_iff.mp spaced
    have named : (knownName known name).Reads [] entry.2 rest := by
      rw [knownName, found]
      exact reads_pure entry.2 rest
    have quoted := (reads_quotation name rest).tell named
    rw [keyBytes, encodeChars_writeText]
    rw [encodeChars_writeText] at quoted
    exact Reads.afterGap blank rfl quoted

/-- The keys that matter in a message. -/
def partKey (isTag : Bool) : String :=
  if isTag then tagKey else dataKey

/-- Entries that a message skips. -/
def AreSkipped (entries : List (String × Value)) : Prop :=
  ∀ extra ∈ entries, (∀ isTag, extra.1 ≠ partKey isTag) ∧ extra.2.IsScalar

/-- One entry is skipped, and then the others. -/
theorem reads_relevantKey_skipping {key : String} {value : Value}
    (irrelevant : ∀ isTag, key ≠ partKey isTag) (scalar : value.IsScalar) {first : Bool} {lead gap between inner back rest : Bytes}
    (spacedLead : Spaced (separator first) lead) (blankGap : IsBlank gap)
    (blankBetween : IsBlank between) (spacedInner : Spaced value.tokens inner)
    (ends : IsEnd (back ++ rest)) {bound : Nat} {result : Option Bool}
    (remaining : (relevantKey bound false).Reads back result rest) :
    (relevantKey (bound + 1) first).Reads
      (lead ++ gap ++ (keyBytes key ++ (between ++ [0x3A] ++ (inner ++ back)))) result rest := by
  have opened := reads_anotherKey_written spacedLead blankGap key
    (between ++ [0x3A] ++ (inner ++ back) ++ rest)
  rw [← List.append_assoc (keyBytes key)] at opened
  have skipped := reads_skipValue_scalar scalar spacedInner ends
  have notTag : key ≠ tagKey := irrelevant true
  have notData : key ≠ dataKey := irrelevant false
  refine opened.bind ((reads_quotation key _).bind ?_)
  simp only [notTag, notData, if_false]
  exact (reads_colon blankBetween).bind (skipped.bind remaining)

/-- Before the end of the message, other entries are skipped. -/
theorem reads_nextRelevantKey_none {skipped : List (String × Value)}
    (areSkipped : AreSkipped skipped) {first : Bool} {text closing : Bytes}
    (spaced : Spaced (Value.entryTokens first skipped) text) (blank : IsBlank closing)
    (rest : Bytes) : (nextRelevantKey first).Reads (text ++ closing) none (0x7D :: rest) := by
  refine Reads.bounded (fun bound => relevantKey bound first) fun bound enough => ?_
  induction skipped generalizing first text bound with
  | nil =>
    obtain ⟨bound, rfl⟩ := Nat.exists_eq_add_one.mpr (Nat.zero_lt_of_lt enough)
    cases spaced
    exact (reads_anotherKey_end first blank).tell (reads_pure none _)
  | cons extra others inductionHypothesis =>
    obtain ⟨bound, rfl⟩ := Nat.exists_eq_add_one.mpr (Nat.zero_lt_of_lt enough)
    obtain ⟨key, value⟩ := extra
    obtain ⟨⟨irrelevant, scalar⟩, later⟩ := List.forall_mem_cons.mp areSkipped
    obtain ⟨lead, gap, between, inner, more, spacedLead, blankGap, blankBetween, spacedInner,
      spacedMore, rfl⟩ := exists_of_spaced_entry spaced
    have fewer : (more ++ closing).length < bound := by
      simp only [List.length_append, List.length_cons] at enough ⊢
      omega
    have parts :
        lead ++ gap ++ (keyBytes key ++ (between ++ [0x3A] ++ (inner ++ more))) ++ closing =
          lead ++ gap ++ (keyBytes key ++ (between ++ [0x3A] ++ (inner ++ (more ++ closing)))) := by
      simp
    rw [parts]
    exact reads_relevantKey_skipping irrelevant scalar spacedLead blankGap blankBetween spacedInner
      (isEnd_entries spacedMore blank rest)
      (inductionHypothesis later spacedMore bound fewer)

/-- Other entries are skipped before the next one that matters, whose key is read. -/
theorem exists_reads_nextRelevantKey {skipped others : List (String × Value)}
    (areSkipped : AreSkipped skipped) (isTag : Bool) {value : Value} {first : Bool} {text : Bytes}
    (spaced : Spaced (Value.entryTokens first (skipped ++ (partKey isTag, value) :: others))
      text) :
    ∃ front between inner more, text = front ++ (between ++ [0x3A] ++ (inner ++ more)) ∧
      IsBlank between ∧ Spaced value.tokens inner ∧ Spaced (Value.entryTokens false others) more ∧
      ∀ rest, (nextRelevantKey first).Reads front (some isTag) rest := by
  -- The loop is followed with any bound that is great enough. That a value which is skipped has an
  -- end is known from the comma that the rest begins with.
  suffices found : ∃ front between inner more,
      text = front ++ (between ++ [0x3A] ++ (inner ++ more)) ∧ IsBlank between ∧
      Spaced value.tokens inner ∧ Spaced (Value.entryTokens false others) more ∧
      (first = false → ∀ rest, IsEnd (front ++ rest)) ∧
      ∀ rest bound, front.length < bound →
        (relevantKey bound first).Reads front (some isTag) rest by
    obtain ⟨front, between, inner, more, whole, blank, spacedInner, spacedMore, -, reads⟩ := found
    exact ⟨front, between, inner, more, whole, blank, spacedInner, spacedMore, fun rest =>
      Reads.bounded (fun bound => relevantKey bound first) (reads rest)⟩
  induction skipped generalizing first text with
  | nil =>
    obtain ⟨lead, gap, between, inner, more, spacedLead, blankGap, blankBetween, spacedInner,
      spacedMore, rfl⟩ := exists_of_spaced_entry spaced
    refine ⟨lead ++ gap ++ keyBytes (partKey isTag), between, inner, more, by simp, blankBetween,
      spacedInner, spacedMore, ?_, fun rest bound enough => ?_⟩
    · rintro rfl rest
      rw [List.append_assoc, List.append_assoc]
      exact isEnd_comma spacedLead _
    · obtain ⟨bound, rfl⟩ := Nat.exists_eq_add_one.mpr (Nat.zero_lt_of_lt enough)
      refine (reads_anotherKey_written spacedLead blankGap (partKey isTag) rest).bind
        ((reads_quotation (partKey isTag) rest).tell ?_)
      cases isTag with
      | true => exact reads_pure (some true) rest
      | false => exact reads_pure (some false) rest
  | cons extra skipped inductionHypothesis =>
    obtain ⟨foreign, unused⟩ := extra
    obtain ⟨⟨irrelevant, scalar⟩, later⟩ := List.forall_mem_cons.mp areSkipped
    obtain ⟨lead, gap, between, inner, more, spacedLead, blankGap, blankBetween, spacedInner,
      spacedMore, rfl⟩ := exists_of_spaced_entry spaced
    obtain ⟨front, betweenFound, innerFound, moreFound, rfl, blankFound, spacedFound, spacedRest,
      ends, reads⟩ := inductionHypothesis later spacedMore
    refine ⟨lead ++ gap ++ (keyBytes foreign ++ (between ++ [0x3A] ++ (inner ++ front))),
      betweenFound, innerFound, moreFound, by simp, blankFound, spacedFound, spacedRest, ?_,
      fun rest bound enough => ?_⟩
    · rintro rfl rest
      rw [List.append_assoc, List.append_assoc]
      exact isEnd_comma spacedLead _
    · obtain ⟨bound, rfl⟩ := Nat.exists_eq_add_one.mpr (Nat.zero_lt_of_lt enough)
      have fewer : front.length < bound := by
        simp only [List.length_append, List.length_cons] at enough
        omega
      exact reads_relevantKey_skipping irrelevant scalar spacedLead blankGap blankBetween
        spacedInner (ends rfl rest) (reads rest bound fewer)

/-! ## Messages -/

variable {Message : Type} {variants : List (Variant Message)} {variant : Variant Message}
  {name : String} {meaning : Message} {data : Value} {skipped middle last : List (String × Value)}
  {text closing : Bytes}

/-- The name of a variant is read as the variant. -/
theorem takes_known (found : variants.find? (fun known => known.name = name) = some variant) :
    Takes (nameAmong (variants.map fun variant => (variant.name, variant))) (.text name)
      variant := by
  have known : (variants.map fun variant => (variant.name, variant)).find?
      (fun entry => entry.1 = name) = some (variant.name, variant) := by
    rw [List.find?_map, Function.comp_def, found]
    rfl
  exact Takes.name known

/-- The entries behind the parts of a message are skipped. -/
theorem reads_noFurtherParts (areSkipped : AreSkipped last)
    (spaced : Spaced (Value.entryTokens false last) text) (blank : IsBlank closing)
    (meaning : Message) (rest : Bytes) :
    (noFurtherParts meaning).Reads (text ++ closing) meaning (0x7D :: rest) :=
  (reads_nextRelevantKey_none areSkipped spaced blank rest).tell (reads_pure meaning _)

/-- A message whose contents come after its tag. -/
theorem reads_messageInObject_tagFirst
    (found : variants.find? (fun known => known.name = name) = some variant)
    (takes : Takes (variant.read .direct) data meaning) (areSkipped : AreSkipped skipped)
    (areSkippedMiddle : AreSkipped middle) (areSkippedLast : AreSkipped last)
    (spaced : Spaced (Value.entryTokens true
      (skipped ++ (tagKey, .text name) :: (middle ++ (dataKey, data) :: last))) text)
    (blank : IsBlank closing) (rest : Bytes) :
    (messageInObject variants).Reads (text ++ closing) meaning (0x7D :: rest) := by
  obtain ⟨front, between, inner, _, rfl, blankBetween, spacedInner, spacedMore, toTag⟩ :=
    exists_reads_nextRelevantKey areSkipped true spaced
  obtain ⟨second, behind, contents, more, rfl, blankBehind, spacedContents, spacedLast, toData⟩ :=
    exists_reads_nextRelevantKey areSkippedMiddle false spacedMore
  have nameEnds : IsEnd (second ++ (behind ++ [0x3A] ++ (contents ++ (more ++ closing))) ++
      0x7D :: rest) := by
    simpa using isEnd_entries spacedMore blank rest
  have named := (takes_known found).reads inner _ spacedInner nameEnds
  have contentsRead := takes.reads contents _ spacedContents (isEnd_entries spacedLast blank rest)
  have closed := reads_noFurtherParts areSkippedLast spacedLast blank meaning rest
  have parts : front ++ (between ++ [0x3A] ++
        (inner ++ (second ++ (behind ++ [0x3A] ++ (contents ++ more))))) ++ closing =
      front ++ (between ++ [0x3A] ++
        (inner ++ (second ++ (behind ++ [0x3A] ++ (contents ++ (more ++ closing)))))) := by
    simp
  rw [parts]
  exact (toTag _).bind ((reads_colon blankBetween).bind (named.bind ((toData _).bind
    ((reads_colon blankBehind).bind (contentsRead.bind closed)))))

/-- What is read again from where it stands takes nothing more. -/
theorem reads_again {read : Reader Message} {start : Cursor} {contents : Bytes} {after : Bytes}
    (taken : read.Reads contents meaning after) (starts : start.rest = contents ++ after)
    (rest : Bytes) : (again start read).Reads [] meaning rest := by
  intro before
  obtain ⟨front, whole⟩ := start
  obtain rfl : whole = contents ++ after := starts
  rw [again, taken front]
  rfl

/-- A message whose contents come before its tag. -/
theorem reads_messageInObject_dataFirst
    (found : variants.find? (fun known => known.name = name) = some variant)
    (takes : Takes (variant.read .buffered) data meaning) (fits : Fits (nestingBound - 1) data)
    (areSkipped : AreSkipped skipped) (areSkippedMiddle : AreSkipped middle)
    (areSkippedLast : AreSkipped last)
    (spaced : Spaced (Value.entryTokens true
      (skipped ++ (dataKey, data) :: (middle ++ (tagKey, .text name) :: last))) text)
    (blank : IsBlank closing) (rest : Bytes) :
    (messageInObject variants).Reads (text ++ closing) meaning (0x7D :: rest) := by
  obtain ⟨front, between, contents, _, rfl, blankBetween, spacedContents, spacedMore, toData⟩ :=
    exists_reads_nextRelevantKey areSkipped false spaced
  obtain ⟨second, behind, inner, more, rfl, blankBehind, spacedInner, spacedLast, toTag⟩ :=
    exists_reads_nextRelevantKey areSkippedMiddle true spacedMore
  obtain ⟨result, shaped⟩ := fits.exists_takes
  have contentsEnd : IsEnd (second ++ (behind ++ [0x3A] ++ (inner ++ (more ++ closing))) ++
      0x7D :: rest) := by
    simpa using isEnd_entries spacedMore blank rest
  have shapedRead := shaped.reads contents _ spacedContents contentsEnd
  have contentsRead := takes.reads contents _ spacedContents contentsEnd
  have named := (takes_known found).reads inner _ spacedInner (isEnd_entries spacedLast blank rest)
  have closed := reads_noFurtherParts areSkippedLast spacedLast blank meaning rest
  have parts : front ++ (between ++ [0x3A] ++
        (contents ++ (second ++ (behind ++ [0x3A] ++ (inner ++ more))))) ++ closing =
      front ++ (between ++ [0x3A] ++
        (contents ++ (second ++ (behind ++ [0x3A] ++ (inner ++ (more ++ closing)))))) := by
    simp
  rw [parts]
  refine (toData _).bind ((reads_colon blankBetween).bind (Reads.get fun before => ?_))
  exact shapedRead.bind ((toTag _).bind ((reads_colon blankBehind).bind (named.bind
    (Reads.look (reads_again contentsRead (by simp) _) closed))))

/-- Entries of a message under other keys than its two. -/
theorem areSkipped_of_further {parts : List (String × Value)}
    (keys : parts.map Prod.fst = [tagKey, dataKey]) {extras : List (String × Value)}
    (further : ∀ extra ∈ extras, extra.1 ∉ parts.map Prod.fst ∧ extra.2.IsScalar) :
    AreSkipped extras := by
  rw [keys] at further
  intro extra member
  obtain ⟨unknown, scalar⟩ := further extra member
  refine ⟨?_, scalar⟩
  rintro (_ | _) isPart <;> exact unknown (isPart ▸ by decide)

/-- A message is read back from its tag and its contents, in whichever order they come. -/
theorem Recovers.message (title : String)
    (found : variants.find? (fun known => known.name = name) = some variant)
    (direct : Recovers (variant.read .direct) data meaning)
    (buffered : Recovers (variant.read .buffered) data meaning)
    (fits : Fits (nestingBound - 1) data) :
    Recovers (Reader.message title variants)
      (.object [(tagKey, .text name), (dataKey, data)]) meaning := by
  intro written varies
  have different : tagKey ≠ dataKey := by decide
  obtain ⟨arranged, final, rfl, arranges, covers⟩ :=
    varies.exists_arranged (by simpa using different)
  obtain ⟨hasTag, hasData⟩ : tagKey ∈ final ∧ dataKey ∈ final := by simpa using covers
  have skipped {extras} := @areSkipped_of_further [(tagKey, .text name), (dataKey, data)] rfl extras
  obtain ⟨front, key, value, variation, behind, rfl, further, member, -, varied, arrangesBehind⟩ :=
    arranges.exists_next hasTag List.not_mem_nil
  refine takes_object fun text closing rest spaced blank => Reads.inObject ?_
  simp only [List.mem_cons, Prod.mk.injEq, List.not_mem_nil, or_false] at member
  rcases member with ⟨rfl, rfl⟩ | ⟨rfl, rfl⟩
  · obtain ⟨middle, key, value, contents, last, rfl, furtherMiddle, member, fresh, variedData,
      arrangesLast⟩ := arrangesBehind.exists_next hasData (by simpa using different.symm)
    simp only [List.mem_cons, Prod.mk.injEq, List.not_mem_nil, or_false] at member
    rcases member with ⟨rfl, -⟩ | ⟨rfl, rfl⟩
    · simp at fresh
    · obtain rfl := varied.eq_of_single trivial
      exact reads_messageInObject_tagFirst found (direct contents variedData) (skipped further)
        (skipped furtherMiddle) (skipped (arrangesLast.all_further (by simp))) spaced blank rest
  · obtain ⟨middle, key, value, contents, last, rfl, furtherMiddle, member, fresh, variedName,
      arrangesLast⟩ := arrangesBehind.exists_next hasTag (by simpa using different)
    simp only [List.mem_cons, Prod.mk.injEq, List.not_mem_nil, or_false] at member
    rcases member with ⟨rfl, rfl⟩ | ⟨rfl, -⟩
    · obtain rfl := variedName.eq_of_single trivial
      exact reads_messageInObject_dataFirst found (buffered variation varied) (varied.fits fits)
        (skipped further) (skipped furtherMiddle)
        (skipped (arrangesLast.all_further (by simp))) spaced blank rest
    · simp at fresh

/-- A message is read back from its tag and the contents behind it. -/
theorem Takes.message (title : String)
    (found : variants.find? (fun known => known.name = name) = some variant)
    (takes : Takes (variant.read .direct) data meaning) :
    Takes (Reader.message title variants)
      (.object [(tagKey, .text name), (dataKey, data)]) meaning := by
  refine takes_object fun text closing rest spaced blank => Reads.inObject ?_
  have none : AreSkipped [] := by simp [AreSkipped]
  exact reads_messageInObject_tagFirst found takes none none none spaced blank rest

/-- A message without contents is read back from its tag. -/
theorem Takes.bareMessage (title : String)
    (found : variants.find? (fun known => known.name = name) = some variant)
    (bare : variant.withoutData = .ok meaning) :
    Takes (Reader.message title variants) (.object [(tagKey, .text name)]) meaning := by
  refine takes_object fun text closing rest spaced blank => Reads.inObject ?_
  have none : AreSkipped [] := by simp [AreSkipped]
  obtain ⟨front, between, inner, more, rfl, blankBetween, spacedInner, spacedMore, toTag⟩ :=
    @exists_reads_nextRelevantKey [] [] none true _ true text spaced
  have named := (takes_known found).reads inner _ spacedInner (isEnd_entries spacedMore blank rest)
  have ended := reads_nextRelevantKey_none none spacedMore blank rest
  have parts : front ++ (between ++ [0x3A] ++ (inner ++ more)) ++ closing =
      front ++ (between ++ [0x3A] ++ (inner ++ (more ++ closing))) := by
    simp
  rw [parts]
  refine (toTag _).bind ((reads_colon blankBetween).bind (named.bind (ended.tell ?_)))
  simp only [bare]
  exact reads_pure meaning _

end Messages

end ElmWorkbench.Json
