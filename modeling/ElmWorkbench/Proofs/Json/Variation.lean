import ElmWorkbench.Proofs.Json.Decoding
import Mathlib.Data.List.Forall2
/-!
# Variants of a value

A variant says the same as a value: the entries of its objects stand in another order, or further
ones stand among them (`Varies`). Read from the front, each entry of a variant is one that has not
come yet or a further one (`Arranged`, `Varies.exists_arranged`). A reader `Recovers` a value if it
takes every text of every variant of it.
-/

namespace ElmWorkbench.Json

open Reader

/-- A value that says the same: the entries of objects may stand in any order, and scalars under
further keys may stand among them. -/
inductive Varies : Value → Value → Prop where
  | single {value : Value} (single : value.IsSingle) : Varies value value
  | list {elements : List Value} {varied : Value → Value}
      (each : ∀ element ∈ elements, Varies element (varied element)) :
      Varies (.list elements) (.list (elements.map varied))
  | object {entries extras arranged : List (String × Value)} {varied : String × Value → Value}
      (each : ∀ entry ∈ entries, Varies entry.2 (varied entry))
      (further : ∀ extra ∈ extras, extra.1 ∉ entries.map Prod.fst ∧ extra.2.IsScalar)
      (order : arranged.Perm (entries.map (fun entry => (entry.1, varied entry)) ++ extras)) :
      Varies (.object entries) (.object arranged)

/-- Every value is a variant of itself. -/
theorem Varies.refl (value : Value) : Varies value value := by
  induction value using Value.induction with
  | null => exact .single trivial
  | boolean value => exact .single trivial
  | integer value => exact .single trivial
  | fraction bits => exact .single trivial
  | text value => exact .single trivial
  | path value => exact .single trivial
  | list elements inductionHypothesis =>
    have itself : Varies (.list elements) (.list (elements.map id)) := .list inductionHypothesis
    rwa [List.map_id] at itself
  | object entries inductionHypothesis =>
    exact @Varies.object entries [] entries Prod.snd inductionHypothesis (by simp) (by simp)

/-- A value of one token has no other variant. -/
theorem Varies.eq_of_single {value variant : Value} (varies : Varies value variant)
    (single : value.IsSingle) : variant = value := by
  cases varies with
  | single => rfl
  | list => cases single
  | object => cases single

/-! ## Entries in the order in which they stand -/

/-- Entries that are read when those with the keys `seen` have been read: each is a variant of an
entry that has not come yet, or one under a further key. -/
inductive Arranged (entries : List (String × Value)) :
    List String → List (String × Value) → List String → Prop where
  | done {seen : List String} : Arranged entries seen [] seen
  | own {seen final : List String} {key : String} {value variant : Value}
      {others : List (String × Value)} (member : (key, value) ∈ entries) (fresh : key ∉ seen)
      (varies : Varies value variant) (more : Arranged entries (key :: seen) others final) :
      Arranged entries seen ((key, variant) :: others) final
  | further {seen final : List String} {key : String} {extra : Value}
      {others : List (String × Value)} (unknown : key ∉ entries.map Prod.fst)
      (scalar : extra.IsScalar) (more : Arranged entries seen others final) :
      Arranged entries seen ((key, extra) :: others) final

section Arranging

variable {entries arranged : List (String × Value)} {seen final : List String}

/-- What has been seen stays so. -/
theorem Arranged.subset (arranges : Arranged entries seen arranged final) : seen ⊆ final := by
  induction arranges with
  | done => exact List.Subset.refl _
  | own member fresh varies more inductionHypothesis =>
    exact fun key isSeen => inductionHypothesis (List.mem_cons_of_mem _ isSeen)
  | further unknown scalar more inductionHypothesis => exact inductionHypothesis

/-- Entries that are each a variant of one or stand under a further key can be read from the front,
if no key of the object comes twice. -/
theorem exists_arranged
    (each : ∀ item ∈ arranged, (∃ value, (item.1, value) ∈ entries ∧ Varies value item.2) ∨
      item.1 ∉ entries.map Prod.fst ∧ item.2.IsScalar)
    (once : arranged.Pairwise fun item other =>
      item.1 = other.1 → item.1 ∉ entries.map Prod.fst)
    (fresh : ∀ item ∈ arranged, item.1 ∈ entries.map Prod.fst → item.1 ∉ seen) :
    ∃ final, Arranged entries seen arranged final ∧
      ∀ item ∈ arranged, item.1 ∈ entries.map Prod.fst → item.1 ∈ final := by
  induction arranged generalizing seen with
  | nil => exact ⟨seen, .done, by simp⟩
  | cons item others inductionHypothesis =>
    obtain ⟨key, variant⟩ := item
    obtain ⟨here, later⟩ := List.forall_mem_cons.mp each
    obtain ⟨freshHere, freshLater⟩ := List.forall_mem_cons.mp fresh
    obtain ⟨onceHere, onceLater⟩ := List.pairwise_cons.mp once
    rcases here with ⟨value, member, varies⟩ | ⟨unknown, scalar⟩
    · have isKey : key ∈ entries.map Prod.fst := List.mem_map_of_mem member
      have stillFresh : ∀ item ∈ others, item.1 ∈ entries.map Prod.fst → item.1 ∉ key :: seen := by
        intro item isLater known isSeen
        rcases List.mem_cons.mp isSeen with same | before
        · exact onceHere item isLater same.symm isKey
        · exact freshLater item isLater known before
      obtain ⟨final, arranges, covers⟩ := inductionHypothesis later onceLater stillFresh
      refine ⟨final, .own member (freshHere isKey) varies arranges, ?_⟩
      exact List.forall_mem_cons.mpr ⟨fun _ => arranges.subset List.mem_cons_self, covers⟩
    · obtain ⟨final, arranges, covers⟩ := inductionHypothesis later onceLater freshLater
      exact ⟨final, .further unknown scalar arranges,
        List.forall_mem_cons.mpr ⟨fun known => absurd known unknown, covers⟩⟩

/-- A variant of an object is read entry by entry, until all entries of the object have come. -/
theorem Varies.exists_arranged {variant : Value} (varies : Varies (.object entries) variant)
    (distinct : (entries.map Prod.fst).Nodup) :
    ∃ arranged final, variant = .object arranged ∧ Arranged entries [] arranged final ∧
      ∀ entry ∈ entries, entry.1 ∈ final := by
  cases varies with
  | single single => cases single
  | @object _ extras arranged varied each further order =>
    have items : ∀ item ∈ arranged, (∃ value, (item.1, value) ∈ entries ∧ Varies value item.2) ∨
        item.1 ∉ entries.map Prod.fst ∧ item.2.IsScalar := by
      intro item member
      rcases List.mem_append.mp (order.mem_iff.mp member) with own | extra
      · obtain ⟨entry, isEntry, rfl⟩ := List.mem_map.mp own
        exact .inl ⟨entry.2, isEntry, each entry isEntry⟩
      · exact .inr (further item extra)
    have once : arranged.Pairwise fun item other =>
        item.1 = other.1 → item.1 ∉ entries.map Prod.fst := by
      refine (order.pairwise_iff ?_).mpr (List.pairwise_append.mpr ⟨?_, ?_, ?_⟩)
      · exact fun apart same => same ▸ apart same.symm
      · refine List.pairwise_map.mpr ((List.pairwise_map.mp distinct).imp ?_)
        exact fun different same => absurd same different
      · exact List.pairwise_of_forall_mem_list fun item member _ _ _ => (further item member).1
      · exact fun item _ extra isExtra same => same ▸ (further extra isExtra).1
    have fresh : ∀ item ∈ arranged, item.1 ∈ entries.map Prod.fst → item.1 ∉ [] := by simp
    obtain ⟨final, arranges, covers⟩ := Json.exists_arranged items once fresh
    refine ⟨arranged, final, rfl, arranges, fun entry member => ?_⟩
    have stands : (entry.1, varied entry) ∈ arranged :=
      order.mem_iff.mpr (List.mem_append_left _ (List.mem_map_of_mem member))
    exact covers (entry.1, varied entry) stands (List.mem_map.mpr ⟨entry, member, rfl⟩)

/-- Before the entries of the object have all come, further entries stand before the next one of
them. -/
theorem Arranged.exists_next (arranges : Arranged entries seen arranged final) {missing : String}
    (comes : missing ∈ final) (notYet : missing ∉ seen) :
    ∃ skipped key value variant others, arranged = skipped ++ (key, variant) :: others ∧
      (∀ extra ∈ skipped, extra.1 ∉ entries.map Prod.fst ∧ extra.2.IsScalar) ∧
      (key, value) ∈ entries ∧ key ∉ seen ∧ Varies value variant ∧
      Arranged entries (key :: seen) others final := by
  induction arranges with
  | done => exact absurd comes notYet
  | own member fresh varies more inductionHypothesis =>
    exact ⟨[], _, _, _, _, rfl, by simp, member, fresh, varies, more⟩
  | @further seen final key extra others unknown scalar more inductionHypothesis =>
    obtain ⟨skipped, found, value, variant, rest, rfl, foreign, next⟩ :=
      inductionHypothesis comes notYet
    exact ⟨(key, extra) :: skipped, found, value, variant, rest, rfl,
      List.forall_mem_cons.mpr ⟨⟨unknown, scalar⟩, foreign⟩, next⟩

/-- When they have all come, only further entries are left. -/
theorem Arranged.all_further (arranges : Arranged entries seen arranged final)
    (complete : ∀ entry ∈ entries, entry.1 ∈ seen) :
    ∀ extra ∈ arranged, extra.1 ∉ entries.map Prod.fst ∧ extra.2.IsScalar := by
  induction arranges with
  | done => simp
  | own member fresh varies more inductionHypothesis =>
    exact absurd (complete _ member) fresh
  | further unknown scalar more inductionHypothesis =>
    exact List.forall_mem_cons.mpr ⟨⟨unknown, scalar⟩, inductionHypothesis complete⟩

end Arranging

/-! ## Reading every variant -/

/-- A reader takes the texts of all variants of a value. -/
def Recovers {Meaning : Type} (read : Reader Meaning) (value : Value) (meaning : Meaning) : Prop :=
  ∀ variant, Varies value variant → Takes read variant meaning

section Recovering

variable {Meaning Result : Type} {read : Reader Meaning} {value variant : Value} {meaning : Meaning}

/-- A value of one token is read from its only variant. -/
theorem Takes.recovers (takes : Takes read value meaning) (single : value.IsSingle) :
    Recovers read value meaning := by
  intro variant varies
  rwa [varies.eq_of_single single]

/-- A value is a variant of itself. -/
theorem Recovers.takes (recovers : Recovers read value meaning) : Takes read value meaning :=
  recovers value (Varies.refl value)

/-- What is read from every variant can be changed. -/
theorem Recovers.map (change : Meaning → Result) (recovers : Recovers read value meaning) :
    Recovers (change <$> read) value (change meaning) :=
  fun variant varies => (recovers variant varies).map change

/-- What is read from every variant may be told with what follows. -/
theorem Recovers.tell {next : Meaning → Reader Result} {result : Result}
    (recovers : Recovers read value meaning) (told : ∀ rest, (next meaning).Reads [] result rest) :
    Recovers (read >>= next) value result :=
  fun variant varies => (recovers variant varies).tell told

/-- A list is read back from each of its variants if its elements are. -/
theorem Recovers.listOf {written : Meaning → Value} {meanings : List Meaning}
    (recovers : ∀ meaning ∈ meanings, Recovers read (written meaning) meaning) :
    Recovers (listOf read) (.list (meanings.map written)) meanings := by
  intro variant varies
  cases varies with
  | single single => cases single
  | @list _ varied each =>
    rw [List.map_map]
    refine Takes.listOf (List.forall₂_map_left_iff.mpr (List.forall₂_same.mpr ?_))
    exact fun meaning member =>
      recovers meaning member _ (each _ (List.mem_map_of_mem member))

/-- A scalar can be read as a value of any shape. -/
theorem Value.IsScalar.fits (scalar : value.IsScalar) (depth : Nat) : Fits (depth + 1) value := by
  obtain ⟨found, means⟩ := scalar.exists_means
  exact .single scalar.isSingle means

/-- The brackets of a variant nest no deeper. -/
theorem Varies.fits (varies : Varies value variant) {depth : Nat} (fits : Fits depth value) :
    Fits depth variant := by
  induction varies generalizing depth with
  | single => exact fits
  | list each inductionHypothesis =>
    cases fits with
    | single single => cases single
    | list fitting =>
      refine .list (List.forall_mem_map.mpr fun element member => ?_)
      exact inductionHypothesis element member (fitting element member)
  | object each further order inductionHypothesis =>
    cases fits with
    | single single => cases single
    | object fitting =>
      refine .object fun item member => ?_
      rcases List.mem_append.mp (order.mem_iff.mp member) with own | extra
      · obtain ⟨entry, isEntry, rfl⟩ := List.mem_map.mp own
        exact inductionHypothesis entry isEntry (fitting entry isEntry)
      · exact (further item extra).2.fits _

end Recovering

end ElmWorkbench.Json
