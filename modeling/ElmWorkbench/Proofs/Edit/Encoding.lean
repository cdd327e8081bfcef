import ElmWorkbench.Edit.Encoding
import ElmWorkbench.Proofs.Json.Message
/-!
# Edits are read back

Positions, ranges and edits are read back from what they are written as, and from every variant of
it: the keys of their objects may stand in any order, blanks may stand between the tokens, and
further keys are skipped (`Edit.recovers`). Writing leaves nothing of an edit out, so every edit is
read back from its own text (`Edit.ofJson_bytes`).
-/

namespace ElmWorkbench

open Json (Fills Fits Reader Recovers Takes Value Varies given given_of_fresh given_of_mem
  given_other given_self)

namespace Position

/-- What has been read of a position. -/
def soFar (position : Position) (seen : List String) : Draft where
  line := given "line" position.line seen
  column := given "column" position.column seen

/-- A position is read back. -/
theorem recovers (passage : Json.Passage) (position : Position) :
    Recovers (Position.read passage) position.toJson position := by
  have fills : Fills shape.fields position.soFar
      [("line", .integer position.line.toNat), ("column", .integer position.column.toNat)] := by
    refine ⟨rfl, List.forall_mem_cons.mpr ⟨?_, List.forall_mem_singleton.mpr ?_⟩⟩
    · refine ⟨_, rfl, fun seen fresh =>
        ⟨?_, ((Takes.count position.line).recovers trivial).fill ?_⟩⟩
      · simp [soFar, given_of_fresh fresh]
      · simp [soFar, given_self, given_other]
    · refine ⟨_, rfl, fun seen fresh =>
        ⟨?_, ((Takes.count position.column).recovers trivial).fill ?_⟩⟩
      · simp [soFar, given_of_fresh fresh]
      · simp [soFar, given_self, given_other]
  refine fills.recovers (by decide) rfl (fun seen covers => ?_) rfl
  simp only [List.forall_mem_cons] at covers
  simp only [shape, soFar, given_of_mem covers.1, given_of_mem covers.2.1]
  rfl

/-- A position nests two brackets deep. -/
theorem fits (position : Position) (depth : Nat) : Fits (depth + 2) position.toJson := by
  refine .object (List.forall_mem_cons.mpr ⟨?_, List.forall_mem_singleton.mpr ?_⟩)
  · exact .single trivial (Json.means_count position.line)
  · exact .single trivial (Json.means_count position.column)

end Position

namespace Range

/-- The ends of a range are in order, so they make it again. -/
theorem make_eq_ok (range : Range) : make range.first range.last = .ok range :=
  dif_pos range.ordered

/-- What has been read of the ends of a range. -/
def soFar (range : Range) (seen : List String) : Draft where
  first := given "from" range.first seen
  last := given "to" range.last seen

/-- A range is read back: its ends are in order. -/
theorem recovers (range : Range) : Recovers read range.toJson range := by
  have fills : Fills shape.fields range.soFar
      [("from", range.first.toJson), ("to", range.last.toJson)] := by
    refine ⟨rfl, List.forall_mem_cons.mpr ⟨?_, List.forall_mem_singleton.mpr ?_⟩⟩
    · refine ⟨_, rfl, fun seen fresh => ⟨?_, (range.first.recovers .direct).fill ?_⟩⟩
      · simp [soFar, given_of_fresh fresh]
      · simp [soFar, given_self, given_other]
    · refine ⟨_, rfl, fun seen fresh => ⟨?_, (range.last.recovers .direct).fill ?_⟩⟩
      · simp [soFar, given_of_fresh fresh]
      · simp [soFar, given_self, given_other]
  have ends : Recovers (Reader.record .direct shape) range.toJson (range.first, range.last) := by
    refine fills.recovers (by decide) rfl (fun seen covers => ?_) rfl
    simp only [List.forall_mem_cons] at covers
    simp only [shape, soFar, given_of_mem covers.1, given_of_mem covers.2.1]
    rfl
  refine ends.tell fun rest => ?_
  simp only [make_eq_ok]
  exact Reader.reads_pure range rest

end Range

namespace Edit

/-- What has been read of an edit. -/
def soFar (edit : Edit) (seen : List String) : Draft where
  range := given "range" edit.range seen
  replacement := given "replacement" edit.replacement seen

/-- An edit is read back from every variant of what it is written as. -/
theorem recovers (edit : Edit) : Recovers (Reader.record .direct shape) edit.toJson edit := by
  have fills : Fills shape.fields edit.soFar
      [("range", edit.range.toJson), ("replacement", .text edit.replacement)] := by
    refine ⟨rfl, List.forall_mem_cons.mpr ⟨?_, List.forall_mem_singleton.mpr ?_⟩⟩
    · refine ⟨_, rfl, fun seen fresh => ⟨?_, edit.range.recovers.fill ?_⟩⟩
      · simp [soFar, given_of_fresh fresh]
      · simp [soFar, given_self, given_other]
    · refine ⟨_, rfl, fun seen fresh =>
        ⟨?_, ((Takes.text _ edit.replacement).recovers trivial).fill ?_⟩⟩
      · simp [soFar, given_of_fresh fresh]
      · simp [soFar, given_self, given_other]
  refine fills.recovers (by decide) rfl (fun seen covers => ?_) rfl
  simp only [List.forall_mem_cons] at covers
  simp only [shape, soFar, given_of_mem covers.1, given_of_mem covers.2.1]
  rfl

/-- An edit is decoded from every text of every variant of it. -/
theorem ofJson_of_varies {edit : Edit} {variant : Value} (varies : Varies edit.toJson variant)
    {bytes : Bytes} (spells : variant.Spells bytes) : ofJson bytes = .ok edit :=
  (edit.recovers variant varies).runWhole spells

/-- An edit holds no path, so it is written in full. -/
theorem complete_toJson (edit : Edit) : edit.toJson.compact.complete := by
  rw [Value.compact, Value.write_complete_iff]
  intro path holds
  simp [toJson, Range.toJson, Position.toJson] at holds

/-- An edit is decoded from the text that it is written as. -/
theorem ofJson_bytes (edit : Edit) : ofJson edit.toJson.bytes = .ok edit :=
  ofJson_of_varies (.refl _) (Value.spells_bytes edit.complete_toJson)

end Edit

end ElmWorkbench
