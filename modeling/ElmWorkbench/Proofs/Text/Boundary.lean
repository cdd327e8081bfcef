import ElmWorkbench.Proofs.Text.Utf8
/-!
# Where characters begin

The first byte of a character is told from the others (`Utf8.encodeChar_shape`), so UTF-8 can be cut
before every character that stands in it, and both parts are UTF-8 again
(`Utf8.isSome_decode?_around`).
-/

namespace ElmWorkbench.Utf8

variable {first second : Bytes}

/-- Bytes are UTF-8 if they are those of some characters. -/
theorem isSome_decode?_iff {bytes : Bytes} :
    (decode? bytes).isSome ↔ ∃ characters, encodeChars characters = bytes := by
  rw [decode?, Option.isSome_map, Option.isSome_iff_exists]
  exact exists_congr fun characters => decodeChars?_eq_some_iff

/-- What consists of two texts in UTF-8 is UTF-8. -/
theorem isSome_decode?_append (firstIsText : (decode? first).isSome)
    (secondIsText : (decode? second).isSome) : (decode? (first ++ second)).isSome := by
  obtain ⟨front, rfl⟩ := isSome_decode?_iff.mp firstIsText
  obtain ⟨back, rfl⟩ := isSome_decode?_iff.mp secondIsText
  exact isSome_decode?_iff.mpr ⟨front ++ back, encodeChars_append front back⟩

/-- Bytes below `0x80` are characters by themselves. -/
theorem isSome_decode?_of_ascii {bytes : Bytes} (ascii : ∀ byte ∈ bytes, byte < 0x80) :
    (decode? bytes).isSome := by
  refine isSome_decode?_iff.mpr ⟨bytes.map fun byte => Char.ofNat byte.toNat, ?_⟩
  induction bytes with
  | nil => rfl
  | cons byte others inductionHypothesis =>
    obtain ⟨here, later⟩ := List.forall_mem_cons.mp ascii
    rw [List.map_cons, encodeChars_cons, inductionHypothesis later, encode_ascii here]
    rfl

/-- Of the bytes of a character only the first is no continuation. -/
theorem encodeChar_shape (value : Char) :
    ∃ lead others, String.utf8EncodeChar value = lead :: others ∧ ¬ isContinuation lead ∧
      ∀ byte ∈ others, isContinuation byte := by
  have scalar := scalar_bounds value
  rw [String.utf8EncodeChar]
  generalize value.val.toNat = number at scalar ⊢
  have continues (part : Nat) (small : part < 64) : isContinuation (UInt8.ofNat (part + 0x80)) := by
    have same := toNat_ofNat_byte (part + 0x80) (by omega)
    exact isContinuation_iff.mpr (by omega)
  have leads (part : Nat) (bound : part < 0x80 ∨ 0xC0 ≤ part ∧ part < 256) :
      ¬ isContinuation (UInt8.ofNat part) := by
    have same := toNat_ofNat_byte part (by omega)
    rw [isContinuation_iff]
    omega
  split_ifs with one two three
  · exact ⟨_, _, rfl, leads number (.inl (by omega)), List.forall_mem_nil _⟩
  · refine ⟨_, _, rfl, leads _ (.inr (by omega)), ?_⟩
    exact List.forall_mem_singleton.mpr (continues _ (by omega))
  · refine ⟨_, _, rfl, leads _ (.inr (by omega)), ?_⟩
    exact List.forall_mem_cons.mpr
      ⟨continues _ (by omega), List.forall_mem_singleton.mpr (continues _ (by omega))⟩
  · refine ⟨_, _, rfl, leads _ (.inr (by omega)), ?_⟩
    exact List.forall_mem_cons.mpr ⟨continues _ (by omega), List.forall_mem_cons.mpr
      ⟨continues _ (by omega), List.forall_mem_singleton.mpr (continues _ (by omega))⟩⟩

/-- Characters are told from their bytes one after the other. -/
theorem encodeChars_cons_inj {value : Char} {characters : List Char} {rest : Bytes}
    (same : encodeChars characters = String.utf8EncodeChar value ++ rest) :
    ∃ others, characters = value :: others ∧ encodeChars others = rest := by
  have cut := pieces_encodeChars characters
  rw [same, pieces, piecesAfter_encodeChar] at cut
  obtain ⟨first, others, rfl, isValue, -⟩ := List.map_eq_cons_iff.mp cut.symm
  obtain rfl : first = value := Piece.character.inj isValue
  rw [encodeChars_cons] at same
  exact ⟨others, rfl, List.append_cancel_left same⟩

/-- What stands before and behind a character in UTF-8 is UTF-8. -/
theorem isSome_decode?_around {value : Char}
    (whole : (decode? (first ++ (String.utf8EncodeChar value ++ second))).isSome) :
    (decode? first).isSome ∧ (decode? second).isSome := by
  obtain ⟨characters, written⟩ := isSome_decode?_iff.mp whole
  induction characters generalizing first with
  | nil =>
    obtain ⟨lead, others, shape, -⟩ := encodeChar_shape value
    simp [encodeChars, shape] at written
  | cons character characters inductionHypothesis =>
    cases first with
    | nil =>
      obtain ⟨others, -, rest⟩ := encodeChars_cons_inj written
      exact ⟨by decide, isSome_decode?_iff.mpr ⟨others, rest⟩⟩
    | cons begin first =>
      have single : (decode? (String.utf8EncodeChar character)).isSome :=
        isSome_decode?_iff.mpr ⟨[character], List.flatMap_singleton ..⟩
      rw [encodeChars_cons] at written
      rcases List.append_eq_append_iff.mp written with ⟨further, shape, rest⟩ | ⟨inner, shape, rest⟩
      · obtain ⟨furtherIsText, secondIsText⟩ :=
          inductionHypothesis (isSome_decode?_iff.mpr ⟨characters, rest⟩) rest
        exact ⟨shape ▸ isSome_decode?_append single furtherIsText, secondIsText⟩
      · cases inner with
        | nil =>
          obtain ⟨others, -, written⟩ := encodeChars_cons_inj rest.symm
          rw [List.append_nil] at shape
          exact ⟨shape ▸ single, isSome_decode?_iff.mpr ⟨others, written⟩⟩
        | cons byte inner =>
          -- A character that began inside another one would begin with a continuation.
          obtain ⟨lead, others, isLead, notContinuation, -⟩ := encodeChar_shape value
          obtain ⟨_, after, isCharacter, -, continuations⟩ := encodeChar_shape character
          rw [isLead] at rest
          obtain rfl : lead = byte := (List.cons.inj rest).1
          rw [isCharacter] at shape
          refine absurd (continuations lead ?_) notContinuation
          rw [(List.cons.inj shape).2]
          simp

end ElmWorkbench.Utf8
