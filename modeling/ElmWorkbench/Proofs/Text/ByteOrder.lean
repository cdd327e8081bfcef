import ElmWorkbench.Proofs.Text.Utf8
import Mathlib.Data.String.Basic
/-!
# The order of bytes is the order of texts

Of two characters the one with the smaller number is written with the smaller bytes, and the first
byte that tells them apart decides (`encodeChar_lt`). So it does not matter whether texts are
compared by their characters or by the bytes that they are stored as (`encode_lt_encode_iff`).
-/

namespace ElmWorkbench.Utf8

variable {first second : Char} {left right : List Char}

/-- Longer sequences have greater leads, and the bytes of sequences of one length are the digits of
their numbers, the most significant one first. -/
theorem encodeChar_lt (less : first < second) (after behind : Bytes) :
    String.utf8EncodeChar first ++ after < String.utf8EncodeChar second ++ behind := by
  have scalar := scalar_bounds second
  have twice (number : Nat) : number / 4096 = number / 64 / 64 := by omega
  have thrice (number : Nat) : number / 262144 = number / 64 / 64 / 64 := by omega
  have smaller : first.val.toNat < second.val.toNat := less
  rw [String.utf8EncodeChar, String.utf8EncodeChar]
  generalize first.val.toNat = lower at smaller ⊢
  generalize second.val.toNat = upper at smaller scalar ⊢
  split_ifs <;>
    simp (disch := omega) only [List.cons_append, List.nil_append, List.cons_lt_cons_iff,
      UInt8.lt_iff_toNat_lt, ← UInt8.toNat_inj, toNat_ofNat_byte, twice, thrice] <;>
    omega

/-- A text that comes first by its characters comes first by its bytes. -/
theorem encodeChars_lt (less : left < right) : encodeChars left < encodeChars right := by
  induction left generalizing right with
  | nil =>
    cases right with
    | nil => exact absurd less (lt_irrefl _)
    | cons second rest =>
      obtain ⟨byte, bytes, written⟩ :=
        List.exists_cons_of_ne_nil (encodeChars_ne_nil (List.cons_ne_nil second rest))
      rw [written]
      exact List.nil_lt_cons byte bytes
  | cons first rest inductionHypothesis =>
    cases right with
    | nil => exact absurd less (List.not_lt_nil _)
    | cons second others =>
      rw [encodeChars_cons, encodeChars_cons]
      rcases List.cons_lt_cons_iff.mp less with smaller | ⟨rfl, smaller⟩
      · exact encodeChar_lt smaller _ _
      · exact List.append_left_lt (inductionHypothesis smaller)

/-- Texts have the same order by their characters and by their bytes. -/
theorem encodeChars_lt_encodeChars_iff : encodeChars left < encodeChars right ↔ left < right := by
  refine ⟨fun less => ?_, encodeChars_lt⟩
  rcases lt_trichotomy left right with ordered | rfl | reversed
  · exact ordered
  · exact absurd less (List.lt_irrefl _)
  · exact absurd less (List.lt_asymm (encodeChars_lt reversed))

/-- Texts are ordered like their bytes. -/
theorem encode_lt_encode_iff {text other : String} : encode text < encode other ↔ text < other :=
  encodeChars_lt_encodeChars_iff.trans String.lt_iff_toList_lt.symm

/-- Different texts have different bytes. -/
theorem encode_injective : Function.Injective encode := fun text other same => by
  have decoded := decode?_encode text
  rw [same, decode?_encode] at decoded
  exact (Option.some.inj decoded).symm

end ElmWorkbench.Utf8
