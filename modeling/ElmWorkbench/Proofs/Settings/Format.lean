import ElmWorkbench.Proofs.Text.Control
import ElmWorkbench.Proofs.Text.LowerCase
import ElmWorkbench.Settings.File
/-!
# Formats of settings files

The format of a file is told by its extension in any letter case (`DataFormat.ofPath_eq_ok_iff`).
-/

namespace ElmWorkbench

namespace Utf8

/-- Without a replacement character, what is shown are the characters themselves. -/
theorem mapM_character?_of_sound {cut : List Piece}
    (sound : Char.ofNat 0xFFFD ∉ cut.map Piece.shown) :
    cut.mapM Piece.character? = some (cut.map Piece.shown) := by
  induction cut with
  | nil => rfl
  | cons piece others inductionHypothesis =>
    rw [List.map_cons, List.mem_cons, not_or] at sound
    cases piece with
    | damaged bytes => exact absurd rfl sound.1
    | character value =>
      rw [List.mapM_cons, inductionHypothesis sound.2]
      rfl

/-- Bytes that are shown without a replacement character are a text. -/
theorem encode_decodeLossy_of_sound {bytes : Bytes}
    (sound : Char.ofNat 0xFFFD ∉ (decodeLossy bytes).toList) :
    encode (decodeLossy bytes) = bytes := by
  rw [decodeLossy, String.toList_ofList] at sound
  refine decode?_eq_some_iff.mp ?_
  rw [decode?, decodeChars?, mapM_character?_of_sound sound]
  rfl

end Utf8

/-- The last component of a path has an extension that is a word in some letter case. -/
def Path.HasExtension (path : Path) (word : String) : Prop :=
  ∃ text : String, path.extension? = some (Utf8.encode text) ∧
    text.toList.map Char.toLower = word.toList

namespace DataFormat

/-- The extensions of the files of a format. -/
def extensions : DataFormat → List String
  | .toml => ["toml"]
  | .json => ["json"]
  | .yaml => ["yaml", "yml"]

/-- No other characters are lowered to the letters of the extensions. -/
theorem isOwnLetter_of_extension {format : DataFormat} {word : String}
    (told : word ∈ format.extensions) : ∀ letter ∈ word.toList, Text.IsOwnLetter letter := by
  revert word
  cases format <;> decide

/-- An extension tells the format that has it. -/
theorem ofExtension?_eq_some_iff {extension : String} {format : DataFormat} :
    ofExtension? extension = some format ↔ extension ∈ format.extensions := by
  rw [ofExtension?]
  split_ifs with toml json yaml
  · subst toml
    cases format <;> decide
  · subst json
    cases format <;> decide
  · rw [Bool.or_eq_true, decide_eq_true_eq, decide_eq_true_eq] at yaml
    rcases yaml with rfl | rfl <;> cases format <;> decide
  · cases format <;> simp_all [extensions]

variable {path : Path} {format : DataFormat}

/-- The extension of a path as it is compared with those of the formats. -/
theorem lower_extension_eq_iff {word : String} (told : word ∈ format.extensions) :
    Text.lower ((path.extension?.map Utf8.decodeLossy).getD "") = word ↔
      path.HasExtension word := by
  have owns := isOwnLetter_of_extension told
  rw [Text.lower_eq_iff owns]
  cases found : path.extension? with
  | none =>
    have nonempty : word.toList ≠ [] := by
      revert word
      cases format <;> decide
    exact iff_of_false nonempty.symm (by simp [Path.HasExtension, found])
  | some bytes =>
    constructor
    · intro same
      rw [Option.map_some, Option.getD_some] at same
      have sound : Char.ofNat 0xFFFD ∉ (Utf8.decodeLossy bytes).toList := by
        intro member
        have letter := owns _ (same ▸ List.mem_map_of_mem member)
        exact absurd letter (by decide)
      exact ⟨_, found.trans (congrArg some (Utf8.encode_decodeLossy_of_sound sound).symm), same⟩
    · rintro ⟨text, isText, same⟩
      rw [found, Option.some.injEq] at isText
      rw [Option.map_some, Option.getD_some, isText,
        Utf8.decodeLossy_of_decode? (Utf8.decode?_encode text), same]

/-- A path tells the format of its extension, in any letter case. -/
theorem ofPath_eq_ok_iff :
    ofPath path = .ok format ↔ ∃ word ∈ format.extensions, path.HasExtension word := by
  have told : ofPath path = .ok format ↔
      Text.lower ((path.extension?.map Utf8.decodeLossy).getD "") ∈ format.extensions := by
    rw [← ofExtension?_eq_some_iff, ofPath]
    split
    · next found => rw [found, Except.ok.injEq, Option.some.injEq]
    · next unknown => simp [unknown]
  rw [told]
  constructor
  · intro member
    exact ⟨_, member, (lower_extension_eq_iff member).mp rfl⟩
  · rintro ⟨word, member, has⟩
    rwa [(lower_extension_eq_iff member).mpr has]

/-- A file with another extension has no format. -/
theorem exists_ofPath_eq_error
    (unknown : ∀ format : DataFormat, ∀ word ∈ format.extensions, ¬ path.HasExtension word) :
    ∃ extension, ofPath path = .error (.formatUnknown extension) := by
  cases found : ofPath path with
  | ok format =>
    obtain ⟨word, member, has⟩ := ofPath_eq_ok_iff.mp found
    exact absurd has (unknown format word member)
  | error error =>
    rw [ofPath] at found
    split at found
    · cases found
    · exact ⟨_, congrArg Except.error (Except.error.inj found).symm⟩

end DataFormat

end ElmWorkbench
