/-!
# Control characters

The characters without a shape of their own, which a text in a file system is hardly ever meant to
hold: those before the blank, and those from U+007F to U+009F.
-/

namespace ElmWorkbench.Text

/-- A control character of Unicode. -/
def IsControl (character : Char) : Prop :=
  character.toNat < 0x20 ∨ 0x7F ≤ character.toNat ∧ character.toNat ≤ 0x9F

instance (character : Char) : Decidable (IsControl character) :=
  inferInstanceAs (Decidable (_ ∨ _))

/-- What holds of the characters of a list is decided by looking at these. The instance goes before
one of the library that looks at all the characters there are. -/
instance (priority := 1100) decidableForallMem (characters : List Char) (holds : Char → Prop)
    [DecidablePred holds] : Decidable (∀ character ∈ characters, holds character) :=
  List.decidableBAll holds characters

/-- Characters of which none is a control character. -/
def AreSolid (characters : List Char) : Prop :=
  ∀ character ∈ characters, ¬ IsControl character

instance (characters : List Char) : Decidable (AreSolid characters) :=
  inferInstanceAs (Decidable (∀ character ∈ characters, ¬ IsControl character))

end ElmWorkbench.Text
