import ElmWorkbench.Proofs.Text.Utf8
import ElmWorkbench.Text.LowerCase
/-!
# Words in any letter case

A text whose lower case is a word of plain small letters is that word in some letter case, by the
letters from `A` to `Z` alone (`Text.lower_eq_iff`). No other character is lowered to such a letter,
but for the Kelvin sign, which is lowered to `k`.
-/

namespace ElmWorkbench.Text

/-- A small letter that no character but its capital is lowered to. -/
def IsOwnLetter (letter : Char) : Prop :=
  0x61 ≤ letter.toNat ∧ letter.toNat ≤ 0x7A ∧ letter ≠ 'k'

instance (letter : Char) : Decidable (IsOwnLetter letter) :=
  inferInstanceAs (Decidable (0x61 ≤ letter.toNat ∧ letter.toNat ≤ 0x7A ∧ letter ≠ 'k'))

/-- Only the letters from `A` to `Z` and the Kelvin sign are lowered to letters of ASCII. -/
theorem lowerRuns_cases : ∀ run ∈ lowerRuns,
    (run.first = 0x41 ∧ run.last = 0x5A ∧ run.distance = 32) ∨
      (run.first = 0x212A ∧ run.last = 0x212A ∧ run.distance = -8383) ∨
        (0xC0 ≤ run.first ∧ 0x80 ≤ run.first + run.distance) := by
  decide +kernel

section Characters

variable {character letter : Char}

/-- The small form of an ASCII capital is 32 places further. -/
theorem toLower_of_capital (least : 0x41 ≤ character.toNat) (greatest : character.toNat ≤ 0x5A) :
    character.toLower.toNat = character.toNat + 32 := by
  have bounds : character.val ≥ 'A'.val ∧ character.val ≤ 'Z'.val := ⟨least, greatest⟩
  have sum : (character.val + ('a'.val - 'A'.val)).toNat = character.toNat + 32 := by
    have small : character.val.toNat ≤ 0x5A := greatest
    rw [UInt32.toNat_add]
    change (character.val.toNat + 32) % 4294967296 = character.val.toNat + 32
    omega
  exact (congrArg Char.toNat (dif_pos bounds : character.toLower = _)).trans sum

/-- No other character has another small form in ASCII. -/
theorem toLower_of_other (other : ¬ (0x41 ≤ character.toNat ∧ character.toNat ≤ 0x5A)) :
    character.toLower = character :=
  dif_neg other

/-- A character by its number, which is zero for a number of no character. -/
theorem toNat_ofNat_cases (number : Nat) :
    (Char.ofNat number).toNat = number ∨ (Char.ofNat number).toNat = 0 := by
  by_cases valid : number.isValidChar
  · exact .inl (Utf8.toNat_ofNat number valid)
  · rw [Char.ofNat, dif_neg valid]
    exact .inr rfl

/-- An ASCII capital is lowered as in ASCII. -/
theorem lowerChar_of_capital (least : 0x41 ≤ character.toNat) (greatest : character.toNat ≤ 0x5A) :
    lowerChar character = [character.toLower] := by
  have lowered : Char.ofNat (character.toNat + 32) = character.toLower := by
    refine Char.toNat_inj.mp ?_
    rw [toLower_of_capital least greatest]
    exact Utf8.toNat_ofNat _ (by simp only [Nat.isValidChar]; omega)
  have sum : ((character.toNat : Int) + 32).toNat = character.toNat + 32 := by omega
  rw [lowerChar, lowerRuns, List.find?_cons_of_pos (by simp [least, greatest, Nat.mod_one]),
    if_neg (by omega)]
  exact List.singleton_inj.mpr (sum.symm ▸ lowered)

/-- A small ASCII letter is not changed. -/
theorem lowerChar_of_small (least : 0x61 ≤ character.toNat) (greatest : character.toNat ≤ 0x7A) :
    lowerChar character = [character] := by
  have none : lowerRuns.find? (fun run => run.first ≤ character.toNat &&
      character.toNat ≤ run.last && (character.toNat - run.first) % run.step = 0) = none := by
    refine List.find?_eq_none.mpr fun run member inside => ?_
    simp only [Bool.and_eq_true, decide_eq_true_eq] at inside
    rcases lowerRuns_cases run member with capital | kelvin | far <;> omega
  rw [lowerChar, none]
  exact if_neg (by omega)

/-- A character is lowered to a plain small letter exactly if it is that letter or its capital. -/
theorem lowerChar_eq_iff (own : IsOwnLetter letter) :
    lowerChar character = [letter] ↔ character.toLower = letter := by
  obtain ⟨least, greatest, notKelvin⟩ := own
  constructor
  · intro lowered
    rw [lowerChar] at lowered
    split at lowered
    · cases lowered
    · split at lowered
      · next run found =>
        have member := List.mem_of_find?_eq_some found
        have inside := List.find?_some found
        simp only [Bool.and_eq_true, decide_eq_true_eq] at inside
        obtain rfl := List.singleton_inj.mp lowered
        rcases lowerRuns_cases run member with ⟨first, last, distance⟩ |
          ⟨first, last, distance⟩ | ⟨far, distance⟩
        · rw [← List.singleton_inj, ← lowerChar_of_capital (by omega) (by omega), lowerChar,
            if_neg (by omega), found]
        · have isKelvin : (↑character.toNat + run.distance).toNat = 0x6B := by omega
          exact absurd (by rw [isKelvin]) notKelvin
        · rcases toNat_ofNat_cases (↑character.toNat + run.distance).toNat with same | zero <;>
            omega
      · obtain rfl := List.singleton_inj.mp lowered
        exact toLower_of_other (by omega)
  · intro lowered
    by_cases capital : 0x41 ≤ character.toNat ∧ character.toNat ≤ 0x5A
    · rw [lowerChar_of_capital capital.1 capital.2, lowered]
    · rw [toLower_of_other capital] at lowered
      rw [lowered]
      exact lowerChar_of_small least greatest

/-- All characters but one are lowered to one character. -/
theorem lowerChar_cases (character : Char) :
    (∃ lowered, lowerChar character = [lowered]) ∨
      character.toNat = 0x130 ∧ lowerChar character = ['i', Char.ofNat 0x307] := by
  rw [lowerChar]
  split
  · next dotted => exact .inr ⟨dotted, rfl⟩
  · split <;> exact .inl ⟨_, rfl⟩

/-- No letter far from ASCII is meant. -/
theorem not_isOwnLetter (far : 0x7A < character.toNat) : ¬ IsOwnLetter character :=
  fun own => absurd own.2.1 (by omega)

/-- Characters behind the letters of ASCII have no small form in it. -/
theorem toLower_of_far (far : 0x7A < character.toNat) : character.toLower = character :=
  toLower_of_other (by omega)

end Characters

/-- A text is lowered to a word of such letters just if ASCII lowering takes it there. -/
theorem lowerAfter_eq_iff {before characters word : List Char}
    (owns : ∀ letter ∈ word, IsOwnLetter letter) :
    lowerAfter before characters = word ↔ characters.map Char.toLower = word := by
  induction characters generalizing before word with
  | nil => rfl
  | cons character rest inductionHypothesis =>
    rw [lowerAfter, List.map_cons]
    cases word with
    | nil =>
      refine iff_of_false (fun empty => ?_) (by simp)
      have nothing := (List.append_eq_nil_iff.mp empty).1
      split at nothing
      · split at nothing <;> cases nothing
      · rcases lowerChar_cases character with ⟨lowered, single⟩ | ⟨-, dotted⟩ <;> simp_all
    | cons letter word =>
      obtain ⟨own, owns⟩ := List.forall_mem_cons.mp owns
      -- A sigma and a dotted capital are lowered to characters that no plain word holds.
      have stays (far : 0x7A < character.toNat) : ¬ character.toLower = letter := by
        rw [toLower_of_far far]
        rintro rfl
        exact not_isOwnLetter far own
      by_cases sigma : character = 'Σ'
      · have far : 0x7A < character.toNat := by rw [sigma]; decide
        refine iff_of_false (fun lowered => ?_) fun same => stays far (List.cons.inj same).1
        rw [if_pos sigma] at lowered
        split at lowered <;>
          exact not_isOwnLetter (by decide) ((List.cons.inj lowered).1 ▸ own)
      · rw [if_neg sigma]
        rcases lowerChar_cases character with ⟨lowered, single⟩ | ⟨dotted, double⟩
        · rw [single, List.singleton_append, List.cons.injEq, List.cons.injEq,
            inductionHypothesis owns, ← lowerChar_eq_iff own, single, List.singleton_inj]
        · refine iff_of_false (fun lowered => ?_) fun same =>
            stays (by omega) (List.cons.inj same).1
          rw [double] at lowered
          have combining : Char.ofNat 0x307 ∈ word :=
            (List.cons.inj lowered).2 ▸ List.mem_cons_self
          exact not_isOwnLetter (by decide) (owns _ combining)

/-- The lower case of a text is a plain word exactly if the text is that word in some letter
case. -/
theorem lower_eq_iff {text word : String} (owns : ∀ letter ∈ word.toList, IsOwnLetter letter) :
    lower text = word ↔ text.toList.map Char.toLower = word.toList := by
  rw [lower, ← String.toList_inj, String.toList_ofList, lowerAfter_eq_iff owns]

end ElmWorkbench.Text
