import ElmWorkbench.FileSystem.AtomicWrite
import ElmWorkbench.Proofs.FileSystem.Place
import ElmWorkbench.Proofs.Text.Utf8
/-!
# Temporary files

The temporary file for a path lies in the directory that the path names a place in
(`AtomicWrite.names_temporary`): its name is one part, whatever bytes the name of the file has.
-/

namespace ElmWorkbench

namespace Utf8

/-- A text holds an ASCII byte if it has its character. -/
theorem mem_encode_iff {byte : UInt8} (ascii : byte < 0x80) {text : String} :
    byte ∈ encode text ↔ Char.ofNat byte.toNat ∈ text.toList := by
  rw [encode, encodeChars, List.mem_flatMap]
  constructor
  · rintro ⟨value, member, written⟩
    rwa [← (mem_encodeChar_iff ascii).mp written]
  · intro member
    exact ⟨_, member, (mem_encodeChar_iff ascii).mpr rfl⟩

end Utf8

namespace AtomicWrite

variable {path : Path} {opening : Option Path.Component} {upper : List Bytes} {last : Bytes}

/-- The name of the temporary file, as it is stored. -/
def temporaryBytes (processId : Nat) (path : Path) : Bytes :=
  Utf8.encode (temporaryName processId path)

/-- The name of the temporary file is the name of an entry. -/
theorem isName_temporaryBytes (processId : Nat) (path : Path) :
    Path.IsName (temporaryBytes processId path) := by
  have ended : (temporaryBytes processId path).getLast? = some 0x70 := by
    rw [temporaryBytes, temporaryName, Utf8.encode_append, List.getLast?_append]
    rfl
  constructor
  · rw [Path.isVoid, Bool.or_eq_false_iff, decide_eq_false_iff_not, decide_eq_false_iff_not]
    constructor
    · intro empty
      rw [empty] at ended
      cases ended
    · intro here
      rw [here] at ended
      cases ended
  · intro up
    rw [up] at ended
    cases ended

/-- What stands in the name of the temporary file, but for digits, dots and its ending, comes from
the name of the file. -/
theorem exists_fileName_of_mem_temporaryBytes {processId : Nat} {byte : UInt8} (ascii : byte < 0x80)
    (noDigit : (Char.ofNat byte.toNat).isDigit = false)
    (noMark : Char.ofNat byte.toNat ∉ ".tmp".toList)
    (written : byte ∈ temporaryBytes processId path) :
    ∃ name, path.fileName? = some name ∧ byte ∈ name := by
  have foreign : Char.ofNat byte.toNat ∉ processId.repr.toList := by
    rw [Nat.toList_repr]
    intro member
    rw [Nat.isDigit_of_mem_toDigits (by decide) (by decide) member] at noDigit
    cases noDigit
  have noDot : Char.ofNat byte.toNat ∉ ".".toList := fun member =>
    noMark ((by decide : ".".toList ⊆ ".tmp".toList) member)
  rw [temporaryBytes, Utf8.mem_encode_iff ascii, temporaryName,
    show toString processId = processId.repr from rfl] at written
  simp only [String.toList_append, List.mem_append, noDot, noMark, foreign, false_or,
    or_false] at written
  cases found : path.fileName? with
  | none => simp [found] at written
  | some name =>
    rw [found, Option.map_some, Option.getD_some, Utf8.decodeLossy, String.toList_ofList] at written
    have sound : Char.ofNat byte.toNat ≠ Char.ofNat 0xFFFD := by
      intro same
      have single := congrArg List.length (Utf8.encode_ascii ascii)
      rw [same, List.length_singleton] at single
      exact absurd single (by decide)
    refine ⟨name, rfl, Utf8.encodeChar_subset_of_mem_decodeLossy written sound ?_⟩
    rw [Utf8.encode_ascii ascii]
    exact List.mem_singleton_self byte

/-- No separator stands in the name of the temporary file. -/
theorem separator_not_mem_temporaryBytes (processId : Nat) (path : Path) :
    Path.separator ∉ temporaryBytes processId path := by
  intro written
  obtain ⟨name, found, member⟩ :=
    exists_fileName_of_mem_temporaryBytes (by decide) (by decide) (by decide) written
  exact Path.separator_not_mem (Path.mem_parts_of_fileName? found) member

/-- The temporary file of a path that ends with a name is beside what it names. -/
theorem temporary_eq_sibling (ends : path.EndsIn opening upper last) (notUp : last ≠ Path.dotDot)
    (processId : Nat) :
    temporary processId path =
      (Path.assemble opening (Path.trimParts upper)).join ⟨temporaryBytes processId path⟩ := by
  rw [temporary, Path.withFileName, ends.fileName?_eq, if_neg notUp, ends.parent?_eq]
  rfl

/-- The temporary file of a path that ends with `..` is below it. -/
theorem temporary_eq_below (ends : path.EndsIn opening upper Path.dotDot) (processId : Nat) :
    temporary processId path = path.join ⟨temporaryBytes processId path⟩ := by
  rw [temporary, Path.withFileName, ends.fileName?_eq, if_pos rfl]
  rfl

/-- The name of the temporary file is the last part of its path. -/
theorem exists_parts_temporary (processId : Nat) (path : Path) :
    ∃ front, (temporary processId path).parts = front ++ [temporaryBytes processId path] := by
  have cut := separator_not_mem_temporaryBytes processId path
  rw [temporary, Path.withFileName]
  split
  · obtain ⟨front, -, -, -, joined⟩ := Path.exists_parts_join (path.parent?.getD ⟨[]⟩) cut
    exact ⟨front, joined⟩
  · obtain ⟨front, -, -, -, joined⟩ := Path.exists_parts_join path cut
    exact ⟨front, joined⟩

/-! ## The names of temporary files -/

/-- The temporary file has another name than the file itself. -/
theorem temporaryBytes_ne_fileName {path : Path} {name : Bytes} (named : path.fileName? = some name)
    (processId : Nat) : temporaryBytes processId path ≠ name := by
  intro same
  have decoded : Utf8.decodeLossy name = temporaryName processId path := by
    rw [← same]
    exact Utf8.decodeLossy_of_decode? (Utf8.decode?_encode _)
  have longer := congrArg String.length decoded
  rw [temporaryName, named] at longer
  simp only [Option.map_some, Option.getD_some, String.length_append] at longer
  have dotted : ".".length = 1 := rfl
  omega

/-- What stands before the ending of the name of a temporary file, back to the next dot. -/
theorem takeWhile_temporaryName (processId : Nat) (path : Path) :
    ((temporaryName processId path).toList.reverse.drop 4).takeWhile (· ≠ '.') =
      processId.repr.toList.reverse := by
  have digits : ∀ digit ∈ processId.repr.toList.reverse, (digit ≠ '.' : Bool) := by
    intro digit member
    rw [List.mem_reverse, Nat.toList_repr] at member
    have isDigit := Nat.isDigit_of_mem_toDigits (by decide) (by decide) member
    rw [decide_eq_true_eq]
    rintro rfl
    exact absurd isDigit (by decide)
  rw [temporaryName, show toString processId = processId.repr from rfl]
  simp only [String.toList_append, List.reverse_append]
  rw [show ".tmp".toList.reverse = ['p', 'm', 't', '.'] from rfl, show ".".toList = ['.'] from rfl,
    show (4 : Nat) = ['p', 'm', 't', '.'].length from rfl, List.drop_left,
    List.takeWhile_append_of_pos digits]
  simp

/-- Temporary files of different processes have different names. -/
theorem processId_eq_of_temporaryBytes {processId otherId : Nat} {path other : Path}
    (same : temporaryBytes processId path = temporaryBytes otherId other) : processId = otherId := by
  have decoded := congrArg Utf8.decode? same
  rw [temporaryBytes, temporaryBytes, Utf8.decode?_encode, Utf8.decode?_encode] at decoded
  have digits : processId.repr.toList.reverse = otherId.repr.toList.reverse := by
    rw [← takeWhile_temporaryName processId path, Option.some.inj decoded, takeWhile_temporaryName]
  rw [List.reverse_inj, Nat.toList_repr, Nat.toList_repr] at digits
  rw [← Nat.ofDigitChars_ten_toDigits (n := processId), digits, Nat.ofDigitChars_ten_toDigits]

/-! ## The place of the temporary file -/

variable {files : FileSystem} {directory : Location} {links : Nat}

/-- A path and its temporary file start at one location. -/
theorem origin_temporary (ends : path.EndsIn opening upper last) (notUp : last ≠ Path.dotDot)
    (processId : Nat) : files.origin (temporary processId path) = files.origin path := by
  have relative := Path.isAbsolute_of_cut (separator_not_mem_temporaryBytes processId path)
  rw [FileSystem.origin, FileSystem.origin, temporary_eq_sibling ends notUp,
    Path.isAbsolute_join relative, ends.isAbsolute_parent]

/-- The temporary file for a path is named in the directory that the path names a place
in. -/
theorem names_temporary (ends : path.EndsIn opening upper last) (notUp : last ≠ Path.dotDot)
    (reaches : files.Reaches linkLimit (files.origin path) (Path.openingParts opening ++ upper)
      directory links)
    (isDirectory : files.hasDirectory directory) {processId : Nat}
    (limits : FileSystem.checkLimits (temporary processId path) = .ok ()) :
    files.Names (temporary processId path) directory (temporaryBytes processId path) links := by
  obtain ⟨void, whole, meaningless⟩ := Path.exists_void upper
  refine ⟨limits, isName_temporaryBytes processId path,
    ⟨Path.openingParts opening ++ Path.trimParts upper, ?_, ?_⟩, isDirectory⟩
  · rw [temporary_eq_sibling ends notUp,
      ends.parts_sibling (separator_not_mem_temporaryBytes processId path)]
  · rw [origin_temporary ends notUp]
    rw [whole, ← List.append_assoc] at reaches
    exact reaches.dropVoid meaningless

end AtomicWrite

end ElmWorkbench
