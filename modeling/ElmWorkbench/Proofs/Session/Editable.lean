import ElmWorkbench.Proofs.FileSystem.Effect
import ElmWorkbench.Proofs.Session.Replacement
import ElmWorkbench.Proofs.Text.Boundary
/-!
# Files that can be edited

A file is edited by way of a temporary file beside it, whose name is that of the file with marks and
the number of the process around it. So an edit needs more than a file that holds text and has the
lines of the edit: the longer name and its path have to be legal too (`AtomicWrite.HasRoom`). That is
all it needs (`edits_come_out_iff`), and a file with a long name can be read but not edited
(`long_name_refuses_edits`).
-/

namespace ElmWorkbench

/-! ## Room for the temporary file -/

namespace Path

variable {path other : Path} {byte : UInt8}

/-- The bytes of a joined path are those of both paths and the separator. -/
theorem mem_bytes_join (member : byte ∈ (path.join other).bytes) :
    byte ∈ path.bytes ∨ byte = separator ∨ byte ∈ other.bytes := by
  rw [join] at member
  split at member
  · exact .inr (.inr member)
  · split at member
    · exact (List.mem_append.mp member).imp_right .inr
    · exact (List.mem_append.mp member).imp_right List.mem_cons.mp

end Path

namespace AtomicWrite

variable {files : FileSystem} {path : Path} {name : Bytes} {processId : Nat}

/-- The temporary file for a path to a file with the given name can have its own name and path. -/
structure HasRoom (processId : Nat) (path : Path) (name : Bytes) : Prop where
  name : (Utf8.encode (Utf8.decodeLossy name)).length + (Nat.toDigits 10 processId).length + 6 ≤
    nameLimit
  path : (temporary processId path).bytes.length < pathLimit

/-- A number is written with as many bytes as it has digits. -/
theorem length_encode_repr (number : Nat) :
    (Utf8.encode number.repr).length = (Nat.toDigits 10 number).length := by
  have single : ∀ digit ∈ Nat.toDigits 10 number, (String.utf8EncodeChar digit).length = 1 := by
    intro digit member
    have isDigit := Nat.isDigit_of_mem_toDigits (by decide) (by decide) member
    have bounds : 48 ≤ digit.toNat ∧ digit.toNat ≤ 57 := by
      simpa [Char.isDigit, UInt32.le_iff_toNat_le] using isDigit
    have small : digit.val.toNat ≤ 127 := bounds.2.trans (by decide)
    rw [String.utf8EncodeChar, if_pos small, List.length_singleton]
  rw [Utf8.encode, Nat.toList_repr, Utf8.encodeChars, List.length_flatMap,
    List.map_congr_left single]
  simp

/-- The name of the temporary file is longer than the name of the file by its marks and the
process. -/
theorem length_temporaryBytes (named : path.fileName? = some name) :
    (temporaryBytes processId path).length =
      (Utf8.encode (Utf8.decodeLossy name)).length + (Nat.toDigits 10 processId).length + 6 := by
  have mark : (Utf8.encode ".").length = 1 := rfl
  have ending : (Utf8.encode ".tmp").length = 4 := rfl
  have digits := length_encode_repr processId
  rw [temporaryBytes, temporaryName, named, Option.map_some, Option.getD_some,
    show toString processId = processId.repr from rfl]
  simp only [Utf8.encode_append, List.length_append]
  omega

/-- No zero byte comes into the path of the temporary file. -/
theorem zero_not_mem_temporary (noZero : 0 ∉ path.bytes) :
    0 ∉ (temporary processId path).bytes := by
  have notInName : 0 ∉ temporaryBytes processId path := by
    intro written
    obtain ⟨name, found, member⟩ :=
      exists_fileName_of_mem_temporaryBytes (by decide) (by decide) (by decide) written
    exact noZero (Path.subset_of_mem_parts (Path.mem_parts_of_fileName? found) member)
  have joined {directory : Path} (clean : 0 ∉ directory.bytes) :
      0 ∉ (directory.join ⟨temporaryBytes processId path⟩).bytes := by
    intro member
    rcases Path.mem_bytes_join member with above | isSeparator | inName
    · exact clean above
    · exact absurd isSeparator (by decide)
    · exact notInName inName
  rw [temporary, Path.withFileName]
  split
  · refine joined ?_
    cases found : path.parent? with
    | none => exact List.not_mem_nil
    | some parent => exact fun member => noZero ((Path.bytes_prefix_of_parent? found).subset member)
  · exact joined noZero

/-- No process has room for the temporary file of a file whose name is a text of seven bytes less than
the limit or more. -/
theorem not_hasRoom_of_long (isText : (Utf8.decode? name).isSome)
    (long : nameLimit < name.length + 7) : ¬ HasRoom processId path name := by
  intro room
  obtain ⟨text, decoded⟩ := Option.isSome_iff_exists.mp isText
  have fits := room.name
  rw [Utf8.decodeLossy_of_decode? decoded, Utf8.decode?_eq_some_iff.mp decoded] at fits
  have digits : 0 < (Nat.toDigits 10 processId).length :=
    List.length_pos_of_ne_nil Nat.toDigits_ne_nil
  omega

/-- Only its length can make the path of the temporary file illegal. -/
theorem checkLimits_temporary_iff (limits : FileSystem.checkLimits path = .ok ()) :
    FileSystem.checkLimits (temporary processId path) = .ok () ↔
      (temporary processId path).bytes.length < pathLimit := by
  obtain ⟨noZero, -, -⟩ := FileSystem.checkLimits_eq_ok_iff.mp limits
  have filled : (temporary processId path).bytes ≠ [] := by
    intro empty
    obtain ⟨front, parts⟩ := exists_parts_temporary processId path
    have notVoid := (isName_temporaryBytes processId path).notVoid
    rw [Path.parts, empty, List.splitOn_nil] at parts
    obtain ⟨-, same⟩ := List.append_eq_singleton_iff.mp parts.symm |>.resolve_right (by simp)
    rw [List.singleton_inj.mp same] at notVoid
    cases notVoid
  rw [FileSystem.checkLimits_eq_ok_iff]
  exact ⟨fun accepted => accepted.2.2, fun short => ⟨zero_not_mem_temporary noZero, filled, short⟩⟩

/-! ## Writing -/

/-- There is nothing to prepare where the directory of a path exists. -/
theorem prepare_eq {opening : Option Path.Component} {upper : List Bytes} {last : Bytes}
    {directory : Location} {links : Nat} (ends : path.EndsIn opening upper last)
    (limits : FileSystem.checkLimits path = .ok ())
    (reaches : files.Reaches linkLimit (files.origin path) (Path.openingParts opening ++ upper)
      directory links)
    (isDirectory : files.hasDirectory directory) : prepare path files = (.ok (), files) := by
  have found := ends.parent?_eq
  rw [prepare, found]
  by_cases empty : (Path.assemble opening (Path.trimParts upper)).bytes = []
  · simp only [if_pos empty]
    rfl
  · have leads := reaches_parent ends reaches isDirectory
    simp only [if_neg empty]
    exact Attempt.createDirectories_of_isDirectory empty (FileSystem.isDirectory_iff_leads.mpr
      ⟨directory, links, ⟨FileSystem.checkLimits_parent limits found empty, leads⟩, isDirectory⟩)

/-- A file with a name is replaced if there is room for the temporary file. -/
theorem write_eq_ok_iff {old : Bytes} {mode : Nat} (looked : files.stat path = .ok (.file old mode))
    (named : path.fileName? = some name) (free : files.IsFree (temporary processId path))
    (contents : Bytes) :
    (write processId path contents files).1 = .ok () ↔ HasRoom processId path name := by
  obtain ⟨final, left, leads, found⟩ := FileSystem.exists_leads_of_stat looked
  obtain ⟨front, last, directory, links, parts, notVoid, upperReaches, reaches⟩ :=
    leads.exists_last found
  obtain ⟨opening, upper, ends, rfl⟩ := Path.EndsIn.exists_of_parts parts notVoid
  have notUp : last ≠ Path.dotDot := by
    intro up
    rw [ends.fileName?_eq, if_pos up] at named
    cases named
  have room : HasRoom processId path name ↔
      FileSystem.checkLimits (temporary processId path) = .ok () ∧
        (temporaryBytes processId path).length ≤ nameLimit := by
    rw [checkLimits_temporary_iff leads.limits, length_temporaryBytes named]
    exact ⟨fun room => ⟨room.path, room.name⟩, fun ⟨path, name⟩ => ⟨name, path⟩⟩
  rw [write, Attempt.bind_of_ok (prepare_eq ends leads.limits upperReaches reaches.hasDirectory),
    room]
  constructor
  · intro done
    by_contra unaccepted
    obtain ⟨cause, refused⟩ := overwrite_unaccepted ends notUp upperReaches free
      reaches.hasDirectory unaccepted contents
    rw [cleaningUp_of_overwrite_error free.isBare refused] at done
    cases done
  · rintro ⟨limits, short⟩
    obtain ⟨after, replaced, -, -⟩ :=
      replace_beside ends notUp upperReaches free leads found reaches limits short contents
    rw [cleaningUp_of_ok replaced]

end AtomicWrite

/-! ## Edits -/

section Edits

variable {files : FileSystem} {path : Path} {name : Bytes} {processId : Nat} {content : String}

/-- A splice of a file comes out if its line is in the file and the temporary file has room. -/
theorem spliceFile_eq_ok_iff (splice : Splice) (holds : files.HoldsText path content)
    (named : path.fileName? = some name)
    (free : files.IsFree (AtomicWrite.temporary processId path)) :
    (spliceFile processId path splice files).1 = .ok () ↔
      splice.resume.line.toNat < lineCount content ∧ AtomicWrite.HasRoom processId path name := by
  obtain ⟨contents, mode, looked, decoded⟩ := holds
  have applied := splice.applyToFile_of_stat looked
  simp only [decoded] at applied
  rw [spliceFile]
  by_cases inside : splice.resume.line.toNat < lineCount content
  · rw [if_pos inside] at applied
    rw [Attempt.bind_of_ok (by rw [Attempt.look, applied]),
      AtomicWrite.write_eq_ok_iff looked named free]
    simp only [inside, true_and]
  · rw [if_neg inside] at applied
    rw [Attempt.bind_of_error (by rw [Attempt.look, applied])]
    simp [inside]

/-- Where the name of the temporary file is free, replacing a range of a file that holds text comes
out exactly if the file has the last line of the range and there is room for the temporary file, and
inserting at a position exactly if the file has its line and there is this room. -/
theorem edits_come_out_iff (holds : files.HoldsText path content)
    (named : path.fileName? = some name)
    (free : files.IsFree (AtomicWrite.temporary processId path)) :
    (∀ range text, (replaceInFile processId path range text files).1 = .ok () ↔
        range.last.line.toNat < lineCount content ∧ AtomicWrite.HasRoom processId path name) ∧
      ∀ position text, (insertInFile processId path position text files).1 = .ok () ↔
        position.line.toNat < lineCount content ∧ AtomicWrite.HasRoom processId path name := by
  constructor
  · intro range text
    have spliced := spliceFile_eq_ok_iff (Splice.replacing range text) holds named free
    rwa [Splice.replacing, Position.nextColumn_line] at spliced
  · intro position text
    exact spliceFile_eq_ok_iff (Splice.inserting position text) holds named free

/-! ## A single file -/

/-- A directory with one file, which has a line. -/
def singleFile (name : Bytes) : FileSystem where
  entries := [([name], .file [0x78, 0x0A] fileMode)]
  workingDirectory := []

/-- The file name of a path that is one name is that name. -/
theorem fileName?_mk (entry : Path.IsEntryName name) : (Path.mk name).fileName? = some name := by
  have parts : (Path.mk name).parts = [] ++ [name] := List.splitOn_eq_singleton entry.cut
  exact Path.fileName?_of_parts parts entry.toIsName (List.forall_mem_nil _)

/-- The single file holds its line. -/
theorem singleFile_holdsText (entry : Path.IsEntryName name) (noZero : 0 ∉ name)
    (short : name.length ≤ nameLimit) : (singleFile name).HoldsText ⟨name⟩ "x\n" := by
  have filled : name ≠ [] := by
    rintro rfl
    cases entry.notVoid
  have found : (singleFile name).find? [name] = some (.file [0x78, 0x0A] fileMode) := by
    simp [singleFile, FileSystem.find?]
  have relative : (singleFile name).origin ⟨name⟩ = [] := by
    rw [FileSystem.origin, Path.isAbsolute_of_cut entry.cut]
    rfl
  have limits : FileSystem.checkLimits ⟨name⟩ = .ok () :=
    FileSystem.checkLimits_eq_ok_iff.mpr ⟨noZero, filled, short.trans_lt (by decide)⟩
  have leads : (singleFile name).Leads ⟨name⟩ [name] linkLimit := by
    refine ⟨limits, ?_⟩
    rw [relative, Path.parts, List.splitOn_eq_singleton entry.cut]
    exact .enter rfl entry.toIsName short found (by simp) .done
  exact ⟨_, _, leads.stat_eq found, Utf8.decode?_encode "x\n"⟩

/-- The place of the temporary file is free beside a single file. -/
theorem singleFile_isFree (entry : Path.IsEntryName name) :
    (singleFile name).IsFree (AtomicWrite.temporary processId ⟨name⟩) := by
  intro location named
  have means : (singleFile name).Means (AtomicWrite.temporary processId ⟨name⟩) location :=
    ⟨singleFile name, .refl _, named⟩
  obtain ⟨front, parts⟩ := AtomicWrite.exists_parts_temporary processId ⟨name⟩
  have temporaryNamed : (AtomicWrite.temporary processId ⟨name⟩).fileName? =
      some (AtomicWrite.temporaryBytes processId ⟨name⟩) :=
    Path.fileName?_of_parts parts (AtomicWrite.isName_temporaryBytes _ _) (List.forall_mem_nil _)
  refine means.find?_eq_none (List.forall_mem_singleton.mpr ?_)
  rw [temporaryNamed]
  intro same
  exact AtomicWrite.temporaryBytes_ne_fileName (fileName?_mk entry) processId
    (Option.some.inj same).symm

/-- A file with a short name is edited. -/
theorem edits_come_out_iff_plain :
    (singleFile [0x61]).HoldsText ⟨[0x61]⟩ "x\n" ∧ (Path.mk [0x61]).fileName? = some [0x61] ∧
      (singleFile [0x61]).IsFree (AtomicWrite.temporary 7 ⟨[0x61]⟩) ∧
      (replaceInFile 7 ⟨[0x61]⟩ ⟨⟨0, 0⟩, ⟨0, 0⟩, by decide⟩ "y" (singleFile [0x61])).1 = .ok () ∧
      (insertInFile 7 ⟨[0x61]⟩ ⟨0, 1⟩ "y" (singleFile [0x61])).1 = .ok () := by
  have entry : Path.IsEntryName [0x61] := by decide
  have holds := singleFile_holdsText entry (by decide) (by decide)
  have free : (singleFile [0x61]).IsFree (AtomicWrite.temporary 7 ⟨[0x61]⟩) :=
    singleFile_isFree entry
  have room : AtomicWrite.HasRoom 7 ⟨[0x61]⟩ [0x61] := ⟨by decide, by decide⟩
  refine ⟨holds, fileName?_mk entry, free, ?_, ?_⟩
  · exact ((edits_come_out_iff holds (fileName?_mk entry) free).1 _ _).mpr ⟨by decide, room⟩
  · exact ((edits_come_out_iff holds (fileName?_mk entry) free).2 _ _).mpr ⟨by decide, room⟩

/-- A name of 250 bytes. -/
def longName : Bytes := List.replicate 250 0x61

/-- The name of a file can be legal, and that of the temporary file beside it not. -/
theorem long_name_refuses_edits :
    longName.length ≤ nameLimit ∧ (singleFile longName).HoldsText ⟨longName⟩ "x\n" ∧
      (singleFile longName).IsFree (AtomicWrite.temporary 7 ⟨longName⟩) ∧
      (0 : UInt64).toNat < lineCount "x\n" ∧
      (replaceInFile 7 ⟨longName⟩ ⟨⟨0, 0⟩, ⟨0, 0⟩, by decide⟩ "y" (singleFile longName)).1 ≠ .ok () ∧
      (insertInFile 7 ⟨longName⟩ ⟨0, 0⟩ "y" (singleFile longName)).1 ≠ .ok () := by
  have letters : ∀ byte ∈ longName, byte = 0x61 := fun byte => List.eq_of_mem_replicate
  have length : longName.length = 250 := List.length_replicate
  have short : longName.length ≤ nameLimit := length ▸ by decide
  have entry : Path.IsEntryName longName := by decide +kernel
  have isText : (Utf8.decode? longName).isSome :=
    Utf8.isSome_decode?_of_ascii fun byte member => letters byte member ▸ by decide
  have noZero : 0 ∉ longName := fun zero => absurd (letters 0 zero) (by decide)
  have holds := singleFile_holdsText entry noZero short
  have free : (singleFile longName).IsFree (AtomicWrite.temporary 7 ⟨longName⟩) :=
    singleFile_isFree entry
  have noRoom : ¬ AtomicWrite.HasRoom 7 ⟨longName⟩ longName :=
    AtomicWrite.not_hasRoom_of_long isText (length ▸ by decide)
  refine ⟨short, holds, free, by decide, ?_, ?_⟩
  · exact fun done =>
      noRoom ((spliceFile_eq_ok_iff _ holds (fileName?_mk entry) free).mp done).2
  · exact fun done =>
      noRoom ((spliceFile_eq_ok_iff _ holds (fileName?_mk entry) free).mp done).2

end Edits

end ElmWorkbench
