import ElmWorkbench.FileSystem.Resolve
import ElmWorkbench.Proofs.Text.Utf8
/-!
# Parts of paths

The parts of a path are those of how it begins and those after that (`Path.parts_eq`).
Joining appends parts (`Path.parts_join`), and the parent of a path has its parts up to
the last one that stands for something (`Path.EndsIn.parts_parent`).
-/

namespace ElmWorkbench.Path

/-- Parts that stand for an entry below a directory. -/
structure IsName (part : Bytes) : Prop where
  notVoid : isVoid part = false
  notUp : part ≠ dotDot

/-- A path is a text if it is written as this text. -/
theorem text?_eq_some_iff {path : Path} {text : String} :
    path.text? = some text ↔ ofString text = path := by
  rw [text?, Utf8.decode?_eq_some_iff, ofString, mk.injEq]

/-! ## Cutting at separators -/

/-- Bytes that are cut at a byte have it in none of their parts. -/
theorem not_mem_of_mem_splitOn {stop : UInt8} {bytes part : Bytes}
    (cut : part ∈ bytes.splitOn stop) : stop ∉ part := by
  induction bytes generalizing part with
  | nil => simp_all
  | cons byte rest inductionHypothesis =>
    rw [List.splitOn_cons_eq_if_modifyHead] at cut
    split at cut
    · rcases List.mem_cons.mp cut with rfl | member
      · exact List.not_mem_nil
      · exact inductionHypothesis member
    · next other =>
      obtain ⟨first, others, whole⟩ := List.exists_cons_of_ne_nil (List.splitOn_ne_nil stop rest)
      rw [whole] at cut inductionHypothesis
      rcases List.mem_cons.mp cut with rfl | member
      · have absent := inductionHypothesis List.mem_cons_self
        simp only [List.mem_cons, not_or]
        exact ⟨fun same => other (by simp [same]), absent⟩
      · exact inductionHypothesis (List.mem_cons_of_mem _ member)

/-- No separator stands in a part of a path. -/
theorem separator_not_mem {path : Path} {part : Bytes} (cut : part ∈ path.parts) :
    separator ∉ part :=
  not_mem_of_mem_splitOn cut

/-- The bytes of a part are bytes of the path. -/
theorem subset_of_mem_parts {path : Path} {part : Bytes} (cut : part ∈ path.parts) :
    part ⊆ path.bytes := by
  have whole : (path.parts.intersperse [separator]).flatten = path.bytes :=
    List.intercalate_splitOn separator
  have standing : part ∈ path.parts.intersperse [separator] := by
    generalize path.parts = parts at cut
    induction parts with
    | nil => exact absurd cut List.not_mem_nil
    | cons first rest inductionHypothesis =>
      cases rest with
      | nil => exact cut
      | cons second others =>
        rw [List.intersperse_cons_cons, List.mem_cons, List.mem_cons]
        exact (List.mem_cons.mp cut).imp_right fun later => .inr (inductionHypothesis later)
  exact whole ▸ fun _ member => List.mem_flatten.mpr ⟨part, standing, member⟩

/-- Every path has a part, which may be empty. -/
theorem parts_ne_nil (path : Path) : path.parts ≠ [] :=
  List.splitOn_ne_nil _ _

/-- A path that is made of parts has just these parts. -/
theorem parts_ofParts {parts : List Bytes} (nonempty : parts ≠ [])
    (cut : ∀ part ∈ parts, separator ∉ part) : (ofParts parts).parts = parts :=
  List.splitOn_intercalate separator cut nonempty

/-- An absolute path has an empty part before others. -/
theorem isAbsolute_iff (path : Path) :
    path.isAbsolute ↔ ∃ rest, rest ≠ [] ∧ path.parts = [] :: rest := by
  obtain ⟨bytes⟩ := path
  rw [isAbsolute, parts]
  cases bytes with
  | nil => simp
  | cons byte rest =>
    obtain ⟨first, others, whole⟩ :=
      List.exists_cons_of_ne_nil (List.splitOn_ne_nil separator rest)
    rw [List.splitOn_cons_eq_if_modifyHead]
    by_cases absolute : byte = separator
    · simp [absolute]
    · simp [absolute, whole]

/-! ## Joining -/

/-- A path that is joined with a relative one is absolute just if it was so before. -/
theorem isAbsolute_join {path other : Path} (relative : other.isAbsolute = false) :
    (path.join other).isAbsolute = path.isAbsolute := by
  obtain ⟨bytes⟩ := path
  rw [join, if_neg (by simp [relative])]
  cases bytes with
  | nil => simpa [isAbsolute] using relative
  | cons byte rest => split <;> simp [isAbsolute]

/-- A name without separators is relative. -/
theorem isAbsolute_of_cut {name : Bytes} (cut : separator ∉ name) :
    (Path.mk name).isAbsolute = false := by
  cases name with
  | nil => rfl
  | cons byte rest =>
    rw [List.mem_cons, not_or] at cut
    simpa [isAbsolute, eq_comm] using cut.1

/-- An entry of a directory has an absolute path just if the directory has one. -/
theorem isAbsolute_join_name (path : Path) {name : Bytes} (cut : separator ∉ name) :
    (path.join ⟨name⟩).isAbsolute = path.isAbsolute :=
  isAbsolute_join (isAbsolute_of_cut cut)

/-- A name that is joined to a path becomes its last part, unless the path ends with a
separator or is empty. -/
theorem parts_join {path : Path} {name : Bytes} (closed : path.parts.getLast? ≠ some [])
    (cut : separator ∉ name) : (path.join ⟨name⟩).parts = path.parts ++ [name] := by
  have filled : path.bytes ≠ [] := by
    intro empty
    rw [parts, empty, List.splitOn_nil] at closed
    exact closed rfl
  have unseparated : path.bytes.getLast? ≠ some separator := by
    intro separated
    obtain ⟨front, split⟩ := List.getLast?_eq_some_iff.mp separated
    rw [parts, split, List.splitOn_append_cons_self, List.splitOn_nil, List.getLast?_concat]
      at closed
    exact closed rfl
  rw [join, if_neg (by simp [isAbsolute_of_cut cut]), if_neg (by simp [filled, unseparated]), parts,
    List.splitOn_append_cons_self, List.splitOn_eq_singleton cut]
  rfl

/-- Joining a relative path puts its parts behind those of a directory, in place of an empty
part at their end. -/
theorem exists_front (directory : Path) :
    ∃ front void, directory.parts = front ++ void ∧ (∀ part ∈ void, part = []) ∧
      (directory.bytes ≠ [] → front ≠ []) ∧ ∀ other : Path, other.isAbsolute = false →
        (directory.join other).parts = front ++ other.parts := by
  by_cases empty : directory.bytes = []
  · refine ⟨[], [[]], by simp [parts, empty], by simp, by simp [empty], fun other relative => ?_⟩
    rw [join, if_neg (by simp [relative]), if_pos (by simp [empty]), empty]
    rfl
  · by_cases separated : directory.bytes.getLast? = some separator
    · obtain ⟨front, whole⟩ := List.getLast?_eq_some_iff.mp separated
      refine ⟨front.splitOn separator, [[]], ?_, by simp, fun _ => List.splitOn_ne_nil _ _,
        fun other relative => ?_⟩
      · rw [parts, whole, List.splitOn_append_cons_self, List.splitOn_nil]
      · rw [join, if_neg (by simp [relative]), if_pos (by simp [separated]), whole, parts,
          List.append_assoc, List.singleton_append, List.splitOn_append_cons_self]
        rfl
    · refine ⟨directory.parts, [], by simp, by simp, fun _ => directory.parts_ne_nil,
        fun other relative => ?_⟩
      rw [join, if_neg (by simp [relative]), if_neg (by simp [empty, separated]), parts,
        List.splitOn_append_cons_self]
      rfl

/-- A name that is joined to a path is its last part. -/
theorem exists_parts_join (directory : Path) {name : Bytes} (cut : separator ∉ name) :
    ∃ front void, directory.parts = front ++ void ∧ (∀ part ∈ void, part = []) ∧
      (directory.join ⟨name⟩).parts = front ++ [name] := by
  obtain ⟨front, void, parts, empty, -, joined⟩ := directory.exists_front
  refine ⟨front, void, parts, empty, ?_⟩
  rw [joined ⟨name⟩ (isAbsolute_of_cut cut), Path.parts, List.splitOn_eq_singleton cut]

/-! ## The beginning of a path -/

/-- The parts that a path begins with. -/
def openingParts : Option Component → List Bytes
  | some .root => [[]]
  | some .here => [dot]
  | _ => []

/-- The parts of a path are those that it begins with and those behind them. -/
theorem parts_eq (path : Path) : path.parts = openingParts path.split.1 ++ path.split.2 := by
  obtain ⟨first, rest, cut⟩ := List.exists_cons_of_ne_nil path.parts_ne_nil
  rw [split, ← parts, cut]
  by_cases absolute : path.isAbsolute
  · obtain ⟨others, -, whole⟩ := (isAbsolute_iff path).mp absolute
    rw [whole] at cut
    obtain ⟨rfl, rfl⟩ := List.cons.inj cut
    simp [absolute, openingParts]
  · by_cases here : first = dot
    · simp [absolute, here, openingParts]
    · simp [absolute, here, openingParts]

/-- How a path begins is told by its first byte and its first part. -/
theorem split_fst (path : Path) :
    path.split.1 =
      if path.isAbsolute then some .root
      else if path.parts.head? = some dot then some .here else none := by
  obtain ⟨first, rest, cut⟩ := List.exists_cons_of_ne_nil path.parts_ne_nil
  rw [split, ← parts, cut]
  by_cases absolute : path.isAbsolute
  · simp [absolute]
  · by_cases here : first = dot <;> simp [absolute, here]

/-- Absolute paths begin with the root. -/
theorem isAbsolute_iff_root (path : Path) : path.isAbsolute ↔ path.split.1 = some .root := by
  rw [split_fst]
  split
  · next absolute => simp [absolute]
  · next relative => split <;> simp [relative]

/-! ## The end of a path -/

/-- Cutting off the end of parts cuts off parts without meaning only. -/
theorem exists_void (parts : List Bytes) :
    ∃ void, parts = trimParts parts ++ void ∧ ∀ part ∈ void, isVoid part := by
  refine ⟨(parts.reverse.takeWhile isVoid).reverse, ?_, fun part member => ?_⟩
  · rw [trimParts, ← List.reverse_append, List.takeWhile_append_dropWhile, List.reverse_reverse]
  · exact List.all_eq_true.mp List.all_takeWhile part (List.mem_reverse.mp member)

/-- Empty parts stand for nothing. -/
theorem isVoid_of_eq_nil {void : List Bytes} (empty : ∀ part ∈ void, part = []) :
    ∀ part ∈ void, isVoid part := by
  intro part member
  rw [empty part member]
  rfl

/-- Nothing is dropped from parts if the last of them stands for something. -/
theorem trimParts_concat {upper : List Bytes} {last : Bytes} (notVoid : isVoid last = false) :
    trimParts (upper ++ [last]) = upper ++ [last] := by
  simp [trimParts, notVoid]

/-- Trimmed parts do not end with one that stands for nothing. -/
theorem trimParts_getLast?_ne {parts : List Bytes} {last : Bytes} (void : isVoid last) :
    (trimParts parts).getLast? ≠ some last := by
  intro kept
  rw [trimParts, List.getLast?_reverse] at kept
  have meant := List.head?_dropWhile_not isVoid parts.reverse
  simp [kept, void] at meant

/-- Parts at the end that stand for nothing are dropped. -/
theorem trimParts_append_void (parts : List Bytes) {void : List Bytes}
    (meaningless : ∀ part ∈ void, isVoid part) : trimParts (parts ++ void) = trimParts parts := by
  have dropped : ∀ part ∈ void.reverse, isVoid part := by simpa using meaningless
  rw [trimParts, List.reverse_append, List.dropWhile_append_of_pos dropped, trimParts]

/-- The last component of a path is one of its parts. -/
theorem mem_parts_of_fileName? {path : Path} {name : Bytes} (named : path.fileName? = some name) :
    name ∈ path.parts := by
  rw [fileName?] at named
  split at named
  · cases named
  · next last found =>
    split at named
    · cases named
    · obtain rfl := Option.some.inj named
      obtain ⟨void, whole, -⟩ := exists_void path.split.2
      rw [parts_eq, whole]
      exact List.mem_append_right _ (List.mem_append_left _ (List.mem_of_getLast? found))

/-- The parts that a path begins with stand for nothing inside of it. -/
theorem isVoid_of_mem_openingParts {part : Bytes} (opening : Option Component)
    (begins : part ∈ openingParts opening) : isVoid part := by
  unfold openingParts at begins
  split at begins <;> simp_all [isVoid]

/-- The last part of a path that stands for something is its last component if it is a name. -/
theorem fileName?_of_parts {path : Path} {front more : List Bytes} {name : Bytes}
    (parts : path.parts = front ++ name :: more) (isName : IsName name)
    (meaningless : ∀ part ∈ more, isVoid part) : path.fileName? = some name := by
  obtain ⟨upper, whole⟩ : ∃ upper, path.split.2 = upper ++ [name] ++ more := by
    rw [Path.parts_eq] at parts
    rcases List.append_eq_append_iff.mp parts with ⟨between, -, rest⟩ | ⟨between, opens, rest⟩
    · exact ⟨between, by simp [rest]⟩
    · cases between with
      | nil => exact ⟨[], by simpa using rest.symm⟩
      | cons first others =>
        obtain ⟨rfl, -⟩ := List.cons.inj rest
        have begins : name ∈ openingParts path.split.1 := by simp [opens]
        have void := isVoid_of_mem_openingParts _ begins
        simp [isName.notVoid] at void
  rw [fileName?, whole, trimParts_append_void _ meaningless, trimParts_concat isName.notVoid,
    List.getLast?_concat]
  exact if_neg isName.notUp

/-! ## Parents -/

/-- The parent has the kept parts. Only the root has nothing but its empty first part,
and is written with a separator. -/
theorem parent_cases (opening : Option Component) (upper : List Bytes) :
    ((openingParts opening ++ trimParts upper).getLast? ≠ some [] ∧
      assemble opening (trimParts upper) = ofParts (openingParts opening ++ trimParts upper)) ∨
    (openingParts opening ++ trimParts upper = [[]] ∧
      assemble opening (trimParts upper) = ⟨[separator]⟩) := by
  have closed : (trimParts upper).getLast? ≠ some [] := trimParts_getLast?_ne rfl
  generalize trimParts upper = kept at closed
  cases opening with
  | none => exact .inl ⟨closed, rfl⟩
  | some component =>
    cases component with
    | root =>
      cases kept with
      | nil => exact .inr ⟨rfl, rfl⟩
      | cons first rest => exact .inl ⟨by simpa [openingParts] using closed, rfl⟩
    | here =>
      refine .inl ⟨?_, rfl⟩
      cases kept with
      | nil => simp [openingParts, dot]
      | cons first rest => simpa [openingParts] using closed
    | up => exact .inl ⟨closed, rfl⟩
    | named name => exact .inl ⟨closed, rfl⟩

/-- The parent has the kept parts, and at most an empty one behind them. -/
theorem exists_parts_assemble {opening : Option Component} {upper : List Bytes}
    (uncut : ∀ part ∈ openingParts opening ++ trimParts upper, separator ∉ part) :
    ∃ void, (assemble opening (trimParts upper)).parts =
        openingParts opening ++ trimParts upper ++ void ∧ (void = [] ∨ void = [[]]) := by
  rcases parent_cases opening upper with ⟨-, whole⟩ | ⟨root, whole⟩
  · rw [whole]
    by_cases nothing : openingParts opening ++ trimParts upper = []
    · rw [nothing]
      exact ⟨[[]], rfl, .inr rfl⟩
    · exact ⟨[], by rw [parts_ofParts nothing uncut, List.append_nil], .inl rfl⟩
  · rw [whole, root]
    exact ⟨[[]], rfl, .inr rfl⟩

/-- It is absolute if the path is. -/
theorem isAbsolute_assemble {path : Path} {upper more : List Bytes} (nonempty : more ≠ [])
    (parts : path.parts = openingParts path.split.1 ++ trimParts upper ++ more) :
    (assemble path.split.1 (trimParts upper)).isAbsolute = path.isAbsolute := by
  have uncut : ∀ part ∈ openingParts path.split.1 ++ trimParts upper, separator ∉ part := by
    intro part kept
    refine separator_not_mem (?_ : part ∈ path.parts)
    rw [parts]
    exact List.mem_append_left _ kept
  have rooted := isAbsolute_iff_root path
  rw [Bool.eq_iff_iff]
  rcases parent_cases path.split.1 upper with ⟨closed, whole⟩ | ⟨root, whole⟩
  · rw [whole]
    by_cases nothing : openingParts path.split.1 ++ trimParts upper = []
    · rw [rooted, nothing]
      constructor
      · intro absolute
        exact absurd absolute (by decide)
      · intro root
        rw [root] at nothing
        cases nothing
    · constructor
      · intro absolute
        rw [isAbsolute_iff, parts_ofParts nothing uncut] at absolute
        obtain ⟨rest, -, front⟩ := absolute
        rw [isAbsolute_iff, parts, front]
        exact ⟨rest ++ more, by simp [nonempty], by simp⟩
      · intro absolute
        have root := rooted.mp absolute
        rw [isAbsolute_iff, parts_ofParts nothing uncut, root]
        refine ⟨trimParts upper, ?_, rfl⟩
        intro empty
        simp [root, empty, openingParts] at closed
  · rw [whole, isAbsolute_iff path, parts, root]
    constructor
    · intro absolute
      exact ⟨more, nonempty, by simp⟩
    · intro absolute
      rfl

/-- A path goes on behind its parent, which may end with a separator. -/
theorem exists_of_parent? {path parent : Path} (found : path.parent? = some parent)
    (filled : parent.bytes ≠ []) :
    ∃ front next rest void, path.parts = front ++ next :: rest ∧ parent.parts = front ++ void ∧
      (void = [] ∨ void = [[]]) ∧ parent.isAbsolute = path.isAbsolute := by
  have parts := path.parts_eq
  obtain ⟨behind, whole, -⟩ := exists_void path.split.2
  simp only [parent?] at found
  split at found
  · split at found
    · cases found
      exact absurd rfl filled
    · cases found
  · next nonempty =>
    obtain rfl := Option.some.inj found
    obtain ⟨upper, last, kept⟩ := (List.eq_nil_or_concat _).resolve_left nonempty
    rw [List.concat_eq_append] at kept
    rw [kept, List.dropLast_concat]
    obtain ⟨between, upperWhole, -⟩ := exists_void upper
    have split : path.parts =
        openingParts path.split.1 ++ trimParts upper ++ (between ++ last :: behind) := by
      have opened := congrArg (openingParts path.split.1 ++ · ++ last :: behind) upperWhole
      rw [parts, whole, kept]
      simpa using opened
    have uncut : ∀ part ∈ openingParts path.split.1 ++ trimParts upper, separator ∉ part := by
      intro part member
      refine separator_not_mem (?_ : part ∈ path.parts)
      rw [split]
      exact List.mem_append_left _ member
    obtain ⟨void, parentParts, empty⟩ := exists_parts_assemble uncut
    obtain ⟨next, rest, behindParent⟩ := List.exists_cons_of_ne_nil
      (List.append_ne_nil_of_right_ne_nil between (List.cons_ne_nil last behind))
    exact ⟨_, next, rest, void, behindParent ▸ split, parentParts, empty,
      isAbsolute_assemble (by simp) split⟩

/-- Joining two lists of parts puts a separator between what each is joined to. -/
theorem intercalate_append {front rest : List Bytes} (opened : front ≠ []) (more : rest ≠ []) :
    [separator].intercalate (front ++ rest) =
      [separator].intercalate front ++ separator :: [separator].intercalate rest := by
  induction front with
  | nil => exact absurd rfl opened
  | cons first others inductionHypothesis =>
    cases others with
    | nil => simp [List.intercalate_cons_of_ne_nil more]
    | cons second others => simpa using inductionHypothesis (by simp)

/-- A path begins with its parent. -/
theorem bytes_prefix_of_parent? {path parent : Path} (found : path.parent? = some parent) :
    parent.bytes <+: path.bytes := by
  by_cases filled : parent.bytes = []
  · rw [filled]
    exact List.nil_prefix
  · obtain ⟨front, next, rest, void, parts, parentParts, empty, -⟩ := exists_of_parent? found filled
    have joined (other : Path) : other.bytes = [separator].intercalate other.parts :=
      (List.intercalate_splitOn separator).symm
    rw [joined path, joined parent, parts, parentParts]
    have opened : front ≠ [] := by
      rintro rfl
      rcases empty with rfl | rfl
      · exact parent.parts_ne_nil parentParts
      · rw [joined parent, parentParts] at filled
        exact filled rfl
    rw [intercalate_append opened (List.cons_ne_nil next rest)]
    rcases empty with rfl | rfl
    · rw [List.append_nil]
      exact List.prefix_append _ _
    · rw [intercalate_append opened (by simp), List.intercalate_singleton]
      exact (List.prefix_append_right_inj _).mpr (List.cons_prefix_cons.mpr ⟨rfl, List.nil_prefix⟩)

/-- One of the paths around a path: its parent, the parent of that, and so on. -/
inductive Encloses : Path → Path → Prop where
  | parent {outer path : Path} (found : path.parent? = some outer) : Encloses outer path
  | further {outer parent path : Path} (found : path.parent? = some parent)
      (more : Encloses outer parent) : Encloses outer path

/-- Nothing is around the empty path. -/
theorem not_encloses_nil (outer : Path) : ¬ outer.Encloses ⟨[]⟩ := by
  intro encloses
  cases encloses with
  | parent found => cases found
  | further found more => cases found

/-- How a path begins, the parts between, and its last part, which stands for something. -/
structure EndsIn (path : Path) (opening : Option Component) (upper : List Bytes) (last : Bytes) :
    Prop where
  split : path.split = (opening, upper ++ [last])
  notVoid : isVoid last = false

namespace EndsIn

variable {path : Path} {opening : Option Component} {upper : List Bytes} {last : Bytes}

/-- The parts of a path are those it begins with, those between and the last one. -/
theorem parts_eq (ends : path.EndsIn opening upper last) :
    path.parts = openingParts opening ++ upper ++ [last] := by
  rw [Path.parts_eq, ends.split, List.append_assoc]

/-- The file name of a path is its last part, unless that leads up. -/
theorem fileName?_eq (ends : path.EndsIn opening upper last) :
    path.fileName? = if last = dotDot then none else some last := by
  rw [fileName?, ends.split, trimParts_concat ends.notVoid, List.getLast?_concat]

/-- The parent of a path is made of the parts before the last one, trimmed. -/
theorem parent?_eq (ends : path.EndsIn opening upper last) :
    path.parent? = some (assemble opening (trimParts upper)) := by
  simp only [parent?, ends.split, trimParts_concat ends.notVoid]
  cases upper with
  | nil => rfl
  | cons first rest =>
    rw [List.cons_append]
    simp only [← List.cons_append, List.dropLast_concat]

/-- The last part of a path comes after how it begins if it stands for something. -/
theorem exists_of_parts {path : Path} {front : List Bytes} {last : Bytes}
    (parts : path.parts = front ++ [last]) (notVoid : isVoid last = false) :
    ∃ opening upper, path.EndsIn opening upper last ∧ front = openingParts opening ++ upper := by
  rw [Path.parts_eq] at parts
  rcases List.eq_nil_or_concat path.split.2 with nothing | ⟨upper, other, rest⟩
  · rw [nothing, List.append_nil] at parts
    have begins : last ∈ openingParts path.split.1 := by simp [parts]
    have void := isVoid_of_mem_openingParts _ begins
    simp [notVoid] at void
  · rw [rest, List.concat_eq_append, ← List.append_assoc] at parts
    obtain ⟨rfl, same⟩ := List.append_inj' parts rfl
    obtain rfl : other = last := by simpa using same
    exact ⟨path.split.1, upper, ⟨by rw [← List.concat_eq_append, ← rest], notVoid⟩, rfl⟩

/-- The parts of the parent, as they stand in the path: how it begins and what lies
between, up to the last part that stands for something. -/
theorem exists_upper (ends : path.EndsIn opening upper last) :
    ∃ void, path.parts = openingParts opening ++ trimParts upper ++ void ++ [last] ∧
      ∀ part ∈ void, isVoid part := by
  obtain ⟨void, whole, meaningless⟩ := exists_void upper
  refine ⟨void, ?_, meaningless⟩
  have between :
      openingParts opening ++ upper = openingParts opening ++ (trimParts upper ++ void) :=
    congrArg _ whole
  rw [ends.parts_eq, between, List.append_assoc (openingParts opening) (trimParts upper)]

/-- No separator stands in the parts that a parent is made of. -/
theorem separator_not_mem_kept (ends : path.EndsIn opening upper last) :
    ∀ part ∈ openingParts opening ++ trimParts upper, separator ∉ part := by
  intro part kept
  obtain ⟨void, whole, -⟩ := ends.exists_upper
  refine Path.separator_not_mem (?_ : part ∈ path.parts)
  rw [whole, List.append_assoc]
  exact List.mem_append_left _ kept

/-- The parent has the kept parts, and at most an empty one behind them. -/
theorem parts_parent (ends : path.EndsIn opening upper last) :
    ∃ void, (assemble opening (trimParts upper)).parts =
        openingParts opening ++ trimParts upper ++ void ∧
      ∀ part ∈ void, part = [] := by
  obtain ⟨void, parts, empty⟩ := exists_parts_assemble ends.separator_not_mem_kept
  refine ⟨void, parts, fun part member => ?_⟩
  rcases empty with rfl | rfl
  · cases member
  · exact List.mem_singleton.mp member

/-- A name beside the last part has the same parts before it. -/
theorem parts_sibling (ends : path.EndsIn opening upper last) {name : Bytes}
    (cut : separator ∉ name) :
    ((assemble opening (trimParts upper)).join ⟨name⟩).parts =
      openingParts opening ++ trimParts upper ++ [name] := by
  rcases parent_cases opening upper with ⟨closed, whole⟩ | ⟨root, whole⟩
  · rw [whole]
    by_cases nothing : openingParts opening ++ trimParts upper = []
    · rw [nothing, ofParts, join, isAbsolute_of_cut cut, parts]
      exact List.splitOn_eq_singleton cut
    · rw [parts_join, parts_ofParts nothing ends.separator_not_mem_kept]
      · rwa [parts_ofParts nothing ends.separator_not_mem_kept]
      · exact cut
  · rw [whole, root, join, isAbsolute_of_cut cut, parts]
    exact List.splitOn_append_cons_self [] name |>.trans
      (congrArg _ (List.splitOn_eq_singleton cut))

/-- The parent of a path is absolute just if the path is. -/
theorem isAbsolute_parent (ends : path.EndsIn opening upper last) :
    (assemble opening (trimParts upper)).isAbsolute = path.isAbsolute := by
  obtain ⟨void, parts, -⟩ := ends.exists_upper
  obtain rfl : path.split.1 = opening := congrArg Prod.fst ends.split
  rw [List.append_assoc] at parts
  exact isAbsolute_assemble (by simp) parts

end EndsIn

end ElmWorkbench.Path
