import ElmWorkbench.Text.Utf8
import Mathlib.Tactic.SplitIfs
/-!
# Decoding and encoding are inverse

Cutting a byte string into pieces loses no byte (`flatMap_source_pieces`), and the
bytes of characters are cut into just these characters (`pieces_encodeChars`). So a
byte string decodes to characters exactly if they are written with these bytes
(`decodeChars?_eq_some_iff`).
-/

namespace ElmWorkbench.Utf8

/-- The bytes that a piece was cut from. -/
def Piece.source : Piece → Bytes
  | .character value => String.utf8EncodeChar value
  | .damaged bytes => bytes

/-- A sequence that has begun and waits for more bytes, or none. -/
inductive IsOpen : Bytes → Prop where
  | idle : IsOpen []
  | one {lead : UInt8} (least : 0xC2 ≤ lead) (greatest : lead ≤ 0xF4) : IsOpen [lead]
  | two {lead second : UInt8} (long : 0xE0 ≤ lead) (opened : opens lead second) :
      IsOpen [lead, second]
  | three {lead second third : UInt8} (long : 0xF0 ≤ lead) (opened : opens lead second)
      (continued : isContinuation third) : IsOpen [lead, second, third]

/-! ## The characters of complete sequences -/

/-- The character of a valid number has that number. -/
theorem toNat_ofNat (number : Nat) (valid : number.isValidChar) :
    (Char.ofNat number).val.toNat = number := by
  rw [Char.ofNat, dif_pos valid]
  rfl

/-- The byte of the number that a byte has is that byte. -/
theorem ofNat_eq (byte : UInt8) {number : Nat} (same : number = byte.toNat) :
    UInt8.ofNat number = byte := by
  rw [same, UInt8.ofNat_toNat]

/-- The continuation bytes are those from 0x80 to 0xBF. -/
theorem isContinuation_iff {byte : UInt8} :
    isContinuation byte ↔ 0x80 ≤ byte.toNat ∧ byte.toNat ≤ 0xBF := by
  simp [isContinuation, UInt8.le_iff_toNat_le]

/-- A second byte continues the sequence and excludes overlong forms, surrogates and
values past the last scalar. -/
theorem opens_iff {lead second : UInt8} :
    opens lead second ↔
      0xC2 ≤ lead.toNat ∧ lead.toNat ≤ 0xF4 ∧ 0x80 ≤ second.toNat ∧ second.toNat ≤ 0xBF ∧
        (lead.toNat = 0xE0 → 0xA0 ≤ second.toNat) ∧ (lead.toNat = 0xED → second.toNat ≤ 0x9F) ∧
        (lead.toNat = 0xF0 → 0x90 ≤ second.toNat) ∧ (lead.toNat = 0xF4 → second.toNat ≤ 0x8F) := by
  simp only [opens, isContinuation, UInt8.le_iff_toNat_le, ← UInt8.toNat_inj, Bool.and_eq_true,
    decide_eq_true_eq, UInt8.toNat_ofNat]
  split_ifs <;> simp <;> omega

/-- The character of a sequence of two bytes is written as these. -/
theorem encode_ofTwo {lead second : UInt8} (opened : opens lead second) (short : lead < 0xE0) :
    String.utf8EncodeChar (ofTwo lead second) = [lead, second] := by
  have bounds := opens_iff.mp opened
  have leadBound : lead.toNat < 0xE0 := short
  have value := toNat_ofNat ((lead.toNat - 0xC0) * 0x40 + (second.toNat - 0x80))
    (by simp only [Nat.isValidChar]; omega)
  rw [String.utf8EncodeChar, ofTwo, value, if_neg (by omega), if_pos (by omega)]
  rw [ofNat_eq lead (by omega), ofNat_eq second (by omega)]

/-- The character of a sequence of three bytes is written as these. -/
theorem encode_ofThree {lead second third : UInt8} (long : 0xE0 ≤ lead)
    (opened : opens lead second) (continued : isContinuation third) (short : lead < 0xF0) :
    String.utf8EncodeChar (ofThree lead second third) = [lead, second, third] := by
  have bounds := opens_iff.mp opened
  have thirdBounds := isContinuation_iff.mp continued
  have leadLeast : 0xE0 ≤ lead.toNat := long
  have leadBound : lead.toNat < 0xF0 := short
  have value := toNat_ofNat ((lead.toNat - 0xE0) * 0x1000
      + (second.toNat - 0x80) * 0x40 + (third.toNat - 0x80))
    (by simp only [Nat.isValidChar]; omega)
  rw [String.utf8EncodeChar, ofThree, value, if_neg (by omega), if_neg (by omega),
    if_pos (by omega)]
  rw [ofNat_eq lead (by omega), ofNat_eq second (by omega),
    ofNat_eq third (by omega)]

/-- The character of a sequence of four bytes is written as these. -/
theorem encode_ofFour {lead second third fourth : UInt8} (long : 0xF0 ≤ lead)
    (opened : opens lead second) (continued : isContinuation third)
    (continuedAgain : isContinuation fourth) :
    String.utf8EncodeChar (ofFour lead second third fourth) = [lead, second, third, fourth] := by
  have bounds := opens_iff.mp opened
  have thirdBounds := isContinuation_iff.mp continued
  have fourthBounds := isContinuation_iff.mp continuedAgain
  have leadLeast : 0xF0 ≤ lead.toNat := long
  have value := toNat_ofNat ((lead.toNat - 0xF0) * 0x40000
      + (second.toNat - 0x80) * 0x1000 + (third.toNat - 0x80) * 0x40 + (fourth.toNat - 0x80))
    (by simp only [Nat.isValidChar]; omega)
  rw [String.utf8EncodeChar, ofFour, value, if_neg (by omega), if_neg (by omega),
    if_neg (by omega)]
  rw [ofNat_eq lead (by omega), ofNat_eq second (by omega),
    ofNat_eq third (by omega), ofNat_eq fourth (by omega)]

/-! ## Cutting loses nothing -/

/-- A byte that completes a sequence makes the character that is written with it. -/
theorem encode_of_complete {pending : Bytes} {byte : UInt8} {value : Char}
    (isOpen : IsOpen pending) (accepted : accepts pending byte)
    (completed : complete? (pending ++ [byte]) = some value) :
    String.utf8EncodeChar value = pending ++ [byte] := by
  cases isOpen with
  | idle => simp [accepts] at accepted
  | @one lead _ _ =>
    simp only [List.cons_append, List.nil_append, complete?] at completed
    split at completed
    · next short =>
      obtain rfl := Option.some.inj completed
      exact encode_ofTwo accepted short
    · cases completed
  | @two lead second long opened =>
    have continued : isContinuation byte := by simp_all [accepts]
    simp only [List.cons_append, List.nil_append, complete?] at completed
    split at completed
    · next short =>
      obtain rfl := Option.some.inj completed
      exact encode_ofThree long opened continued short
    · cases completed
  | @three lead second third long opened continued =>
    have continuedAgain : isContinuation byte := by simp_all [accepts]
    obtain rfl := Option.some.inj completed
    exact encode_ofFour long opened continued continuedAgain

/-- A byte that is accepted and completes nothing leaves the sequence open. -/
theorem isOpen_of_incomplete {pending : Bytes} {byte : UInt8} (isOpen : IsOpen pending)
    (accepted : accepts pending byte) (incomplete : complete? (pending ++ [byte]) = none) :
    IsOpen (pending ++ [byte]) := by
  cases isOpen with
  | idle => simp [accepts] at accepted
  | @one lead _ _ =>
    simp only [List.cons_append, List.nil_append, complete?] at incomplete
    split at incomplete
    · cases incomplete
    · next long => exact .two (UInt8.not_lt.mp long) accepted
  | @two lead second _ opened =>
    have continued : isContinuation byte := by simp_all [accepts]
    simp only [List.cons_append, List.nil_append, complete?] at incomplete
    split at incomplete
    · cases incomplete
    · next long => exact .three (UInt8.not_lt.mp long) opened continued
  | three => cases incomplete

/-- An ASCII character is written as its byte. -/
theorem encode_ascii {byte : UInt8} (ascii : byte < 0x80) :
    String.utf8EncodeChar (Char.ofNat byte.toNat) = [byte] := by
  have bound : byte.toNat < 0x80 := ascii
  rw [String.utf8EncodeChar, toNat_ofNat _ (by simp only [Nat.isValidChar]; omega),
    if_pos (by omega), ofNat_eq byte rfl]

/-- A first byte is kept, as a piece or as the sequence that it opens. -/
theorem start_keeps (byte : UInt8) :
    (start byte).1.flatMap Piece.source ++ (start byte).2 = [byte] ∧ IsOpen (start byte).2 := by
  rw [start]
  split_ifs with ascii leads
  · exact ⟨by simp [Piece.source, encode_ascii ascii], .idle⟩
  · simp only [Bool.and_eq_true, decide_eq_true_eq] at leads
    exact ⟨rfl, .one leads.1 leads.2⟩
  · exact ⟨by simp [Piece.source], .idle⟩

/-- A sequence that is left behind is a piece with all its bytes. -/
theorem flatMap_source_abandon (pending : Bytes) :
    (abandon pending).flatMap Piece.source = pending := by
  cases pending <;> simp [abandon, Piece.source]

/-- Each further byte is kept together with the open sequence before it. -/
theorem advance_keeps {pending : Bytes} (isOpen : IsOpen pending) (byte : UInt8) :
    (advance pending byte).1.flatMap Piece.source ++ (advance pending byte).2
        = pending ++ [byte] ∧ IsOpen (advance pending byte).2 := by
  rw [advance]
  split_ifs with accepted
  · cases completed : complete? (pending ++ [byte]) with
    | some value =>
      exact ⟨by simp [Piece.source, encode_of_complete isOpen accepted completed], .idle⟩
    | none => exact ⟨rfl, isOpen_of_incomplete isOpen accepted completed⟩
  · have kept := start_keeps byte
    simp only [List.flatMap_append, flatMap_source_abandon, List.append_assoc, kept.1, true_and]
    exact kept.2

/-- The pieces behind an open sequence hold its bytes and the ones that follow. -/
theorem flatMap_source_piecesAfter {pending : Bytes} (isOpen : IsOpen pending) (bytes : Bytes) :
    (piecesAfter pending bytes).flatMap Piece.source = pending ++ bytes := by
  induction bytes generalizing pending with
  | nil => simp [piecesAfter, flatMap_source_abandon]
  | cons byte rest inductionHypothesis =>
    have kept := advance_keeps isOpen byte
    simp only [piecesAfter, List.flatMap_append, inductionHypothesis kept.2]
    rw [← List.append_assoc, kept.1, List.append_assoc, List.singleton_append]

/-- The pieces of a byte string hold all its bytes in their order. -/
theorem flatMap_source_pieces (bytes : Bytes) :
    (pieces bytes).flatMap Piece.source = bytes :=
  flatMap_source_piecesAfter .idle bytes

/-! ## Characters are cut as they were written -/

/-- A byte that can lead a sequence opens one. -/
theorem start_of_lead {lead : UInt8} (least : 0xC2 ≤ lead.toNat) (greatest : lead.toNat ≤ 0xF4) :
    start lead = ([], [lead]) := by
  have isLead : (0xC2 ≤ lead && lead ≤ 0xF4) = true := by
    simpa [UInt8.le_iff_toNat_le] using And.intro least greatest
  have notAscii : ¬ lead < 0x80 := by
    simp only [UInt8.lt_iff_toNat_lt, UInt8.toNat_ofNat]
    omega
  rw [start, if_neg notAscii, if_pos isLead]

/-- An ASCII byte is a character. -/
theorem piecesAfter_ascii {byte : UInt8} (ascii : byte < 0x80) (rest : Bytes) :
    piecesAfter [] (byte :: rest) =
      .character (Char.ofNat byte.toNat) :: piecesAfter [] rest := by
  simp [piecesAfter, advance, accepts, start, ascii, abandon]

/-- A byte that can lead a sequence opens one before the rest is cut. -/
theorem piecesAfter_lead {lead : UInt8} (least : 0xC2 ≤ lead.toNat) (greatest : lead.toNat ≤ 0xF4)
    (rest : Bytes) : piecesAfter [] (lead :: rest) = piecesAfter [lead] rest := by
  simp [piecesAfter, advance, accepts, start_of_lead least greatest, abandon]

/-- A byte that is accepted but completes no character stays open. -/
theorem piecesAfter_incomplete {pending : Bytes} {byte : UInt8} (accepted : accepts pending byte)
    (incomplete : complete? (pending ++ [byte]) = none) (rest : Bytes) :
    piecesAfter pending (byte :: rest) = piecesAfter (pending ++ [byte]) rest := by
  simp [piecesAfter, advance, accepted, incomplete]

/-- A byte that completes a character closes the sequence. -/
theorem piecesAfter_complete {pending : Bytes} {byte : UInt8} {value : Char}
    (accepted : accepts pending byte) (completed : complete? (pending ++ [byte]) = some value)
    (rest : Bytes) :
    piecesAfter pending (byte :: rest) = .character value :: piecesAfter [] rest := by
  simp [piecesAfter, advance, accepted, completed]

/-- A well-formed sequence of two bytes is a character. -/
theorem piecesAfter_two {lead second : UInt8} (opened : opens lead second) (short : lead < 0xE0)
    (rest : Bytes) :
    piecesAfter [] (lead :: second :: rest) =
      .character (ofTwo lead second) :: piecesAfter [] rest := by
  have bounds := opens_iff.mp opened
  have begun : accepts [lead] second := opened
  rw [piecesAfter_lead bounds.1 bounds.2.1, piecesAfter_complete begun (if_pos short)]

/-- A well-formed sequence of three bytes is a character. -/
theorem piecesAfter_three {lead second third : UInt8} (long : 0xE0 ≤ lead)
    (opened : opens lead second) (continued : isContinuation third) (short : lead < 0xF0)
    (rest : Bytes) :
    piecesAfter [] (lead :: second :: third :: rest) =
      .character (ofThree lead second third) :: piecesAfter [] rest := by
  have bounds := opens_iff.mp opened
  have begun : accepts [lead] second := opened
  have accepted : accepts ([lead] ++ [second]) third := by simp [accepts, long, continued]
  rw [piecesAfter_lead bounds.1 bounds.2.1,
    piecesAfter_incomplete begun (if_neg (UInt8.not_lt.mpr long)),
    piecesAfter_complete accepted (if_pos short)]

/-- A well-formed sequence of four bytes is a character. -/
theorem piecesAfter_four {lead second third fourth : UInt8} (long : 0xF0 ≤ lead)
    (opened : opens lead second) (continued : isContinuation third)
    (continuedAgain : isContinuation fourth) (rest : Bytes) :
    piecesAfter [] (lead :: second :: third :: fourth :: rest) =
      .character (ofFour lead second third fourth) :: piecesAfter [] rest := by
  have bounds := opens_iff.mp opened
  have begun : accepts [lead] second := opened
  have longer : 0xE0 ≤ lead := UInt8.le_trans (by decide) long
  have accepted : accepts ([lead] ++ [second]) third := by simp [accepts, longer, continued]
  have acceptedAgain : accepts ([lead] ++ [second] ++ [third]) fourth := by
    simp [accepts, long, continuedAgain]
  rw [piecesAfter_lead bounds.1 bounds.2.1,
    piecesAfter_incomplete begun (if_neg (UInt8.not_lt.mpr longer)),
    piecesAfter_incomplete accepted (if_neg (UInt8.not_lt.mpr long)),
    piecesAfter_complete acceptedAgain rfl]

/-- The number of a character is a scalar value. -/
theorem scalar_bounds (value : Char) :
    value.val.toNat < 0xD800 ∨ 0xDFFF < value.val.toNat ∧ value.val.toNat < 0x110000 :=
  value.valid

/-- The byte of a number below 256 has that number. -/
theorem toNat_ofNat_byte (number : Nat) (small : number < 256) :
    (UInt8.ofNat number).toNat = number := by
  rw [UInt8.toNat_ofNat', Nat.mod_eq_of_lt small]

/-- The bytes of a character are cut into that character. -/
theorem piecesAfter_encodeChar (value : Char) (rest : Bytes) :
    piecesAfter [] (String.utf8EncodeChar value ++ rest) =
      .character value :: piecesAfter [] rest := by
  have scalar := scalar_bounds value
  have itself : Char.ofNat value.val.toNat = value := Char.ofNat_toNat value
  rw [String.utf8EncodeChar]
  -- The bytes are those of four ranges of numbers; in each the sums are left to arithmetic.
  generalize value.val.toNat = number at scalar itself ⊢
  have leadTwo := toNat_ofNat_byte (number / 64 % 32 + 0xC0) (by omega)
  have leadThree := toNat_ofNat_byte (number / 4096 % 16 + 0xE0) (by omega)
  have leadFour := toNat_ofNat_byte (number / 262144 % 8 + 0xF0) (by omega)
  have high := toNat_ofNat_byte (number / 4096 % 64 + 0x80) (by omega)
  have middle := toNat_ofNat_byte (number / 64 % 64 + 0x80) (by omega)
  have low := toNat_ofNat_byte (number % 64 + 0x80) (by omega)
  split_ifs with one two three
  · have same := toNat_ofNat_byte number (by omega)
    have ascii : UInt8.ofNat number < 0x80 := by
      simp only [UInt8.lt_iff_toNat_lt, same, UInt8.toNat_ofNat]
      omega
    rw [List.singleton_append, piecesAfter_ascii ascii, same, itself]
  · have short : UInt8.ofNat (number / 64 % 32 + 0xC0) < 0xE0 := by
      simp only [UInt8.lt_iff_toNat_lt, leadTwo, UInt8.toNat_ofNat]
      omega
    have whole : ofTwo (UInt8.ofNat (number / 64 % 32 + 0xC0))
        (UInt8.ofNat (number % 64 + 0x80)) = value := by
      rw [ofTwo, leadTwo, low]
      exact (congrArg Char.ofNat (by omega)).trans itself
    exact whole ▸ piecesAfter_two (opens_iff.mpr (by omega)) short rest
  · have long : 0xE0 ≤ UInt8.ofNat (number / 4096 % 16 + 0xE0) := by
      simp only [UInt8.le_iff_toNat_le, leadThree, UInt8.toNat_ofNat]
      omega
    have short : UInt8.ofNat (number / 4096 % 16 + 0xE0) < 0xF0 := by
      simp only [UInt8.lt_iff_toNat_lt, leadThree, UInt8.toNat_ofNat]
      omega
    have whole : ofThree (UInt8.ofNat (number / 4096 % 16 + 0xE0))
        (UInt8.ofNat (number / 64 % 64 + 0x80)) (UInt8.ofNat (number % 64 + 0x80)) = value := by
      rw [ofThree, leadThree, middle, low]
      exact (congrArg Char.ofNat (by omega)).trans itself
    exact whole ▸ piecesAfter_three long (opens_iff.mpr (by omega))
      (isContinuation_iff.mpr (by omega)) short rest
  · have long : 0xF0 ≤ UInt8.ofNat (number / 262144 % 8 + 0xF0) := by
      simp only [UInt8.le_iff_toNat_le, leadFour, UInt8.toNat_ofNat]
      omega
    have whole : ofFour (UInt8.ofNat (number / 262144 % 8 + 0xF0))
        (UInt8.ofNat (number / 4096 % 64 + 0x80)) (UInt8.ofNat (number / 64 % 64 + 0x80))
        (UInt8.ofNat (number % 64 + 0x80)) = value := by
      rw [ofFour, leadFour, high, middle, low]
      exact (congrArg Char.ofNat (by omega)).trans itself
    exact whole ▸ piecesAfter_four long (opens_iff.mpr (by omega))
      (isContinuation_iff.mpr (by omega)) (isContinuation_iff.mpr (by omega)) rest

/-- Written characters are cut into these characters. -/
theorem pieces_encodeChars (characters : List Char) :
    pieces (encodeChars characters) = characters.map Piece.character := by
  induction characters with
  | nil => rfl
  | cons value rest inductionHypothesis =>
    rw [pieces] at inductionHypothesis ⊢
    rw [encodeChars, List.flatMap_cons, piecesAfter_encodeChar]
    exact congrArg _ inductionHypothesis

/-! ## Decoding -/

/-- Pieces that are characters stand for these. -/
theorem mapM_character (characters : List Char) :
    (characters.map Piece.character).mapM Piece.character? = some characters := by
  induction characters with
  | nil => rfl
  | cons value rest inductionHypothesis => simp [inductionHypothesis, Piece.character?]

/-- Pieces of which each stands for a character are characters. -/
theorem eq_map_character {cut : List Piece} {characters : List Char}
    (undamaged : cut.mapM Piece.character? = some characters) :
    cut = characters.map Piece.character := by
  induction cut generalizing characters with
  | nil => simp_all
  | cons piece rest inductionHypothesis =>
    cases piece with
    | damaged bytes => simp [Piece.character?] at undamaged
    | character value =>
      simp only [List.mapM_cons, Piece.character?, Option.pure_def, Option.bind_eq_bind,
        Option.bind_some, Option.bind_eq_some_iff] at undamaged
      obtain ⟨others, decoded, same⟩ := undamaged
      obtain rfl := Option.some.inj same
      rw [inductionHypothesis decoded, List.map_cons]

/-- Bytes decode to characters exactly if the characters are written with them. -/
theorem decodeChars?_eq_some_iff {bytes : Bytes} {characters : List Char} :
    decodeChars? bytes = some characters ↔ encodeChars characters = bytes := by
  constructor
  · intro decoded
    have cut := eq_map_character decoded
    rw [← flatMap_source_pieces bytes, cut, List.flatMap_map]
    rfl
  · rintro rfl
    rw [decodeChars?, pieces_encodeChars, mapM_character]

/-- A text decodes from what it is written with. -/
theorem decode?_eq_some_iff {bytes : Bytes} {text : String} :
    decode? bytes = some text ↔ encode text = bytes := by
  rw [decode?, Option.map_eq_some_iff, encode]
  constructor
  · rintro ⟨characters, decoded, rfl⟩
    rw [String.toList_ofList]
    exact decodeChars?_eq_some_iff.mp decoded
  · intro written
    exact ⟨text.toList, decodeChars?_eq_some_iff.mpr written, String.ofList_toList⟩

/-! ## Written texts -/

/-- Characters are written one after the other. -/
theorem encodeChars_append (first second : List Char) :
    encodeChars (first ++ second) = encodeChars first ++ encodeChars second :=
  List.flatMap_append

/-- Texts are written one after the other. -/
theorem encode_append (first second : String) :
    encode (first ++ second) = encode first ++ encode second := by
  rw [encode, String.toList_append, encodeChars_append]
  rfl

/-- Characters are written with the bytes of the first before those of the others. -/
theorem encodeChars_cons (first : Char) (rest : List Char) :
    encodeChars (first :: rest) = String.utf8EncodeChar first ++ encodeChars rest := rfl

/-- No character is written as nothing. -/
theorem encodeChars_ne_nil {characters : List Char} (nonempty : characters ≠ []) :
    encodeChars characters ≠ [] := by
  obtain ⟨first, rest, rfl⟩ := List.exists_cons_of_ne_nil nonempty
  have positive := Char.utf8Size_pos first
  rw [← String.length_utf8EncodeChar] at positive
  rw [encodeChars_cons]
  exact List.append_ne_nil_of_left_ne_nil (List.ne_nil_of_length_pos positive) _

/-- The bytes of a text decode to this text. -/
theorem decode?_encode (text : String) : decode? (encode text) = some text :=
  decode?_eq_some_iff.mpr rfl

/-- Lossy decoding shows a byte string without damage as it is. -/
theorem decodeLossy_of_decode? {bytes : Bytes} {text : String}
    (decoded : decode? bytes = some text) : decodeLossy bytes = text := by
  rw [← decode?_eq_some_iff.mp decoded, decodeLossy, decodeLossyChars, encode, pieces_encodeChars,
    List.map_map]
  simp [Function.comp_def, Piece.shown]

/-! ## Single bytes in written characters -/

/-- A byte below `0x80` is only ever written for its own character. -/
theorem mem_encodeChar_iff {byte : UInt8} (ascii : byte < 0x80) {value : Char} :
    byte ∈ String.utf8EncodeChar value ↔ value = Char.ofNat byte.toNat := by
  constructor
  · intro written
    have bound : byte.toNat < 0x80 := ascii
    have itself : Char.ofNat value.val.toNat = value := Char.ofNat_toNat value
    have scalar := scalar_bounds value
    rw [String.utf8EncodeChar] at written
    generalize value.val.toNat = number at scalar itself written
    rw [← itself]
    split_ifs at written with one <;>
      simp only [List.mem_cons, List.not_mem_nil, or_false, ← UInt8.toNat_inj,
        UInt8.toNat_ofNat'] at written
    · exact congrArg Char.ofNat (by omega)
    all_goals omega
  · rintro rfl
    simp [encode_ascii ascii]

/-- A character of a lossy decoding is U+FFFD, or all its bytes stand in what was
decoded. -/
theorem encodeChar_subset_of_mem_decodeLossy {bytes : Bytes} {value : Char}
    (shown : value ∈ decodeLossyChars bytes) (sound : value ≠ Char.ofNat 0xFFFD) :
    String.utf8EncodeChar value ⊆ bytes := by
  obtain ⟨piece, cut, rfl⟩ := List.mem_map.mp shown
  cases piece with
  | damaged run => exact absurd rfl sound
  | character value =>
    intro byte written
    rw [← flatMap_source_pieces bytes]
    exact List.mem_flatMap.mpr ⟨_, cut, written⟩

end ElmWorkbench.Utf8
