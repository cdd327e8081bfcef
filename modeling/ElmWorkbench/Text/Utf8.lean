/-!
# UTF-8

Bytes and the characters they stand for. `pieces` cuts any byte string into
characters and damaged runs, where a damaged run is the longest start of a
well-formed sequence that its continuation breaks off. Strict decoding accepts a
byte string without damage, lossy decoding replaces every damaged run by one
replacement character, and `encode` writes characters back.
-/

namespace ElmWorkbench

/-- File contents, file names and messages as they are stored. -/
abbrev Bytes := List UInt8

namespace Utf8

/-- One step of reading a byte string from its front. -/
inductive Piece where
  /-- A well-formed sequence, standing for one character. -/
  | character (value : Char)
  /-- A maximal run of bytes that starts no character. -/
  | damaged (bytes : Bytes)
  deriving DecidableEq

/-- Bytes that may stand inside a sequence after its first two bytes. -/
def isContinuation (byte : UInt8) : Bool :=
  0x80 ≤ byte && byte ≤ 0xBF

/-- Whether `lead` opens a sequence of several bytes in which `second` may
follow. The narrower bounds exclude overlong forms, surrogates and values past
the last scalar. -/
def opens (lead second : UInt8) : Bool :=
  if 0xC2 ≤ lead && lead ≤ 0xDF then isContinuation second
  else if lead = 0xE0 then 0xA0 ≤ second && second ≤ 0xBF
  else if lead = 0xED then 0x80 ≤ second && second ≤ 0x9F
  else if 0xE1 ≤ lead && lead ≤ 0xEF then isContinuation second
  else if lead = 0xF0 then 0x90 ≤ second && second ≤ 0xBF
  else if 0xF1 ≤ lead && lead ≤ 0xF3 then isContinuation second
  else if lead = 0xF4 then 0x80 ≤ second && second ≤ 0x8F
  else false

/-- The character of a two-byte sequence. -/
def ofTwo (lead second : UInt8) : Char :=
  Char.ofNat ((lead.toNat - 0xC0) * 0x40 + (second.toNat - 0x80))

/-- The character of a three-byte sequence. -/
def ofThree (lead second third : UInt8) : Char :=
  Char.ofNat ((lead.toNat - 0xE0) * 0x1000 + (second.toNat - 0x80) * 0x40 + (third.toNat - 0x80))

/-- The character of a four-byte sequence. -/
def ofFour (lead second third fourth : UInt8) : Char :=
  Char.ofNat ((lead.toNat - 0xF0) * 0x40000 + (second.toNat - 0x80) * 0x1000
    + (third.toNat - 0x80) * 0x40 + (fourth.toNat - 0x80))

/-- Whether `byte` may come next in an open sequence. -/
def accepts : Bytes → UInt8 → Bool
  | [lead], byte => opens lead byte
  | [lead, _], byte => 0xE0 ≤ lead && isContinuation byte
  | [lead, _, _], byte => 0xF0 ≤ lead && isContinuation byte
  | _, _ => false

/-- The character of an open sequence that needs no more bytes. -/
def complete? : Bytes → Option Char
  | [lead, second] => if lead < 0xE0 then some (ofTwo lead second) else none
  | [lead, second, third] => if lead < 0xF0 then some (ofThree lead second third) else none
  | [lead, second, third, fourth] => some (ofFour lead second third fourth)
  | _ => none

/-- The run left behind by a sequence that stays open. -/
def abandon : Bytes → List Piece
  | [] => []
  | bytes => [.damaged bytes]

/-- Read a byte at which no sequence is open: what it completes, and the sequence
that it opens. -/
def start (byte : UInt8) : List Piece × Bytes :=
  if byte < 0x80 then ([.character (Char.ofNat byte.toNat)], [])
  else if 0xC2 ≤ byte && byte ≤ 0xF4 then ([], [byte])
  else ([.damaged [byte]], [])

/-- Read the next byte after the open sequence `pending`. A byte that the
sequence does not accept leaves it behind as damaged and is read afresh. -/
def advance (pending : Bytes) (byte : UInt8) : List Piece × Bytes :=
  if accepts pending byte then
    match complete? (pending ++ [byte]) with
    | some value => ([.character value], [])
    | none => ([], pending ++ [byte])
  else
    let (completed, opened) := start byte
    (abandon pending ++ completed, opened)

/-- Cut a byte string that continues the open sequence `pending`. -/
def piecesAfter (pending : Bytes) : Bytes → List Piece
  | [] => abandon pending
  | byte :: rest =>
    let (completed, opened) := advance pending byte
    completed ++ piecesAfter opened rest

/-- Cut a byte string into characters and damaged runs. -/
def pieces (bytes : Bytes) : List Piece :=
  piecesAfter [] bytes

/-- The character of an undamaged piece. -/
def Piece.character? : Piece → Option Char
  | .character value => some value
  | .damaged _ => none

/-- The character shown for a piece: U+FFFD where the bytes are damaged. -/
def Piece.shown : Piece → Char
  | .character value => value
  | .damaged _ => Char.ofNat 0xFFFD

/-- The characters of a byte string without damage. -/
def decodeChars? (bytes : Bytes) : Option (List Char) :=
  (pieces bytes).mapM Piece.character?

/-- The text of a byte string without damage. -/
def decode? (bytes : Bytes) : Option String :=
  (decodeChars? bytes).map String.ofList

/-- The number of bytes before the first damaged run. -/
def soundLength (bytes : Bytes) : Nat :=
  (String.ofList (((pieces bytes).takeWhile fun piece => piece.character?.isSome).map
    Piece.shown)).utf8ByteSize

/-- Whether a byte string holds no damage. -/
def isValid (bytes : Bytes) : Bool :=
  (pieces bytes).all fun piece => piece.character?.isSome

/-- The characters of any byte string, one U+FFFD for each damaged run. -/
def decodeLossyChars (bytes : Bytes) : List Char :=
  (pieces bytes).map Piece.shown

/-- The text of any byte string, one U+FFFD for each damaged run. -/
def decodeLossy (bytes : Bytes) : String :=
  String.ofList (decodeLossyChars bytes)

/-- Write characters as bytes. -/
def encodeChars (characters : List Char) : Bytes :=
  characters.flatMap String.utf8EncodeChar

/-- Write a text as bytes. -/
def encode (text : String) : Bytes :=
  encodeChars text.toList

end Utf8

end ElmWorkbench
