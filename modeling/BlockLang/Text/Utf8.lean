import BlockLang.Text

/-!
# Characters of a text

A text is read from the left as a sequence of *pieces*: a piece is a character
in its shortest UTF-8 form, or a single byte that does not start one. Reading
pieces loses nothing, since a stray byte is kept as it is. Wherever characters
are counted or indexed, a stray byte counts as one replacement character.
-/

namespace BlockLang

/-- A character of a text, or a byte that belongs to no character. -/
inductive Piece where
  | char (c : Char)
  | stray (b : UInt8)
  deriving DecidableEq

namespace Piece

/-- The character that stands for a stray byte. -/
def replacement : Char := Char.ofNat 0xFFFD

/-- What a piece counts as when characters are indexed. -/
def toChar : Piece → Char
  | char c => c
  | stray _ => replacement

/-- The bytes a piece was read from. -/
def bytes : Piece → Text
  | char c => String.utf8EncodeChar c
  | stray b => [b]

/-- Whether a piece is a character. -/
def isChar : Piece → Bool
  | char _ => true
  | stray _ => false

end Piece

namespace Text

/-- The UTF-8 form of a list of characters. -/
def ofChars (cs : List Char) : Text :=
  cs.flatMap String.utf8EncodeChar

/-- The value of a character whose leading bits are `high` and whose remaining
`n` bytes stand at the front of `s`, or nothing if they are not continuation
bytes. -/
def continued : Nat → Nat → Text → Option Nat
  | 0, high, _ => some high
  | _ + 1, _, [] => none
  | n + 1, high, b :: s =>
    if 0x80 ≤ b && b < 0xC0 then continued n (high * 64 + (b.toNat - 0x80)) s
    else none

/-- The character with a given code point, unless a shorter form exists for it
(it is below `least`) or no character has it. -/
def scalar? (least n : Nat) : Option Char :=
  if h : n.isValidChar then
    if least ≤ n then some (Char.ofNatAux n h) else none
  else none

/-- The character whose `n` bytes after the first start `s`. -/
def sequence? (n high least : Nat) (s : Text) : Option (Char × Nat) :=
  ((continued n high s).bind (scalar? least)).map (·, n)

/-- The character whose first byte is `a` and whose other bytes start `s`, with
the number of those bytes. -/
def leading? (a : UInt8) (s : Text) : Option (Char × Nat) :=
  if a < 0x80 then (scalar? 0 a.toNat).map (·, 0)
  else if a < 0xC0 then none
  else if a < 0xE0 then sequence? 1 (a.toNat - 0xC0) 0x80 s
  else if a < 0xF0 then sequence? 2 (a.toNat - 0xE0) 0x800 s
  else if a < 0xF8 then sequence? 3 (a.toNat - 0xF0) 0x10000 s
  else none

/-- The pieces of a text after its first `skip` bytes. -/
def piecesAfter : Nat → Text → List Piece
  | _, [] => []
  | skip + 1, _ :: s => piecesAfter skip s
  | 0, a :: s =>
    match leading? a s with
    | some (c, n) => .char c :: piecesAfter n s
    | none => .stray a :: piecesAfter 0 s

/-- The pieces of a text from left to right. -/
def pieces (s : Text) : List Piece :=
  piecesAfter 0 s

/-- The characters of a text, one for each stray byte. -/
def chars (s : Text) : List Char :=
  (pieces s).map Piece.toChar

/-- The number of characters of a text. -/
def charCount (s : Text) : Nat :=
  (pieces s).length

/-- Whether a text is UTF-8 throughout. -/
def isUtf8 (s : Text) : Bool :=
  (pieces s).all Piece.isChar

/-- A text with every stray byte replaced by the replacement character. -/
def repaired (s : Text) : Text :=
  ofChars (chars s)

end Text

end BlockLang
