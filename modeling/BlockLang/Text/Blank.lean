import BlockLang.Text.Utf8

/-!
# Blanks

The blank characters are the ASCII spaces and line ends, the next-line control,
the no-break space and the spaces and separators of Unicode. A text is trimmed
and cut into words at blanks; a stray byte is never blank.
-/

namespace BlockLang

namespace Text

/-- Whether a character is blank. -/
def isBlank (c : Char) : Bool :=
  let n := c.toNat
  (0x09 ≤ n && n ≤ 0x0D) || n == 0x20 || n == 0x85 || n == 0xA0 || n == 0x1680 ||
    (0x2000 ≤ n && n ≤ 0x200A) || n == 0x2028 || n == 0x2029 || n == 0x202F || n == 0x205F ||
    n == 0x3000

end Text

/-- Whether a piece is a blank character. -/
def Piece.isBlank : Piece → Bool
  | .char c => Text.isBlank c
  | .stray _ => false

namespace Text

/-- A text without the blanks at its two ends. -/
def trim (s : Text) : Text :=
  let front := (pieces s).dropWhile Piece.isBlank
  ((front.reverse.dropWhile Piece.isBlank).reverse).flatMap Piece.bytes

/-- The words of a sequence of pieces, where `word` has been read of the first. -/
def wordsFrom (word : Text) : List Piece → List Text
  | [] => if word.isEmpty then [] else [word]
  | p :: ps =>
    if p.isBlank then
      if word.isEmpty then wordsFrom [] ps else word :: wordsFrom [] ps
    else wordsFrom (word ++ p.bytes) ps

/-- The words of a text, which are separated by blanks. -/
def words (s : Text) : List Text :=
  wordsFrom [] (pieces s)

end Text

end BlockLang
