/-!
# Texts

Sources, names, string values and messages are sequences of bytes. Most texts
are UTF-8, but nothing requires it: a source may hold any bytes, and every
operation is defined on all of them.
-/

namespace BlockLang

/-- A text is a sequence of bytes. -/
abbrev Text := List UInt8

namespace Text

/-- The UTF-8 bytes of a string. -/
def ofString (s : String) : Text :=
  s.toList.flatMap String.utf8EncodeChar

instance : Coe String Text := ⟨ofString⟩

/-- The decimal digits of a natural number. -/
def ofNat (n : Nat) : Text :=
  (Nat.toDigits 10 n).map Char.toUInt8

/-- The decimal digits of an integer, after a minus sign if it is negative. -/
def ofInt : Int → Text
  | .ofNat n => ofNat n
  | .negSucc n => 0x2D :: ofNat (n + 1)

/-- The texts of a list with a separator between neighbours. -/
def join (separator : Text) (parts : List Text) : Text :=
  List.flatten (parts.intersperse separator)

/-- Blanks in front of a text that is shorter than `width`. -/
def padLeft (width : Nat) (s : Text) : Text :=
  List.replicate (width - s.length) 0x20 ++ s

/-- Byte order, a shorter text before its extensions. -/
def le : Text → Text → Bool
  | [], _ => true
  | _ :: _, [] => false
  | a :: s, b :: t => a < b || (a == b && le s t)

/-- Texts in byte order. -/
def sort (texts : List Text) : List Text :=
  texts.mergeSort le

/-- Whether `part` occurs somewhere in a text. -/
def contains (part : Text) : Text → Bool
  | [] => part.isEmpty
  | b :: s => part.isPrefixOf (b :: s) || contains part s

/-- The text after `start`, or the whole text if it does not begin so. -/
def dropStart (start s : Text) : Text :=
  if start.isPrefixOf s then s.drop start.length else s

/-- The parts of a text between the occurrences of a byte. There is always at
least one part. -/
def splitOn (separator : UInt8) : Text → List Text
  | [] => [[]]
  | b :: s =>
    match b == separator, splitOn separator s with
    | true, parts => [] :: parts
    | false, [] => [[b]]
    | false, part :: parts => (b :: part) :: parts

/-- A text without the bytes at its end that satisfy `p`. -/
def dropEndWhile (p : UInt8 → Bool) (s : Text) : Text :=
  (s.reverse.dropWhile p).reverse

/-- Every carriage return right before a line feed is left out. -/
def unifyLineEnds : Text → Text
  | [] => []
  | a :: s =>
    match a == 0x0D, s with
    | true, 0x0A :: _ => unifyLineEnds s
    | _, _ => a :: unifyLineEnds s

/-- Every line feed becomes a space. -/
def flattenLines (s : Text) : Text :=
  s.map fun b => if b == 0x0A then 0x20 else b

end Text

end BlockLang
