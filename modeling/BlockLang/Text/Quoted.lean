import BlockLang.Text.Utf8
import BlockLang.Text.Printable

/-!
# Quoted texts

Messages show a text between double quotes. Printable characters stand for
themselves, the usual controls have one-letter escapes, and everything else is
written by its code point. A stray byte is written by its value.
-/

namespace BlockLang

namespace Text

/-- The lower-case hexadecimal digits of a number, with zeros in front up to a
width. -/
def hex (width n : Nat) : Text :=
  let digits := (Nat.toDigits 16 n).map Char.toUInt8
  List.replicate (width - digits.length) 0x30 ++ digits

/-- The letter of the escape of a control character, if it has one. -/
def controlLetter? (c : Char) : Option UInt8 :=
  match c.toNat with
  | 0x07 => some 0x61
  | 0x08 => some 0x62
  | 0x0C => some 0x66
  | 0x0A => some 0x6E
  | 0x0D => some 0x72
  | 0x09 => some 0x74
  | 0x0B => some 0x76
  | _ => none

/-- A character between double quotes. -/
def quotedChar (c : Char) : Text :=
  if c.toNat == 0x22 || c.toNat == 0x5C then 0x5C :: String.utf8EncodeChar c
  else if isPrintable c then String.utf8EncodeChar c
  else
    match controlLetter? c with
    | some letter => [0x5C, letter]
    | none =>
      if c.toNat < 0x80 then "\\x" ++ hex 2 c.toNat
      else if c.toNat < 0x10000 then "\\u" ++ hex 4 c.toNat
      else "\\U" ++ hex 8 c.toNat

end Text

/-- A piece between double quotes. -/
def Piece.quoted : Piece → Text
  | .char c => Text.quotedChar c
  | .stray b => "\\x" ++ Text.hex 2 b.toNat

/-- A text between double quotes. -/
def Text.quoted (s : Text) : Text :=
  "\"" ++ (Text.pieces s).flatMap Piece.quoted ++ "\""

end BlockLang
