import BlockLang.Config.Toml.Moment
import BlockLang.Numeral
import BlockLang.Text.Hex
import BlockLang.Text.Letter

/-!
# Statements of a TOML text

A text in TOML is a sequence of statements, each on a line of its own: headers of
tables, and keys with values. Keys have several parts. Values may be lists and
tables of other values, which may run over several lines.
-/

namespace BlockLang

namespace Toml

/-- A value. Of fractions and dates nothing matters but that they are values. -/
inductive Datum where
  | flag (b : Bool)
  | number (n : Int)
  | text (s : Text)
  | other
  | list (items : List Datum)
  | table (fields : List (List Text × Datum))

/-- A statement. A repeatable header begins another table of the same name. -/
inductive Statement where
  | header (key : List Text) (repeatable : Bool)
  | setting (key : List Text) (value : Datum)

/-- Whether a character is a space or a tab. -/
def isBlank (c : Char) : Bool :=
  c == ' ' || c == '\t'

/-- Whether a character belongs to a line end. -/
def isLineEnd (c : Char) : Bool :=
  c == '\n' || c == '\r'

/-- A text without the blanks in front. -/
def skipBlanks (s : List Char) : List Char :=
  s.dropWhile isBlank

/-- A text without the blanks, line ends and comments in front, of which there are at
most `fuel`. -/
def skipLines : Nat → List Char → List Char
  | 0, s => s
  | fuel + 1, s =>
    match s.dropWhile fun c => isBlank c || isLineEnd c with
    | '#' :: s => skipLines fuel (s.dropWhile (!isLineEnd ·))
    | s => s

/-- A text without everything in front of the next item. -/
def skipAll (s : List Char) : List Char :=
  skipLines (s.length + 1) s

/-- Whether a character may stand in a key without quotes. -/
def isBare (c : Char) : Bool :=
  c.isAlphanum || c == '_' || c == '-'

/-- The character that an escape after its backslash stands for, and how many
characters the escape takes. -/
def escape? : List Char → Option (Char × Nat)
  | [] => none
  | c :: s =>
    match c with
    | 'b' => some ('\x08', 1)
    | 't' => some ('\t', 1)
    | 'n' => some ('\n', 1)
    | 'f' => some ('\x0c', 1)
    | 'r' => some ('\r', 1)
    | 'e' => some ('\x1b', 1)
    | '\x22' | '\\' => some (c, 1)
    | 'x' => (Text.hexChar? 2 s).map (·, 3)
    | 'u' => (Text.hexChar? 4 s).map (·, 5)
    | 'U' => (Text.hexChar? 8 s).map (·, 9)
    | _ => none

/-- A string with escapes after its first quote, of at most `fuel` characters, and
the rest. -/
def basicString : Nat → List Char → Option (List Char × List Char)
  | 0, _ => none
  | _, [] => none
  | fuel + 1, c :: s =>
    if c == '\x22' then some ([], s)
    else if isLineEnd c then none
    else do
      let (char, n) ← if c == '\\' then escape? s else some (c, 0)
      let (t, rest) ← basicString fuel (s.drop n)
      return (char :: t, rest)

/-- A string without escapes after its first quote, and the rest. -/
def literalString (s : List Char) : Option (List Char × List Char) :=
  let t := s.takeWhile fun c => c != '\x27' && !isLineEnd c
  match s.drop t.length with
  | '\x27' :: rest => some (t, rest)
  | _ => none

/-- What quotes at the front of a text do to a string over several lines. Fewer than
three belong to it; up to five end it, of which the last three do not belong to
it. -/
inductive QuoteRun where
  | inside (n : Nat)
  | last (n : Nat)

/-- The quotes at the front of a text. -/
def quoteRun? (quote : Char) (s : List Char) : Option QuoteRun :=
  let n := (s.takeWhile (· == quote)).length
  if n < 3 then some (.inside n) else if n < 6 then some (.last (n - 3)) else none

/-- A string over several lines, of at most `fuel` characters, and the rest. With
escapes, a backslash at the end of a line takes all blanks and line ends after it
away. -/
def longString (quote : Char) (escapes : Bool) : Nat → List Char → Option (List Char × List Char)
  | 0, _ => none
  | _, [] => none
  | fuel + 1, c :: s =>
    if c == quote then
      match quoteRun? quote (c :: s) with
      | none => none
      | some (.last n) => some (List.replicate n quote, (c :: s).drop (n + 3))
      | some (.inside n) => do
        let (t, rest) ← longString quote escapes fuel ((c :: s).drop n)
        return (List.replicate n quote ++ t, rest)
    else if escapes && c == '\\' then
      let blanks := s.takeWhile fun c => isBlank c || isLineEnd c
      if blanks.contains '\n' then longString quote escapes fuel (s.drop blanks.length)
      else do
        let (char, n) ← escape? s
        let (t, rest) ← longString quote escapes fuel (s.drop n)
        return (char :: t, rest)
    else do
      let (t, rest) ← longString quote escapes fuel s
      return (c :: t, rest)

/-- A text without a line end in front. -/
def skipLineEnd : List Char → List Char
  | '\n' :: s => s
  | '\r' :: '\n' :: s => s
  | s => s

/-- A string, and the rest. -/
def string? (s : List Char) : Option (List Char × List Char) :=
  match s with
  | '\x22' :: '\x22' :: '\x22' :: s => longString '\x22' true (s.length + 1) (skipLineEnd s)
  | '\x27' :: '\x27' :: '\x27' :: s => longString '\x27' false (s.length + 1) (skipLineEnd s)
  | '\x22' :: s => basicString (s.length + 1) s
  | '\x27' :: s => literalString s
  | _ => none

/-- A part of a key, and the rest. -/
def keyPart? (s : List Char) : Option (Text × List Char) := do
  match skipBlanks s with
  | '\x22' :: s =>
    let (t, rest) ← basicString (s.length + 1) s
    return (Text.ofChars t, rest)
  | '\x27' :: s =>
    let (t, rest) ← literalString s
    return (Text.ofChars t, rest)
  | s =>
    let part := s.takeWhile isBare
    if part.isEmpty then failure
    return (Text.ofChars part, s.drop part.length)

/-- A key of at most `fuel` parts, and the rest without the blanks in front. -/
def keyParts? : Nat → List Char → Option (List Text × List Char)
  | 0, _ => none
  | fuel + 1, s => do
    let (part, rest) ← keyPart? s
    match skipBlanks rest with
    | '.' :: rest =>
      let (parts, rest) ← keyParts? fuel rest
      return (part :: parts, rest)
    | rest => return ([part], rest)

/-- A key, and the rest without the blanks in front. -/
def key? (s : List Char) : Option (List Text × List Char) :=
  keyParts? (s.length + 1) s

/-- Whether a byte is a hexadecimal digit. -/
def isHex (b : UInt8) : Bool :=
  match Numeral.digit? b with
  | some d => d < 16
  | none => false

/-- Whether the last byte is a digit, and every underscore comes after one. -/
def isGrouped (after : Bool) : Text → Bool
  | [] => after
  | b :: s => (b != 0x5F || after) && isGrouped (isHex b) s

/-- Whether a numeral begins with a zero that it could do without. -/
def hasSpareZero : Text → Bool
  | 0x30 :: b :: _ => b != 0x62 && b != 0x6F && b != 0x78
  | b :: 0x30 :: _ :: _ => b == 0x2B || b == 0x2D
  | _ => false

/-- The whole number that a numeral stands for. -/
def whole? (s : Text) : Option Datum :=
  if !isGrouped false s || hasSpareZero s then none
  else
    match Numeral.read s with
    | .ok n => some (.number n.toInt)
    | .error _ => none

/-- The parts of a text between points and the letters of exponents. -/
def numberParts (s : Text) : List Text :=
  let parts := (s.map fun b => if b == 0x65 || b == 0x45 then 0x2E else b).splitOn 0x2E
  parts.filter (!·.isEmpty)

/-- Whether a digit comes after every point. -/
def hasFullPoints : Text → Bool
  | [] => true
  | b :: s => (b != 0x2E || s.head?.any Decimal.isDigit) && hasFullPoints s

/-- The fraction that a numeral stands for, if it is in range. -/
def fraction? (s : Text) : Option Datum := do
  let parts := numberParts s
  if !parts.all (isGrouped false) || hasSpareZero (parts.head?.getD []) then failure
  if !hasFullPoints s then failure
  let _ ← (← Decimal.read? (s.filter (· != 0x5F))).size?
  return .other

/-- The characters of a fraction. -/
def isFractionChar (c : Char) : Bool :=
  c.isDigit || "_.-+eE".contains c

/-- The characters of a date or a time. -/
def isMomentChar (c : Char) : Bool :=
  c.isDigit || "-:Tt .Zz+".contains c

/-- A date or a time, and the rest. Spaces after it may be left in the text. -/
def moment? (s : List Char) : Option (Datum × List Char) :=
  let word := s.takeWhile isMomentChar
  let moment := Text.dropEndWhile (· == 0x20) (Text.ofChars word)
  if isMoment moment then some (.other, s.drop word.length) else none

/-- A numeral in base ten, of which `n` characters are known to belong to it, and the
rest. -/
def decimal? (n : Nat) (s : List Char) : Option (Datum × List Char) :=
  let n := n + ((s.drop n).takeWhile fun c => c.isDigit || c == '_').length
  let isFraction :=
    match s.drop n with
    | c :: _ => c == '.' || c == 'e' || c == 'E'
    | [] => false
  if isFraction then
    let n := n + ((s.drop n).takeWhile isFractionChar).length
    (fraction? (Text.ofChars (s.take n))).map (·, s.drop n)
  else (whole? (Text.ofChars (s.take n))).map (·, s.drop n)

/-- A numeral in another base after its mark, and the rest. -/
def marked? (base : Nat) (s : List Char) : Option (Datum × List Char) := do
  let isIn (c : Char) : Bool := (Text.hexDigit? c).any (· < base)
  if !(s.drop 2).head?.any isIn then failure
  let n := 2 + ((s.drop 2).takeWhile fun c => isIn c || c == '_').length
  return (← whole? (Text.ofChars (s.take n)), s.drop n)

/-- A value that begins with a digit, and the rest. -/
def numeral? (s : List Char) : Option (Datum × List Char) :=
  match s with
  | '0' :: 'b' :: _ => marked? 2 s
  | '0' :: 'o' :: _ => marked? 8 s
  | '0' :: 'x' :: _ => marked? 16 s
  | s =>
    let digits := s.takeWhile Char.isDigit
    match s.drop digits.length with
    | c :: _ =>
      if (c == '-' || c == ':') && 1 < digits.length then moment? s else decimal? digits.length s
    | [] => decimal? digits.length s

/-- A value that begins with a sign, and the rest. -/
def signed? (s : List Char) : Option (Datum × List Char) :=
  match s.drop 1 with
  | 'i' :: 'n' :: 'f' :: rest => some (.other, rest)
  | 'n' :: 'a' :: 'n' :: rest => some (.other, rest)
  | '0' :: 'b' :: _ | '0' :: 'o' :: _ | '0' :: 'x' :: _ => none
  | c :: _ => if c.isDigit then decimal? 1 s else none
  | [] => none

/-- A value that is a word, and the rest. -/
def word? (s : List Char) : Option (Datum × List Char) :=
  match s with
  | 'i' :: 'n' :: 'f' :: rest => some (.other, rest)
  | 'n' :: 'a' :: 'n' :: rest => some (.other, rest)
  | s =>
    let word := s.takeWhile Text.isLetter
    let rest := s.drop word.length
    if word == "true".toList then some (.flag true, rest)
    else if word == "false".toList then some (.flag false, rest)
    else none

/-- A value that holds no others, and the rest. -/
def simple? (s : List Char) : Option (Datum × List Char) :=
  match s with
  | [] => none
  | c :: _ =>
    if c == '\x22' || c == '\x27' then
      (string? s).map fun (t, rest) => (.text (Text.ofChars t), rest)
    else if c == '+' || c == '-' then signed? s
    else if c.isDigit then numeral? s
    else word? s

mutual

/-- A value, and the rest. Values nest at most `fuel` deep. -/
def value? : Nat → List Char → Option (Datum × List Char)
  | 0, _ => none
  | fuel + 1, s =>
    match skipBlanks s with
    | '[' :: s => (items? fuel (skipAll s)).map fun (items, rest) => (.list items, rest)
    | '\x7b' :: s => (fields? fuel (skipAll s)).map fun (fields, rest) => (.table fields, rest)
    | s => simple? s

/-- The items of a list, and the rest. -/
def items? : Nat → List Char → Option (List Datum × List Char)
  | 0, _ => none
  | fuel + 1, s =>
    match s with
    | ']' :: rest => some ([], rest)
    | s => do
      let (item, rest) ← value? fuel s
      match skipAll rest with
      | ',' :: rest =>
        let (items, rest) ← items? fuel (skipAll rest)
        return (item :: items, rest)
      | ']' :: rest => return ([item], rest)
      | _ => failure

/-- The fields of a table that is written as a value, and the rest. -/
def fields? : Nat → List Char → Option (List (List Text × Datum) × List Char)
  | 0, _ => none
  | fuel + 1, s =>
    match s with
    | '\x7d' :: rest => some ([], rest)
    | s => do
      let (key, rest) ← key? s
      match rest with
      | '=' :: rest =>
        let (v, rest) ← value? fuel rest
        match skipAll rest with
        | ',' :: rest =>
          let (fields, rest) ← fields? fuel (skipAll rest)
          return ((key, v) :: fields, rest)
        | '\x7d' :: rest => return ([(key, v)], rest)
        | _ => failure
      | _ => failure

end

/-- A header of a table after its first bracket, and the rest. -/
def header? (s : List Char) : Option (Statement × List Char) := do
  let repeatable := s.head? == some '['
  let (key, rest) ← key? (if repeatable then s.drop 1 else s)
  match repeatable, rest with
  | true, ']' :: ']' :: rest | false, ']' :: rest => return (.header key repeatable, rest)
  | _, _ => failure

/-- A key with a value, and the rest. -/
def setting? (s : List Char) : Option (Statement × List Char) := do
  let (key, rest) ← key? s
  match rest with
  | '=' :: rest =>
    let (v, rest) ← value? (rest.length + 1) rest
    return (.setting key v, rest)
  | _ => failure

/-- What comes after the line on which a statement ended. -/
def afterStatement? (s : List Char) : Option (List Char) :=
  match skipBlanks s with
  | [] => some []
  | c :: s => if c == '#' || isLineEnd c then some (c :: s) else none

/-- The statements of a text, of which there are at most `fuel`. -/
def statements? : Nat → List Char → Option (List Statement)
  | 0, _ => none
  | fuel + 1, s =>
    match skipAll s with
    | [] => some []
    | c :: s => do
      let (statement, rest) ← if c == '[' then header? s else setting? (c :: s)
      return statement :: (← statements? fuel (← afterStatement? rest))

/-- Whether a character in front of a text may stand in a file. -/
def isAllowed (c : Char) (s : List Char) : Bool :=
  let n := c.toNat
  if n == 0x0D then s.head? == some '\n' else n == 0x09 || n == 0x0A || (0x20 ≤ n && n != 0x7F)

/-- Whether all characters of a text may stand in a file. -/
def areAllowed : List Char → Bool
  | [] => true
  | c :: s => isAllowed c s && areAllowed s

/-- A text without the mark of its encoding. -/
def withoutMark (s : Text) : Text :=
  match s with
  | 0xFF :: 0xFE :: s | 0xFE :: 0xFF :: s | 0xEF :: 0xBB :: 0xBF :: s => s
  | s => s

/-- The statements of a file. -/
def Statement.readAll? (s : Text) : Option (List Statement) := do
  let s := withoutMark s
  let chars := Text.chars s
  if !Text.isUtf8 s || !areAllowed chars then failure
  statements? (chars.length + 1) chars

end Toml

end BlockLang
