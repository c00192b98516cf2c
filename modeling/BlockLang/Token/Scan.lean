import BlockLang.Token
import BlockLang.Text.Utf8

/-!
# Scanning

Scanning cuts a source into lexemes from left to right. What a lexeme is depends
only on the bytes from its start on, and a malformed piece of source becomes a
lexeme of a malformed kind, so scanning never fails. A NUL byte ends words,
comments and strings as the end of the source does, and is a malformed lexeme by
itself.
-/

namespace BlockLang

/-- The longest identifier, in characters. -/
def maxIdentifierLength : Nat := 60

/-- The longest integer literal, in bytes. -/
def maxIntegerLength : Nat := 20

/-- The longest string, in characters between its quotes and with the opening
one. -/
def maxStringLength : Nat := 1000

namespace Scan

/-- The bytes between tokens. -/
def isSpace (b : UInt8) : Bool :=
  b == 0x20 || b == 0x09 || b == 0x0D || b == 0x0A

/-- Whether a byte ends the source for everything that is read up to its end. -/
def isEnd (b : UInt8) : Bool :=
  b == 0x00

/-- Whether a byte is an ASCII digit. -/
def isDigit (b : UInt8) : Bool :=
  0x30 ≤ b && b ≤ 0x39

/-- Whether a byte is a plus or minus sign. -/
def isSign (b : UInt8) : Bool :=
  b == 0x2B || b == 0x2D

/-- Whether a comment starts with a byte and the text after it. -/
def startsComment (b : UInt8) (s : Text) : Bool :=
  b == 0x2F && s.head? == some 0x2F

/-- The kind of a token that is a single byte. -/
def punctuation? (b : UInt8) : Option Kind :=
  match b with
  | 0x28 => some .openParen
  | 0x29 => some .closeParen
  | 0x7B => some .openBrace
  | 0x7D => some .closeBrace
  | 0x2C => some .comma
  | 0x3B => some .semicolon
  | 0x3D => some .equals
  | _ => none

/-- Whether a word ends in front of a byte and the text after it. -/
def delimits (b : UInt8) (s : Text) : Bool :=
  isSpace b || isEnd b || startsComment b s || (punctuation? b).isSome

/-- The longest beginning of a text without a delimiter. -/
def word : Text → Text
  | [] => []
  | b :: s => if delimits b s then [] else b :: word s

/-- The part of a comment after its two slashes. -/
def commentBody (s : Text) : Text :=
  s.takeWhile fun b => b != 0x0A && !isEnd b

/-- What the body of a string denotes, how many bytes it has, how many lines end in it
and whether a closing quote follows it. -/
structure StringBody where
  value : Text
  length : Nat
  lines : Nat
  closed : Bool

/-- The byte that an escape denotes. -/
def unescape (b : UInt8) : UInt8 :=
  match b with
  | 0x6E => 0x0A
  | 0x74 => 0x09
  | _ => b

/-- How many lines end with a byte. -/
def lineEnds (b : UInt8) : Nat :=
  if b == 0x0A then 1 else 0

/-- The body of a string up to its closing quote or the end of the source. A
backslash takes the byte after it along, unless the source ends there. -/
def stringBody : Text → StringBody
  | [] => ⟨[], 0, 0, false⟩
  | [b] =>
    if isEnd b then ⟨[], 0, 0, false⟩
    else if b == 0x22 then ⟨[], 0, 0, true⟩
    else ⟨[b], 1, lineEnds b, false⟩
  | b :: e :: s =>
    if isEnd b then ⟨[], 0, 0, false⟩
    else if b == 0x22 then ⟨[], 0, 0, true⟩
    else if b == 0x5C && !isEnd e then
      let body := stringBody s
      ⟨unescape e :: body.value, body.length + 2, lineEnds e + body.lines, body.closed⟩
    else
      let body := stringBody (e :: s)
      ⟨b :: body.value, body.length + 1, lineEnds b + body.lines, body.closed⟩

end Scan

/-- A token without its place in the source, and how many lines end in it. -/
structure Lexeme where
  kind : Kind
  literal : Text
  length : Nat
  lines : Nat

namespace Lexeme

/-- A lexeme whose literal is its span, in which no line ends. -/
def ofSpan (kind : Kind) (span : Text) : Lexeme :=
  ⟨kind, span, span.length, 0⟩

/-- The bytes between two tokens. -/
def blank (span : Text) : Lexeme :=
  ⟨.whitespace, span, span.length, span.foldl (fun lines b => lines + Scan.lineEnds b) 0⟩

/-- The kind of a word that starts with a digit or a sign. -/
def integerKind (span : Text) : Kind :=
  if span.length == 1 && span.any Scan.isSign then .loneSign
  else if maxIntegerLength < span.length then .longInteger
  else .integer

/-- The kind of any other word. -/
def wordKind (span : Text) : Kind :=
  if maxIdentifierLength < span.charCount then .longIdentifier
  else Kind.ofWord span

/-- The string whose opening quote stands before `s`. -/
def string (s : Text) : Lexeme :=
  let body := Scan.stringBody s
  let span : Text := 0x22 :: s.take body.length
  let kind :=
    if maxStringLength < span.charCount then Kind.longString
    else if body.closed then Kind.string
    else Kind.openString
  ⟨kind, body.value, body.length + (if body.closed then 2 else 1), body.lines⟩

/-- The first lexeme of the source that starts with byte `b` and goes on with
`s`. -/
def first (b : UInt8) (s : Text) : Lexeme :=
  if Scan.isSpace b then blank (b :: s.takeWhile Scan.isSpace)
  else if Scan.startsComment b s then ofSpan .comment (b :: 0x2F :: Scan.commentBody (s.drop 1))
  else if b == 0x22 then string s
  else if Scan.isDigit b || Scan.isSign b then
    let span := b :: Scan.word s
    ofSpan (integerKind span) span
  else if b == 0x3D && s.head? == some 0x3E then ofSpan .arrow [0x3D, 0x3E]
  else if Scan.isEnd b then ofSpan .illegal [b]
  else
    match Scan.punctuation? b with
    | some kind => ofSpan kind [b]
    | none =>
      let span := b :: Scan.word s
      ofSpan (wordKind span) span

end Lexeme

/-- The tokens of a source after its first `skip` bytes, where the source starts at the
given position and the first of the tokens is on the given line. -/
def scanAfter : Nat → Nat → Nat → Text → List Token
  | _, _, _, [] => []
  | skip + 1, position, line, _ :: s => scanAfter skip (position + 1) line s
  | 0, position, line, b :: s =>
    let lexeme := Lexeme.first b s
    ⟨lexeme.kind, lexeme.literal, position, lexeme.length, line⟩ ::
      scanAfter (lexeme.length - 1) (position + 1) (line + lexeme.lines) s

/-- The tokens of a source, trivia included. -/
def scan (source : Text) : List Token :=
  scanAfter 0 0 1 source

/-- The spans of a list of tokens in a source, one after the other. -/
def spans (source : Text) (tokens : List Token) : Text :=
  tokens.flatMap fun t => (source.drop t.position).take t.length

end BlockLang
