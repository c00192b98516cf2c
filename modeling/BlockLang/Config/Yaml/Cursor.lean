import BlockLang.Text.Utf8

/-!
# Places in a YAML text

Lines end at a carriage return, a line feed, both together, or one of three other
characters. A place knows its line and column, because columns decide what belongs
together, and it can be moved over blanks and comments.
-/

namespace BlockLang

namespace Yaml

/-- Whether a character is a space or a tab. -/
def isBlank (c : Char) : Bool :=
  c == ' ' || c == '\t'

/-- Whether a character ends a line. -/
def isBreak (c : Char) : Bool :=
  let n := c.toNat
  n == 0x0A || n == 0x0D || n == 0x85 || n == 0x2028 || n == 0x2029

/-- Whether a word ends before a text. -/
def isApart : List Char → Bool
  | [] => true
  | c :: _ => isBlank c || isBreak c

/-- What a line end at the front of a text stands for inside a value, and how many
characters it takes. Line and paragraph separators stand for themselves. -/
def lineEnd? : List Char → Option (List Char × Nat)
  | [] => none
  | c :: s =>
    if c.toNat == 0x0D && s.head? == some '\n' then some (['\n'], 2)
    else if c.toNat == 0x2028 || c.toNat == 0x2029 then some ([c], 1)
    else if isBreak c then some (['\n'], 1)
    else none

/-- A place in a text: what follows it, how many characters come before it, its
line and column, and whether its line has begun with nothing but blanks since a
line end was passed. -/
structure Cursor where
  rest : List Char
  offset : Nat
  line : Nat
  column : Nat
  atMargin : Bool

namespace Cursor

/-- The place before a text. -/
def start (s : List Char) : Cursor :=
  ⟨s, 0, 0, 0, false⟩

/-- The place after the next character, which does not end a line. -/
def next (c : Cursor) : Cursor :=
  match c.rest with
  | [] => c
  | a :: s => ⟨s, c.offset + 1, c.line, c.column + 1, c.atMargin && isBlank a⟩

/-- The place `n` characters further on the line. -/
def forward : Nat → Cursor → Cursor
  | 0, c => c
  | n + 1, c => forward n c.next

/-- The place before the first character further on the line without a property. -/
def skip (p : Char → Bool) (c : Cursor) : Cursor :=
  c.forward (c.rest.takeWhile p).length

/-- The text of the line end at a place, and the place after it. -/
def lineEnd (c : Cursor) : List Char × Cursor :=
  match lineEnd? c.rest with
  | some (text, n) => (text, ⟨c.rest.drop n, c.offset + n, c.line + 1, 0, true⟩)
  | none => ([], c)

/-- The place at the end of the line. -/
def toLineEnd (c : Cursor) : Cursor :=
  c.skip (!isBreak ·)

/-- Whether a line ends at a place. -/
def atBreak (c : Cursor) : Bool :=
  match c.rest with
  | [] => false
  | a :: _ => isBreak a

/-- The place after blanks and line ends, of which there are at most `fuel`. -/
def skipGap : Nat → Cursor → Cursor
  | 0, c => c
  | fuel + 1, c =>
    if c.atBreak then skipGap fuel c.lineEnd.2
    else
      match c.rest with
      | a :: _ => if isBlank a then skipGap fuel c.next else c
      | [] => c

/-- Whether a mark of three characters stands alone at the start of a line. -/
def isMark (mark : List Char) (c : Cursor) : Bool :=
  c.column == 0 && mark.isPrefixOf c.rest && isApart (c.rest.drop 3)

/-- Whether a document begins or ends at a place. -/
def atMark (c : Cursor) : Bool :=
  c.isMark ['-', '-', '-'] || c.isMark ['.', '.', '.']

/-- How far a comment is looked for. -/
def reach : Nat :=
  512

/-- The place after a comment on the line on which something ended. -/
def skipRemark (c : Cursor) : Cursor :=
  if !c.atMargin && ((c.rest.take reach).dropWhile isBlank).head? == some '#' then c.toLineEnd
  else c

/-- The place after a comment and the comments on the lines below, of which there
are at most `fuel`. Blank lines between comments belong to them. -/
def skipComments : Nat → Cursor → Cursor
  | 0, c => c
  | fuel + 1, c =>
    let c := c.toLineEnd
    let gap := (c.rest.take reach).takeWhile fun a => isBlank a || a == '\n' || a == '\r'
    if (c.rest.drop gap.length).head? == some '#' then skipComments fuel (c.skipGap gap.length)
    else c

end Cursor

end Yaml

end BlockLang
