import BlockLang.Text.Utf8

/-!
# Places in a source

A byte position is shown to a reader as a line and a column, both counted from
one, and as an excerpt of the source: the line itself below up to two lines
before it, with a caret under the column.
-/

namespace BlockLang

/-- The line and column of a place, counted from one. -/
structure Place where
  line : Nat
  column : Nat
  deriving DecidableEq

namespace Place

/-- The first place of a source. -/
def start : Place := ⟨1, 1⟩

/-- The place after a piece. -/
def after (place : Place) : Piece → Place
  | .char c => if c.toNat == 0x0A then ⟨place.line + 1, 1⟩ else ⟨place.line, place.column + 1⟩
  | .stray _ => ⟨place.line, place.column + 1⟩

/-- The place after all pieces that start within the next `distance` bytes. -/
def advance (place : Place) (distance : Nat) : List Piece → Place
  | [] => place
  | p :: ps =>
    if distance == 0 then place
    else advance (place.after p) (distance - p.bytes.length) ps

/-- The place of a byte position. A position past the end is the place after
the last character. -/
def ofPosition (source : Text) (position : Nat) : Place :=
  start.advance position source.pieces

end Place

namespace Excerpt

/-- The lines of a source, without the carriage return of a line end. -/
def lines (source : Text) : List Text :=
  source.unifyLineEnds.splitOn 0x0A

/-- The margin of a line that leads up to the marked one. -/
def plainMargin (line : Nat) : Text :=
  "     " ++ Text.padLeft 3 (Text.ofNat line) ++ " | "

/-- The margin of the marked line. -/
def markedMargin (line : Nat) : Text :=
  "  >  " ++ Text.padLeft 3 (Text.ofNat line) ++ " | "

/-- A line that leads up to the marked one. -/
def plainLine (line : Text × Nat) : Text :=
  plainMargin line.2 ++ line.1 ++ "\n"

/-- One blank for each character, where a tab stays a tab. -/
def blanked (s : Text) : Text :=
  s.chars.map fun c => if c.toNat == 0x09 then 0x09 else 0x20

/-- The line under the marked line, with the caret below the given column. -/
def caretLine (margin content : Text) (column : Nat) : Text :=
  blanked (margin ++ Text.ofChars (content.chars.take (column - 1))) ++ "^ unexpected here"

end Excerpt

/-- The lines of a source up to a line, at most two before it, and a caret under
a column of it. There is no excerpt for a line that the source does not have. -/
def excerpt (source : Text) (line column : Nat) : Text :=
  let lines := Excerpt.lines source
  if line == 0 || lines.length < line then []
  else
    let first := line - 2 - 1
    let before := (lines.take (line - 1)).drop first
    let content := lines.getD (line - 1) []
    (before.zipIdx (first + 1)).flatMap Excerpt.plainLine ++
      Excerpt.markedMargin line ++ content ++ "\n" ++
      Excerpt.caretLine (Excerpt.markedMargin line) content column

end BlockLang
