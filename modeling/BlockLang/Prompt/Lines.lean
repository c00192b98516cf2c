import BlockLang.Text.Utf8

/-!
# Lines of typed text

A text that is typed at a prompt comes line by line. A line that is longer than a
buffer comes in pieces, each of which counts as a line. The lines that were
evaluated are kept in a file, so that they can be called back later.
-/

namespace BlockLang

namespace TypedText

/-- The size of the buffer for a line. -/
def bufferSize : Nat := 4096

/-- The lines of a text after `n` bytes of a line, which are kept last first. -/
def linesFrom (line : Text) (n : Nat) : Text → List Text
  | [] => if line.isEmpty then [] else [line.reverse]
  | b :: s =>
    if b == 0x0A then
      (if line.head? == some 0x0D then line.tail else line).reverse :: linesFrom [] 0 s
    else if n + 1 < bufferSize then linesFrom (b :: line) (n + 1) s
    else if b == 0x0D then line.reverse :: linesFrom [b] 1 s
    else (b :: line).reverse :: linesFrom [] 0 s

/-- The lines of a typed text. -/
def lines (s : Text) : List Text :=
  linesFrom [] 0 s

end TypedText

namespace LineHistory

/-- How many lines are kept. -/
def limit : Nat := 1000

/-- The newest lines, as many as are kept. -/
def newest (lines : List Text) : List Text :=
  lines.drop (lines.length - limit)

/-- The lines of a text with their ends, of which the last may have none. -/
def endedLines (s : Text) : List (Text × Bool) :=
  let parts := s.splitOn 0x0A
  parts.dropLast.map (·, true) ++
    match parts.getLast? with
    | some [] | none => []
    | some last => [(last, false)]

/-- A line without a carriage return before its end. -/
def bare (line : Text × Bool) : Text :=
  if line.2 && line.1.getLast? == some 0x0D then line.1.dropLast else line.1

/-- Whether a line can be read: it fits into the buffer and is UTF-8. -/
def isReadable (line : Text × Bool) : Bool :=
  line.1.length < TypedText.bufferSize && Text.isUtf8 (bare line)

/-- The lines kept in a file, up to the first that cannot be read. -/
def read (s : Text) : List Text :=
  newest (((endedLines s).takeWhile isReadable).map bare)

/-- Keeps an input as one line, unless it is the same as the line before. -/
def add (lines : List Text) (input : Text) : List Text :=
  let line := Text.flattenLines input
  if lines.getLast? == some line then lines else newest (lines ++ [line])

/-- The lines as they are written to a file. -/
def text (lines : List Text) : Text :=
  lines.flatMap (· ++ [0x0A])

end LineHistory

end BlockLang
