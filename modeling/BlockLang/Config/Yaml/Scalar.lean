import BlockLang.Config.Yaml.Cursor
import BlockLang.Text.Hex

/-!
# Values in a YAML text

A value is plain, quoted, or a block of lines. Plain and quoted values may run over
several lines, which are folded: a line end is a space, and empty lines are line
ends.
-/

namespace BlockLang

namespace Yaml

/-- What stands between two words of a value: blanks, or a first line end and the
line ends after it. -/
structure Gap where
  blanks : List Char
  first : Option (List Char)
  more : List Char

namespace Gap

/-- Nothing between two words. -/
def empty : Gap :=
  ⟨[], none, []⟩

/-- What a gap stands for. -/
def text (g : Gap) : List Char :=
  match g.first with
  | none => g.blanks
  | some first =>
    if first == ['\n'] then if g.more.isEmpty then [' '] else g.more else first ++ g.more

/-- The gap at a place, of at most `fuel` characters, after the part `g` of it. On
later lines tabs left of the column `margin` are refused. -/
def read? (margin : Nat) : Nat → Gap → Cursor → Option (Gap × Cursor)
  | 0, g, c => some (g, c)
  | fuel + 1, g, c =>
    if c.atBreak then
      let (text, c) := c.lineEnd
      match g.first with
      | none => read? margin fuel { g with first := some text } c
      | some _ => read? margin fuel { g with more := g.more ++ text } c
    else
      match c.rest with
      | [] => some (g, c)
      | a :: _ =>
        if isBlank a then
          match g.first with
          | none => read? margin fuel { g with blanks := g.blanks ++ [a] } c.next
          | some _ =>
            if a == '\t' && c.column < margin then none else read? margin fuel g c.next
        else some (g, c)

end Gap

/-- Whether a character in front of a text ends a plain value. -/
def endsPlain (inFlow : Bool) (a : Char) (s : List Char) : Bool :=
  (a == ':' && isApart s) || (inFlow && [',', '?', '[', ']', '\x7b', '\x7d'].contains a)

/-- A word of a plain value. -/
def plainWord (inFlow : Bool) : List Char → List Char
  | [] => []
  | a :: s =>
    if isBlank a || isBreak a || endsPlain inFlow a s then [] else a :: plainWord inFlow s

/-- The rest of a plain value of at most `fuel` words after the text `before` and the
gap `g`, the place after it, and whether that is on a new line. Later lines begin
at the column `margin` or right of it. -/
def plainFrom (inFlow : Bool) (margin : Nat) :
    Nat → List Char → Gap → Cursor → Option (List Char × Cursor × Bool)
  | 0, _, _, _ => none
  | fuel + 1, before, g, c =>
    let word := plainWord inFlow c.rest
    if c.atMark || c.rest.head? == some '#' || word.isEmpty then
      some (before, c, g.first.isSome)
    else do
      let before := before ++ g.text ++ word
      let c := c.forward word.length
      let (g, c) ← Gap.read? margin c.rest.length Gap.empty c
      if c.rest.isEmpty || (!inFlow && c.column < margin) then
        return (before, c, g.first.isSome)
      plainFrom inFlow margin fuel before g c

/-- The character that a one-letter escape stands for. -/
def escaped? (c : Char) : Option Char :=
  match c with
  | '0' => some '\x00'
  | 'a' => some '\x07'
  | 'b' => some '\x08'
  | 't' | '\t' => some '\t'
  | 'n' => some '\n'
  | 'v' => some '\x0b'
  | 'f' => some '\x0c'
  | 'r' => some '\r'
  | 'e' => some '\x1b'
  | ' ' | '\x22' | '\x27' | '\\' => some c
  | 'N' => some '\u0085'
  | '_' => some '\u00a0'
  | 'L' => some '\u2028'
  | 'P' => some '\u2029'
  | _ => none

/-- The number of digits after the letter of an escape by code point. -/
def escapeWidth? (c : Char) : Option Nat :=
  match c with
  | 'x' => some 2
  | 'u' => some 4
  | 'U' => some 8
  | _ => none

/-- The quotes around values. Escapes are for double quotes; between single quotes a
quote is doubled. -/
inductive Quotes where
  | single
  | double
  deriving DecidableEq

/-- The character that stands for quotes. -/
def Quotes.char : Quotes → Char
  | single => '\x27'
  | double => '\x22'

/-- The part of a quoted value up to a blank, a line end or the last quote, of at
most `fuel` characters, whether an escaped line end comes after it, and the place
behind. -/
def quotedWord (q : Quotes) : Nat → Cursor → Option (List Char × Bool × Cursor)
  | 0, _ => none
  | fuel + 1, c =>
    match c.rest with
    | [] => some ([], false, c)
    | a :: s =>
      if isBlank a || isBreak a then some ([], false, c)
      else if a == q.char then
        if q == .single && s.head? == some a then do
          let (word, broken, c) ← quotedWord q fuel (c.forward 2)
          return (a :: word, broken, c)
        else some ([], false, c)
      else if q == .double && a == '\\' then
        match s with
        | [] => none
        | b :: digits =>
          if isBreak b then some ([], true, c.next.lineEnd.2)
          else do
            let (char, width) ←
              match escapeWidth? b with
              | some width => (Text.hexChar? width digits).map (·, width)
              | none => (escaped? b).map (·, 0)
            let (word, broken, c) ← quotedWord q fuel (c.forward (width + 2))
            return (char :: word, broken, c)
      else do
        let (word, broken, c) ← quotedWord q fuel c.next
        return (a :: word, broken, c)

/-- The rest of a quoted value of at most `fuel` words after the text `before`, and
the place after its last quote. -/
def quotedFrom (q : Quotes) : Nat → List Char → Cursor → Option (List Char × Cursor)
  | 0, _, _ => none
  | fuel + 1, before, c => do
    if c.atMark then failure
    let (word, broken, c) ← quotedWord q (c.rest.length + 1) c
    match c.rest with
    | [] => none
    | a :: _ =>
      if a == q.char then return (before ++ word, c.next)
      let g := if broken then { Gap.empty with first := some [] } else Gap.empty
      let (g, c) ← Gap.read? 0 c.rest.length g c
      quotedFrom q fuel (before ++ word ++ g.text) c

/-- What becomes of the line ends after the last line of a block. -/
inductive Chomping where
  | strip
  | clip
  | keep
  deriving DecidableEq

/-- The chomping that a character stands for. -/
def chomping? : List Char → Option Chomping
  | '-' :: _ => some .strip
  | '+' :: _ => some .keep
  | _ => none

/-- The indentation that a digit at the front of a text stands for. -/
def indentation? : List Char → Option Nat
  | c :: _ => if '0' ≤ c && c ≤ '9' then some (c.toNat - 0x30) else none
  | [] => none

/-- The chomping and the indentation in the header of a block, in either order, and
the place after them. No indentation is zero, which cannot be asked for. -/
def blockHeader? (c : Cursor) : Option (Chomping × Nat × Cursor) :=
  match chomping? c.rest with
  | some chomping =>
    match indentation? c.next.rest with
    | some 0 => none
    | some n => some (chomping, n, c.next.next)
    | none => some (chomping, 0, c.next)
  | none =>
    match indentation? c.rest with
    | some 0 => none
    | some n =>
      match chomping? c.next.rest with
      | some chomping => some (chomping, n, c.next.next)
      | none => some (.clip, n, c.next)
    | none => some (.clip, 0, c)

/-- The line ends of at most `fuel` empty lines after the line ends `before`, the
widest line so far, and the place after the indentation of the next line. While
the indentation is not known it is zero. -/
def blockGap (indent : Nat) :
    Nat → List Char → Nat → Cursor → Option (List Char × Nat × Cursor)
  | 0, before, widest, c => some (before, widest, c)
  | fuel + 1, before, widest, c =>
    let spaces := (c.rest.takeWhile (· == ' ')).length
    let c := c.forward (if indent == 0 then spaces else min spaces (indent - c.column))
    let widest := max widest c.column
    if (indent == 0 || c.column < indent) && c.rest.head? == some '\t' then none
    else if c.atBreak then
      let (text, c) := c.lineEnd
      blockGap indent fuel (before ++ text) widest c
    else some (before, widest, c)

/-- Lines of a block. -/
structure BlockLines where
  text : List Char
  lineEnd : List Char
  more : List Char
  deeper : Bool

/-- The text of lines together with the gap before a line that is indented deeper or
not. Between lines that are not, folded blocks have a space for a line end. -/
def BlockLines.joined (ls : BlockLines) (literal deeper : Bool) : List Char :=
  if !literal && !ls.deeper && !deeper && ls.lineEnd == ['\n'] then
    ls.text ++ (if ls.more.isEmpty then [' '] else []) ++ ls.more
  else ls.text ++ ls.lineEnd ++ ls.more

/-- The lines of a block of at most `fuel` lines after the lines `ls`. -/
def blockLines (literal : Bool) (indent : Nat) :
    Nat → BlockLines → Cursor → Option (BlockLines × Cursor)
  | 0, ls, c => some (ls, c)
  | fuel + 1, ls, c =>
    match c.rest with
    | [] => some (ls, c)
    | a :: _ =>
      if c.column != indent then some (ls, c)
      else do
        let deeper := isBlank a
        let text := ls.joined literal deeper ++ c.rest.takeWhile (!isBreak ·)
        let (lineEnd, c) := c.toLineEnd.lineEnd
        let (more, _, c) ← blockGap indent (c.rest.length + 1) [] 0 c
        blockLines literal indent fuel ⟨text, lineEnd, more, deeper⟩ c

/-- A block after the character that begins it, and the place after it. Its lines
stand at the column `margin` or right of it. -/
def block? (literal : Bool) (margin : Nat) (c : Cursor) : Option (List Char × Cursor) := do
  let (chomping, n, c) ← blockHeader? c
  let c := c.skip isBlank
  let c := if c.rest.head? == some '#' then c.toLineEnd else c
  if !c.rest.isEmpty && !c.atBreak then failure
  let c := c.lineEnd.2
  let given := if n == 0 then 0 else margin - 1 + n
  let (more, widest, c) ← blockGap given (c.rest.length + 1) [] 0 c
  let indent := if given == 0 then max (max widest margin) 1 else given
  let (ls, c) ← blockLines literal indent (c.rest.length + 1) ⟨[], [], more, false⟩ c
  let text :=
    match chomping with
    | .strip => ls.text
    | .clip => ls.text ++ ls.lineEnd
    | .keep => ls.text ++ ls.lineEnd ++ ls.more
  return (text, c)

end Yaml

end BlockLang
