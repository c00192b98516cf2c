import BlockLang.Config.Yaml.Scalar

/-!
# Tokens of a YAML text

The structure of a text is in its indentation and in a few characters. Both become
tokens. That a word is a key shows only at the colon after it: the token for the
key is put in before the word then.
-/

namespace BlockLang

namespace Yaml

/-- The tokens of a text. -/
inductive Token where
  | documentStart
  | documentEnd
  | streamEnd
  | version (major minor : Nat)
  | listStart
  | tableStart
  | blockEnd
  | flowListStart
  | flowListEnd
  | flowTableStart
  | flowTableEnd
  | comma
  | item
  | key
  | value
  | alias (name : Text)
  | anchor (name : Text)
  | tag (name : Text)
  | scalar (text : Text) (plain : Bool)
  deriving DecidableEq

/-- What may turn out to be a key: the number of its first token and where it
begins. A key is required where a field of a table has to begin. -/
structure Candidate where
  token : Nat
  offset : Nat
  line : Nat
  column : Nat
  required : Bool

/-- How many characters a key may take up to its colon. -/
def Candidate.reach : Nat :=
  1024

/-- Whether a colon at a place may still follow a key. -/
def Candidate.isLive (k : Candidate) (c : Cursor) : Bool :=
  k.line == c.line && c.offset ≤ k.offset + Candidate.reach

/-- The tokens up to a place, and what decides on the next. The `margin` is the
column from which on lines belong to the innermost block, and `outerMargins` are
those of the blocks around it. Each open bracket has a candidate of its own. -/
structure Scanner where
  cursor : Cursor
  keyAllowed : Bool
  margin : Nat
  outerMargins : List Nat
  candidate : Option Candidate
  outerCandidates : List (Option Candidate)
  tokens : Array Token

namespace Scanner

/-- Before the first token of a text. -/
def start (s : List Char) : Scanner :=
  ⟨Cursor.start s, true, 0, [], none, [], #[]⟩

/-- Whether a place is inside brackets. -/
def inFlow (s : Scanner) : Bool :=
  !s.outerCandidates.isEmpty

/-- The tokens with one more at the end. -/
def push (t : Token) (s : Scanner) : Scanner :=
  { s with tokens := s.tokens.push t }

/-- The tokens with one more after the first `n`. -/
def insert (n : Nat) (t : Token) (s : Scanner) : Scanner :=
  { s with tokens := (s.tokens.extract 0 n).push t ++ s.tokens.extract n s.tokens.size }

/-- The place `n` characters further. -/
def forward (n : Nat) (s : Scanner) : Scanner :=
  { s with cursor := s.cursor.forward n }

/-- Without a candidate. A key that is required cannot be left out. -/
def dropCandidate? (s : Scanner) : Option Scanner :=
  match s.candidate with
  | none => some s
  | some k => if k.required then none else some { s with candidate := none }

/-- With what begins here as the candidate, if keys are allowed. -/
def noteCandidate? (s : Scanner) : Option Scanner :=
  if !s.keyAllowed then some s
  else do
    let c := s.cursor
    let required := !s.inFlow && s.margin == c.column + 1
    let s ← s.dropCandidate?
    return { s with candidate := some ⟨s.tokens.size, c.offset, c.line, c.column, required⟩ }

/-- With a block at a column, whose first token stands after the first `n`, if the
column is right of the blocks that are open. -/
def openBlock (n column : Nat) (t : Token) (s : Scanner) : Scanner :=
  if s.inFlow || column < s.margin then s
  else
    { s.insert n t with margin := column + 1, outerMargins := s.margin :: s.outerMargins }

/-- The tokens that end the blocks with a margin above `bound`, the margin and the
outer margins then. -/
def closed (bound : Nat) : Nat → List Nat → List Token × Nat × List Nat
  | margin, [] => ([], margin, [])
  | margin, outer :: rest =>
    if bound < margin then
      let (tokens, margin, outers) := closed bound outer rest
      (.blockEnd :: tokens, margin, outers)
    else ([], margin, outer :: rest)

/-- Without the blocks that have a margin above `bound`. -/
def closeBlocks (bound : Nat) (s : Scanner) : Scanner :=
  if s.inFlow then s
  else
    let (tokens, margin, outers) := closed bound s.margin s.outerMargins
    { s with tokens := s.tokens ++ tokens.toArray, margin := margin, outerMargins := outers }

/-- The place of the next token, after at most `fuel` lines. At the start of a line,
where a key may stand, tabs are not skipped. -/
def toToken : Nat → Scanner → Scanner
  | 0, s => s
  | fuel + 1, s =>
    let c := s.cursor
    let c := if c.column == 0 && c.rest.head? == some '\ufeff' then c.next else c
    let c := c.skip fun a => a == ' ' || ((s.inFlow || !s.keyAllowed) && a == '\t')
    let c := if c.rest.head? == some '#' then c.skipComments c.rest.length else c
    if c.atBreak then
      toToken fuel { s with cursor := c.lineEnd.2, keyAllowed := s.keyAllowed || !s.inFlow }
    else { s with cursor := c }

/-- At the end of a text. -/
def finish? (s : Scanner) : Option Scanner := do
  let c := s.cursor
  let c := if c.column == 0 then c else { c with line := c.line + 1, column := 0 }
  let s ← (({ s with cursor := c } : Scanner).closeBlocks 0).dropCandidate?
  return { s with keyAllowed := false }.push .streamEnd

/-- At the mark of a document. -/
def mark? (t : Token) (s : Scanner) : Option Scanner := do
  let s ← (s.closeBlocks 0).dropCandidate?
  return ({ s with keyAllowed := false }.forward 3).push t

/-- Whether a character may stand in a name. -/
def isNameChar (c : Char) : Bool :=
  c.isAlphanum || c == '_' || c == '-'

/-- The number of at most two digits at the front of a text, and the rest. -/
def versionPart? (s : List Char) : Option (Nat × List Char) :=
  let digits := s.takeWhile Char.isDigit
  if digits.isEmpty || 2 < digits.length then none
  else some (digits.foldl (fun n c => n * 10 + (c.toNat - 0x30)) 0, s.drop digits.length)

/-- At the version of the format, the one directive that is known. -/
def directive? (s : Scanner) : Option Scanner := do
  let s ← (s.closeBlocks 0).dropCandidate?
  let c := s.cursor.next
  if String.ofList (c.rest.takeWhile isNameChar) != "YAML" then failure
  let c := c.forward 4
  if !isApart c.rest then failure
  let c := c.skip isBlank
  let (major, rest) ← versionPart? c.rest
  if rest.head? != some '.' then failure
  let (minor, rest) ← versionPart? (rest.drop 1)
  let c := (c.forward (c.rest.length - rest.length)).skip isBlank
  let c := if c.rest.head? == some '#' then c.toLineEnd else c
  if !c.rest.isEmpty && !c.atBreak then failure
  return ({ s with cursor := c.lineEnd.2, keyAllowed := false } : Scanner).push
    (.version major minor)

/-- At a bracket that opens. -/
def openBracket? (t : Token) (s : Scanner) : Option Scanner := do
  let s ← s.noteCandidate?
  return ({ s with
    keyAllowed := true, candidate := none,
    outerCandidates := s.candidate :: s.outerCandidates }.forward 1).push t

/-- At a bracket that closes. -/
def closeBracket? (t : Token) (s : Scanner) : Option Scanner := do
  let s ← s.dropCandidate?
  let s :=
    match s.outerCandidates with
    | [] => s
    | k :: rest => { s with candidate := k, outerCandidates := rest }
  return ({ s with keyAllowed := false }.forward 1).push t

/-- At a comma between brackets. -/
def comma? (s : Scanner) : Option Scanner := do
  let s ← s.dropCandidate?
  return ({ s with keyAllowed := true }.forward 1).push .comma

/-- At the mark of a block's item or key, which is for a line's start. -/
def blockMark? (start t : Token) (s : Scanner) : Option Scanner := do
  if !s.inFlow && !s.keyAllowed then failure
  let s ← (s.openBlock s.tokens.size s.cursor.column start).dropCandidate?
  return (s.forward 1).push t

/-- At the mark of an item. -/
def item? (s : Scanner) : Option Scanner := do
  return { ← s.blockMark? .listStart .item with keyAllowed := true }

/-- At the mark of a key. -/
def key? (s : Scanner) : Option Scanner := do
  return { ← s.blockMark? .tableStart .key with keyAllowed := !s.inFlow }

/-- At a colon before a value without a key, which is for a line's start. -/
def bareValue? (s : Scanner) : Option Scanner := do
  if !s.inFlow && !s.keyAllowed then failure
  let s := s.openBlock s.tokens.size s.cursor.column .tableStart
  return ({ s with keyAllowed := !s.inFlow }.forward 1).push .value

/-- At a colon before a value. If there is a candidate, it was a key. -/
def value? (s : Scanner) : Option Scanner :=
  match s.candidate with
  | none => s.bareValue?
  | some k =>
    if k.isLive s.cursor then
      let s := (s.insert k.token .key).openBlock k.token k.column .tableStart
      some (({ s with candidate := none, keyAllowed := false }.forward 1).push .value)
    else if k.required then none
    else s.bareValue?

/-- At something that a key may begin with, which takes up the next `n` characters. -/
def property? (t : Token) (n : Nat) (s : Scanner) : Option Scanner := do
  let s ← s.noteCandidate?
  return ({ s with keyAllowed := false }.forward n).push t

/-- At the mark before a name that is given to a value or that stands for it. -/
def name? (token : Text → Token) (s : Scanner) : Option Scanner := do
  let name := (s.cursor.rest.drop 1).takeWhile isNameChar
  let rest := s.cursor.rest.drop (name.length + 1)
  let ends := ['?', ':', ',', ']', '\x7d', '%', '@', '\x60']
  if name.isEmpty || !(isApart rest || ends.contains (rest.head?.getD ' ')) then failure
  s.property? (token (Text.ofChars name)) (name.length + 1)

/-- Whether a character may stand in the name of a type. -/
def isTagChar (c : Char) : Bool :=
  isNameChar c || ";/?:@&=+$.!~*\x27()[]".contains c

/-- The name of the type in a text, and how many characters it takes. Names with two
marks in front are those of the format itself. -/
def tag? (s : List Char) : Option (List Char × Nat) :=
  match s with
  | '!' :: '<' :: s =>
    let name := s.takeWhile isTagChar
    if name.isEmpty || (s.drop name.length).head? != some '>' then none
    else some (name, name.length + 3)
  | s =>
    let name := (s.drop 1).takeWhile isTagChar
    let handle := name.takeWhile isNameChar
    match name.drop handle.length with
    | '!' :: suffix =>
      if handle.isEmpty && !suffix.isEmpty then some ('!' :: name, name.length + 1) else none
    | _ => some ('!' :: name, name.length + 1)

/-- At the name of a type. -/
def typeName? (s : Scanner) : Option Scanner := do
  let (name, n) ← tag? s.cursor.rest
  if !isApart (s.cursor.rest.drop n) then failure
  let known := "tag:yaml.org,2002:".toList
  let name := if known.isPrefixOf name then '!' :: '!' :: name.drop known.length else name
  s.property? (.tag (Text.ofChars name)) n

/-- At a quoted value. -/
def quoted? (q : Quotes) (s : Scanner) : Option Scanner := do
  let s ← s.noteCandidate?
  let (text, c) ← quotedFrom q (s.cursor.rest.length + 1) [] s.cursor.next
  return { s with keyAllowed := false, cursor := c }.push (.scalar (Text.ofChars text) false)

/-- At a plain value. After a value that ends with its line there may be a key. -/
def plain? (s : Scanner) : Option Scanner := do
  let s ← s.noteCandidate?
  let (text, c, isNew) ←
    plainFrom s.inFlow s.margin (s.cursor.rest.length + 1) [] Gap.empty s.cursor
  return { s with keyAllowed := isNew, cursor := c }.push (.scalar (Text.ofChars text) true)

/-- At a block of lines. -/
def lines? (literal : Bool) (s : Scanner) : Option Scanner := do
  let s ← s.dropCandidate?
  let (text, c) ← block? literal s.margin s.cursor.next
  return { s with keyAllowed := true, cursor := c }.push (.scalar (Text.ofChars text) false)

/-- Whether a plain value may begin with a character that a text follows. -/
def startsPlain (inFlow : Bool) (a : Char) (s : List Char) : Bool :=
  let special := "-?:,[]\x7b\x7d#&*!|>\x27\x22%@\x60"
  !(isBlank a || isBreak a || special.contains a) || (a == '-' && !isApart s) ||
    (!inFlow && (a == '?' || a == ':') && !isApart s)

/-- At a character that a text follows. -/
def token? (a : Char) (rest : List Char) (s : Scanner) : Option Scanner :=
  let marks := s.inFlow || isApart rest
  if a == '[' then s.openBracket? .flowListStart
  else if a == '\x7b' then s.openBracket? .flowTableStart
  else if a == ']' then s.closeBracket? .flowListEnd
  else if a == '\x7d' then s.closeBracket? .flowTableEnd
  else if a == ',' then s.comma?
  else if a == '-' && isApart rest then s.item?
  else if a == '?' && marks then s.key?
  else if a == ':' && marks then s.value?
  else if a == '*' then s.name? .alias
  else if a == '&' then s.name? .anchor
  else if a == '!' then s.typeName?
  else if a == '|' && !s.inFlow then s.lines? true
  else if a == '>' && !s.inFlow then s.lines? false
  else if a == '\x27' then s.quoted? .single
  else if a == '\x22' then s.quoted? .double
  else if startsPlain s.inFlow a rest then s.plain?
  else none

/-- With the next token, and whatever the indentation says before it. -/
def next? (s : Scanner) : Option Scanner := do
  let s := s.toToken (s.cursor.rest.length + 1)
  let c := s.cursor
  let s := s.closeBlocks (c.column + 1)
  match c.rest with
  | [] => s.finish?
  | a :: rest =>
    if c.column == 0 && a == '%' then s.directive?
    else if c.isMark ['-', '-', '-'] then s.mark? .documentStart
    else if c.isMark ['.', '.', '.'] then s.mark? .documentEnd
    else do
      let s ← s.token? a rest
      if s.tokens.back? == some .item then return s
      return { s with cursor := s.cursor.skipRemark }

/-- Whether the token with a number may still turn out to be a key. A required key
that can no longer have a colon is refused. -/
def isOpen? (n : Nat) (s : Scanner) : Option Bool :=
  match (s.candidate :: s.outerCandidates).findSome? (·.filter (·.token == n)) with
  | none => some false
  | some k =>
    if k.isLive s.cursor then some true else if k.required then none else some false

/-- How many tokens are read ahead. -/
def lookahead : Nat :=
  2

/-- With everything up to the token with a number, and a little more, after at most
`fuel` steps. -/
def upTo? (n : Nat) : Nat → Scanner → Option Scanner
  | 0, _ => none
  | fuel + 1, s => do
    if n + lookahead < s.tokens.size then
      if !(← s.isOpen? n) then return s
    upTo? n fuel (← s.next?)

end Scanner

end Yaml

end BlockLang
