import BlockLang.Expr
import BlockLang.Failure
import BlockLang.Integer
import BlockLang.Text.Quoted

/-!
# Parsing

The parser goes down from an expression to its parts. A cursor stands in front of the
tokens that have not been passed, trivia among them. Looking at the next meaningful
token takes the cursor past the trivia in front of it, and a complaint leaves the cursor
where it is. An expression reaches as far to the right as it can: an argument list
belongs to the expression before it, a brace after the value of a let opens its body,
and a parenthesis after a clause opens the next clause.
-/

namespace BlockLang

/-- Why a list of tokens is not an expression. -/
inductive Complaint where
  | ended (wanted : List Kind)
  | nothing
  | unexpected (wanted : List Kind) (found : Token)
  | spurious (found : Token)
  | unhandled (found : Token)
  | malformed (found : Token)
  | outOfRange (found : Token)
  | badInteger (found : Token)
  | reserved (found : Token)
  | trailing (found : Token)
  deriving DecidableEq

namespace Complaint

/-- The offending token, unless the input ended. -/
def token? : Complaint → Option Token
  | ended _ | nothing => none
  | unexpected _ t | spurious t | unhandled t | malformed t | outOfRange t | badInteger t
  | reserved t | trailing t => some t

/-- How messages call a wanted kind. -/
def wantedText (kind : Kind) : Text :=
  if kind.describe == kind.name then kind.name.quoted else kind.describe

/-- How messages call several kinds of which one is wanted. -/
def wantedTexts (kinds : List Kind) : Text :=
  Text.join " or " (kinds.map wantedText)

/-- How messages call a token. -/
def tokenText (t : Token) : Text :=
  match t.kind with
  | .identifier | .integer => t.kind.describe ++ " " ++ t.literal
  | .string => "string " ++ t.literal.quoted
  | _ => t.literal.quoted

/-- How messages call a token that cannot start an expression. -/
def spuriousText : Kind → Text
  | .equals => "equals sign"
  | .arrow => "arrow"
  | .closeBrace => "closing brace"
  | .closeParen => "closing parenthesis"
  | .comma => "comma"
  | .semicolon => "semicolon"
  | kind => kind.name

/-- The words for a name that cannot be bound. -/
def reservedText (name : Text) : Text :=
  "reserved word: " ++ name.quoted ++ " cannot be used as an identifier"

/-- The message of a complaint. -/
def message : Complaint → Text
  | ended wanted => "expected " ++ wantedTexts wanted ++ " but there were no more tokens"
  | nothing => "bad input: no tokens to parse"
  | unexpected wanted t => "expected " ++ wantedTexts wanted ++ " but was " ++ tokenText t
  | spurious t => "spurious " ++ spuriousText t.kind
  | unhandled t => "unhandled token " ++ tokenText t
  | malformed t => t.kind.describe ++ ": " ++ t.literal.quoted
  | outOfRange t => "integer " ++ t.literal ++ " out of range"
  | badInteger t => "malformed integer " ++ t.literal
  | reserved t => reservedText t.literal
  | trailing t => "unexpected " ++ tokenText t ++ " after the end of the expression"

/-- The violation of the grammar in an input whose last token is on line
`lastLine`. -/
def toError (lastLine : Nat) (c : Complaint) : SyntaxError :=
  match c.token? with
  | some t => ⟨c.message, t.line, t, false⟩
  | none => ⟨c.message, lastLine, Token.ended, true⟩

end Complaint

/-- A part of the parser. It starts with the tokens behind the cursor, trivia
included, and leaves those that it has not passed. -/
def Parser (α : Type) : Type :=
  List Token → Except Complaint α × List Token

namespace Parser

variable {α : Type}

instance : Monad Parser where
  pure a := fun tokens => (.ok a, tokens)
  bind p f := fun tokens =>
    match p tokens with
    | (.ok a, rest) => f a rest
    | (.error c, rest) => (.error c, rest)

/-! ## The cursor -/

/-- Passes over trivia and looks at the next meaningful token. -/
def peek : Parser (Option Token) := fun tokens =>
  let rest := tokens.dropWhile (·.isTrivia)
  (.ok rest.head?, rest)

/-- Passes over trivia and looks at the meaningful token after the next one. -/
def peekAhead : Parser (Option Token) := fun tokens =>
  let rest := tokens.dropWhile (·.isTrivia)
  (.ok (rest.tail.find? fun t => !t.isTrivia), rest)

/-- Passes over trivia and tells whether the next meaningful token has a kind. -/
def peekIs (kind : Kind) : Parser Bool := do
  return (← peek).any (·.kind == kind)

/-- Moves the cursor past one token, whatever it is. -/
def advance : Parser Unit := fun tokens =>
  (.ok (), tokens.tail)

/-- Complains and leaves the cursor where it is. -/
def refuse (c : Complaint) : Parser α := fun tokens =>
  (.error c, tokens)

/-- Passes the next meaningful token if it has one of the wanted kinds. -/
def accept (wanted : List Kind) : Parser Token := do
  match ← peek with
  | none => refuse (.ended wanted)
  | some t =>
    if wanted.contains t.kind then
      advance
      return t
    else refuse (if t.kind.isError then .malformed t else .unexpected wanted t)

/-! ## Words and lists -/

/-- An identifier. -/
def identifier : Parser Text := do
  let t ← accept [.identifier]
  if isReserved t.literal then refuse (.reserved t) else return t.literal

/-- An integer. -/
def integer : Parser Source := do
  let t ← accept [.integer]
  match Integer.read t.literal with
  | .ok n => return .integer n
  | .error .outOfRange => refuse (.outOfRange t)
  | .error .malformed => refuse (.badInteger t)

/-- At least one item, and separators between them. Every item takes a token at least,
so a bound on the number of tokens bounds the number of items. -/
def separated (separator : Kind) (item : Parser α) : Nat → Parser (List α)
  | 0 => refuse .nothing
  | bound + 1 => do
    let a ← item
    if ← peekIs separator then
      advance
      return a :: (← separated separator item bound)
    else return [a]

/-- Items with commas between them, up to a closing parenthesis. -/
def listed (item : Parser α) (bound : Nat) : Parser (List α) := do
  if ← peekIs .closeParen then return [] else separated .comma item bound

/-- Names in parentheses. -/
def parameterList (bound : Nat) : Parser (List Text) := do
  let _ ← accept [.openParen]
  let xs ← listed identifier bound
  let _ ← accept [.closeParen]
  return xs

/-! ## Forms

Their parts are expressions, which `part` reads. -/

/-- The statements of a block. -/
def block (part : Parser Source) (bound : Nat) : Parser (List Source) := do
  let _ ← accept [.openBrace]
  if ← peekIs .closeBrace then
    advance
    return []
  else
    let es ← separated .semicolon part bound
    let _ ← accept [.closeBrace]
    return es

/-- A lambda. -/
def lambda (part : Parser Source) (bound : Nat) : Parser Source := do
  let _ ← accept [.lambda, .lambdaSign]
  let xs ← parameterList bound
  return .lambda () xs (← block part bound)

/-- A test and its result. -/
def clause (part : Parser Source) : Parser (Source × Source) := do
  let _ ← accept [.openParen]
  let test ← part
  let _ ← accept [.arrow]
  let result ← part
  let _ ← accept [.closeParen]
  return (test, result)

/-- At least one clause, up to a token that opens none. -/
def clauses (part : Parser Source) : Nat → Parser (List (Source × Source))
  | 0 => refuse .nothing
  | bound + 1 => do
    let c ← clause part
    if ← peekIs .openParen then return c :: (← clauses part bound) else return [c]

/-- A conditional. -/
def cond (part : Parser Source) (bound : Nat) : Parser Source := do
  let _ ← accept [.cond]
  return .cond () (← clauses part bound)

/-- A name and the value that it is to have. -/
def binding (part : Parser Source) : Parser (Text × Source) := do
  let x ← identifier
  let _ ← accept [.equals]
  return (x, ← part)

/-- An assignment. -/
def assignment (part : Parser Source) : Parser Source := do
  let (x, value) ← binding part
  return .assign () x value

/-- A definition. -/
def definition (part : Parser Source) : Parser Source := do
  let _ ← accept [.define]
  let (x, value) ← binding part
  return .define () x value

/-- A let. Its body is left open if no block follows. -/
def letIn (part : Parser Source) (bound : Nat) : Parser Source := do
  let _ ← accept [.letIn]
  let (x, value) ← binding part
  if ← peekIs .openBrace then return .letIn () x value (← block part bound)
  else return .letIn () x value [.placeholder]

/-- The form that starts with a token. -/
def form (part : Parser Source) (bound : Nat) (t : Token) : Parser Source := do
  match t.kind with
  | .openParen => return .parameters () (← parameterList bound)
  | .openBrace => return .block () (← block part bound)
  | .lambda | .lambdaSign => lambda part bound
  | .cond => cond part bound
  | .define => definition part
  | .letIn => letIn part bound
  | .identifier =>
    if (← peekAhead).any (·.kind == .equals) then assignment part
    else return .identifier (← identifier)
  | .string =>
    advance
    return .string t.literal
  | .integer => integer
  | .equals | .arrow | .closeBrace | .closeParen | .comma | .semicolon => refuse (.spurious t)
  | kind => refuse (if kind.isError then .malformed t else .unhandled t)

/-- A call of an operator. -/
def application (part : Parser Source) (bound : Nat) (operator : Source) : Parser Source := do
  let _ ← accept [.openParen]
  let es ← listed part bound
  let _ ← accept [.closeParen]
  return .apply () operator es

/-- An expression and the argument lists that follow it. -/
def calls (part : Parser Source) : Nat → Source → Parser Source
  | 0, _ => refuse .nothing
  | bound + 1, e => do
    if ← peekIs .openParen then calls part bound (← application part bound e) else return e

/-- An expression. Each of its parts starts at a later token, so a bound on the number
of tokens bounds the depth. -/
def expressionWithin : Nat → Parser Source
  | 0 => refuse .nothing
  | bound + 1 => do
    match ← peek with
    | none => refuse .nothing
    | some t =>
      let e ← form (expressionWithin bound) bound t
      calls (expressionWithin bound) bound e

/-- The next expression. -/
def expression : Parser Source := fun tokens =>
  expressionWithin (tokens.length + 1) tokens

/-- One expression with nothing but trivia behind it. -/
def whole : Parser Source := do
  let e ← expression
  match ← peek with
  | none => return e
  | some t => refuse (.trailing t)

/-- The results of reading `n` expressions one after the other, going on where the
reading before has left the cursor. -/
def repeated : Nat → List Token → List (Except Complaint Source)
  | 0, _ => []
  | n + 1, tokens =>
    let (result, rest) := expression tokens
    result :: repeated n rest

end Parser

/-- The line of the last token. -/
def lastLine (tokens : List Token) : Nat :=
  (tokens.getLast?.map (·.line)).getD 1

/-- What the parser has to say about a list of tokens. -/
def Parser.report (tokens : List Token) :
    Except Complaint Source → Except SyntaxError Source
  | .ok e => .ok e
  | .error c => .error (c.toError (lastLine tokens))

/-- The one expression that a list of tokens is, trivia aside. -/
def parse (tokens : List Token) : Except SyntaxError Source :=
  Parser.report tokens (Parser.whole tokens).1

/-- The results of reading `n` expressions one after the other from a list of
tokens. Reading goes on after a complaint. -/
def parseSequence (n : Nat) (tokens : List Token) : List (Except SyntaxError Source) :=
  (Parser.repeated n tokens).map (Parser.report tokens)

end BlockLang
