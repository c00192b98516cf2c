import BlockLang.Text

/-!
# Tokens

A token is a span of the source together with its kind. Besides the kinds that
carry meaning there are two kinds of trivia, blanks and comments, and six kinds
for malformed spans, so that every source is covered by tokens.
-/

namespace BlockLang

/-- The kind of a token. Kinds outside the language keep their name. -/
inductive Kind where
  | illegal
  | whitespace
  | comment
  | identifier
  | integer
  | string
  | openParen
  | closeParen
  | openBrace
  | closeBrace
  | comma
  | semicolon
  | arrow
  | equals
  | lambda
  | lambdaSign
  | cond
  | define
  | letIn
  | longIdentifier
  | longInteger
  | loneSign
  | openString
  | longString
  | other (name : Text)
  deriving DecidableEq

namespace Kind

/-- The name of a kind. -/
def name : Kind → Text
  | illegal => "ILLEGAL"
  | whitespace => "WHITESPACE"
  | comment => "COMMENT"
  | identifier => "IDENT"
  | integer => "INTEGER"
  | string => "STRING"
  | openParen => "("
  | closeParen => ")"
  | openBrace => "\x7b"
  | closeBrace => "\x7d"
  | comma => ","
  | semicolon => ";"
  | arrow => "=>"
  | equals => "="
  | lambda => "LAMBDA"
  | lambdaSign => "LAMBDA_ALT"
  | cond => "COND"
  | define => "DEF"
  | letIn => "LET"
  | longIdentifier => "BAD_IDLEN"
  | longInteger => "BAD_INTLEN"
  | loneSign => "BAD_INTCHAR"
  | openString => "BAD_STREOF"
  | longString => "BAD_STRLEN"
  | other name => name

/-- The kinds of the language. -/
def all : List Kind :=
  [illegal, whitespace, comment, identifier, integer, string, openParen, closeParen, openBrace,
   closeBrace, comma, semicolon, arrow, equals, lambda, lambdaSign, cond, define, letIn,
   longIdentifier, longInteger, loneSign, openString, longString]

/-- The kind with a given name. -/
def ofName (name : Text) : Kind :=
  (all.find? (·.name == name)).getD (other name)

/-- Whether tokens of this kind are malformed. -/
def isError : Kind → Bool
  | illegal | longIdentifier | longInteger | loneSign | openString | longString => true
  | _ => false

/-- Whether tokens of this kind carry no meaning. -/
def isTrivia : Kind → Bool
  | whitespace | comment => true
  | _ => false

/-- How messages call a kind. -/
def describe : Kind → Text
  | illegal => "malformed input"
  | longIdentifier => "identifier too long"
  | longInteger => "integer literal too long"
  | loneSign => "bad integer character"
  | openString => "unterminated string"
  | longString => "string too long"
  | lambda | lambdaSign => "lambda"
  | cond => "cond"
  | define => "def"
  | letIn => "let"
  | identifier => "identifier"
  | integer => "integer"
  | string => "string"
  | kind => kind.name

/-- The words that have a kind of their own. -/
def keywords : List (Text × Kind) :=
  [("lambda", lambda), ("λ", lambdaSign), ("cond", cond), ("def", define), ("let", letIn)]

/-- The kind of a keyword. -/
def ofKeyword? (word : Text) : Option Kind :=
  keywords.lookup word

/-- The kind of a word: a keyword or an identifier. -/
def ofWord (word : Text) : Kind :=
  (ofKeyword? word).getD identifier

end Kind

/-- Whether a name is reserved, so that nothing can be bound to it. -/
def isReserved (name : Text) : Bool :=
  (Kind.ofKeyword? name).isSome || name == Kind.arrow.name

/-- A span of the source. The literal is the span itself, except for strings,
where it is the text that the string denotes. Positions and lengths count bytes
and lines count from one. -/
structure Token where
  kind : Kind
  literal : Text
  position : Nat
  length : Nat
  line : Nat
  deriving DecidableEq

namespace Token

/-- The token that stands for the end of the input. -/
def ended : Token :=
  ⟨.other [], [], 0, 0, 0⟩

/-- The position just past a token. -/
def endPosition (t : Token) : Nat :=
  t.position + t.length

/-- Whether a token carries no meaning. -/
def isTrivia (t : Token) : Bool :=
  t.kind.isTrivia

end Token

end BlockLang
