import BlockLang.Expr.Parser
import BlockLang.Proofs.Literal

/-!
# The grammar

A derivation is a tree with the nonterminals of the grammar as its types:

* a phrase is a postfix phrase or one of the open forms, which reach as far to
  the right as the expression at their end: definition, assignment, let without
  braces, and conditional;
* a postfix phrase is a primary phrase with any number of argument lists;
* a primary phrase is an atom, a parameter list, a block, a lambda, or a let with
  a braced body.

Phrases are indexed by whether they end in a let without braces. The value of a
let with a braced body must not, since the brace would belong to the inner let.
Each derivation has a *yield*, the terminals at its leaves, and a *value*, the
expression that it derives.
-/

namespace BlockLang

/-- What the grammar sees of a token: the literal of a name, an integer or a
string, and the kind of anything else. -/
inductive Terminal where
  | name (x : Text)
  | integer (literal : Text)
  | string (s : Text)
  | mark (kind : Kind)
  deriving DecidableEq

/-- The terminal that a token is. -/
def Token.terminal (t : Token) : Terminal :=
  match t.kind with
  | .identifier => .name t.literal
  | .integer => .integer t.literal
  | .string => .string t.literal
  | kind => .mark kind

/-- The tokens that carry meaning. -/
def significant (tokens : List Token) : List Token :=
  tokens.filter fun t => !t.isTrivia

/-- The terminals of a list of tokens, trivia aside. -/
def terminals (tokens : List Token) : List Terminal :=
  (significant tokens).map Token.terminal

namespace Grammar

/-- A name that is not reserved. -/
abbrev Name := { x : Text // isReserved x = false }

/-- An integer literal together with the word that it denotes. -/
structure Numeral where
  literal : Text
  value : Int64
  denotes : Integer.Denotes literal value

/-- The two ways to write the word that begins a lambda. -/
inductive LambdaWord where
  | letters
  | sign

mutual

/-- Derivations of expressions. The index tells whether the expression ends in
a let without braces. -/
inductive Phrase : Bool → Type where
  | simple (p : Postfix) : Phrase false
  | define {b : Bool} (x : Name) (value : Phrase b) : Phrase b
  | assign {b : Bool} (x : Name) (value : Phrase b) : Phrase b
  | bareLet {b : Bool} (x : Name) (value : Phrase b) : Phrase true
  | cond (first : Clause) (rest : Clauses) : Phrase false

/-- Derivations of a primary phrase with argument lists. -/
inductive Postfix : Type where
  | mk (head : Primary) (calls : Calls)

/-- Derivations of primary phrases. -/
inductive Primary : Type where
  | name (x : Name)
  | integer (n : Numeral)
  | string (s : Text)
  | parameters (xs : List Name)
  | block (es : Phrases)
  | lambda (word : LambdaWord) (xs : List Name) (body : Phrases)
  | letIn (x : Name) (value : Phrase false) (body : Phrases)

/-- Derivations of one clause of a conditional. -/
inductive Clause : Type where
  | mk {b c : Bool} (test : Phrase b) (result : Phrase c)

/-- Sequences of clauses. -/
inductive Clauses : Type where
  | nil
  | cons (clause : Clause) (rest : Clauses)

/-- Sequences of expressions. -/
inductive Phrases : Type where
  | nil
  | cons {b : Bool} (e : Phrase b) (es : Phrases)

/-- Sequences of argument lists. -/
inductive Calls : Type where
  | nil
  | cons (operands : Phrases) (rest : Calls)

end

/-- Sequences of terminals, each after a mark. -/
def preceded (kind : Kind) : List (List Terminal) → List Terminal
  | [] => []
  | y :: ys => .mark kind :: (y ++ preceded kind ys)

/-- Sequences of terminals with a mark between neighbours. -/
def separated (kind : Kind) : List (List Terminal) → List Terminal
  | [] => []
  | y :: ys => y ++ preceded kind ys

/-- The terminals of names. -/
def nameYields (xs : List Name) : List (List Terminal) :=
  xs.map fun x => [.name x.val]

/-- A list between parentheses. -/
def listed (ys : List (List Terminal)) : List Terminal :=
  .mark .openParen :: (separated .comma ys ++ [.mark .closeParen])

/-- Statements between braces. -/
def braced (ys : List (List Terminal)) : List Terminal :=
  .mark .openBrace :: (separated .semicolon ys ++ [.mark .closeBrace])

/-- The kind of the word that begins a lambda. -/
def LambdaWord.kind : LambdaWord → Kind
  | letters => .lambda
  | sign => .lambdaSign

mutual

/-- The terminals of a phrase from left to right. -/
def Phrase.yield {b : Bool} : Phrase b → List Terminal
  | .simple p => p.yield
  | .define x value => .mark .define :: .name x :: .mark .equals :: value.yield
  | .assign x value => .name x :: .mark .equals :: value.yield
  | .bareLet x value => .mark .letIn :: .name x :: .mark .equals :: value.yield
  | .cond first rest => .mark .cond :: (first.yield ++ rest.yield)

/-- The terminals of a postfix phrase. -/
def Postfix.yield : Postfix → List Terminal
  | .mk head calls => head.yield ++ calls.yield

/-- The terminals of a primary phrase. -/
def Primary.yield : Primary → List Terminal
  | .name x => [.name x]
  | .integer n => [.integer n.literal]
  | .string s => [.string s]
  | .parameters xs => listed (nameYields xs)
  | .block es => braced es.yields
  | .lambda word xs body => .mark word.kind :: (listed (nameYields xs) ++ braced body.yields)
  | .letIn x value body =>
    .mark .letIn :: .name x :: .mark .equals :: (value.yield ++ braced body.yields)

/-- The terminals of a clause with its parentheses. -/
def Clause.yield : Clause → List Terminal
  | .mk test result =>
    .mark .openParen :: (test.yield ++ .mark .arrow :: (result.yield ++ [.mark .closeParen]))

/-- The terminals of clauses one after the other. -/
def Clauses.yield : Clauses → List Terminal
  | .nil => []
  | .cons clause rest => clause.yield ++ rest.yield

/-- The terminals of each expression of a sequence. -/
def Phrases.yields : Phrases → List (List Terminal)
  | .nil => []
  | .cons e es => e.yield :: es.yields

/-- The terminals of argument lists with their parentheses. -/
def Calls.yield : Calls → List Terminal
  | .nil => []
  | .cons operands rest => listed operands.yields ++ rest.yield

end

mutual

/-- The expression that a phrase derives. -/
def Phrase.value {b : Bool} : Phrase b → Source
  | .simple p => p.value
  | .define x value => .define () x value.value
  | .assign x value => .assign () x value.value
  | .bareLet x value => .letIn () x value.value [.placeholder]
  | .cond first rest => .cond () (first.value :: rest.values)

/-- The expression that a postfix phrase derives. -/
def Postfix.value : Postfix → Source
  | .mk head calls => calls.value head.value

/-- The expression that a primary phrase derives. -/
def Primary.value : Primary → Source
  | .name x => .identifier x
  | .integer n => .integer n.value
  | .string s => .string s
  | .parameters xs => .parameters () (xs.map (·.val))
  | .block es => .block () es.values
  | .lambda _ xs body => .lambda () (xs.map (·.val)) body.values
  | .letIn x value body => .letIn () x value.value body.values

/-- The test and the result of a clause. -/
def Clause.value : Clause → Source × Source
  | .mk test result => (test.value, result.value)

/-- The tests and results of clauses. -/
def Clauses.values : Clauses → List (Source × Source)
  | .nil => []
  | .cons clause rest => clause.value :: rest.values

/-- The expressions of a sequence. -/
def Phrases.values : Phrases → List Source
  | .nil => []
  | .cons e es => e.value :: es.values

/-- The application of an operator to one argument list after the other. -/
def Calls.value (operator : Source) : Calls → Source
  | .nil => operator
  | .cons operands rest => rest.value (.apply () operator operands.values)

end

/-- A derivation of an expression. -/
abbrev Derivation := Σ b : Bool, Phrase b

/-- The terminals of a derivation. -/
def Derivation.yield (d : Derivation) : List Terminal :=
  d.2.yield

/-- The expression that a derivation derives. -/
def Derivation.value (d : Derivation) : Source :=
  d.2.value

end Grammar

end BlockLang
