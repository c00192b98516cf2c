import BlockLang.Expr.Parser

/-!
# An automaton for parsing

The automaton reads the meaningful tokens from left to right, one at a time, and never
goes back. Its state says what may come next and which expressions have been begun. Each
token moves it to a next state, ends the expression in front of the token, or is the
first offending token. So what it does with the tokens it has read is all in its state,
and this is the form in which to reason about what may follow them.
-/

namespace BlockLang

namespace Automaton

/-- What a block is the body of. -/
inductive BlockRole where
  | plain
  | lambda (xs : List Text)
  | letIn (x : Text) (value : Source)

/-- The expression that a closed block completes. -/
def BlockRole.close : BlockRole → List Source → Source
  | plain, es => .block () es
  | lambda xs, es => .lambda () xs es
  | letIn x value, es => .letIn () x value es

/-- The three forms that bind a name to a value. -/
inductive BindingForm where
  | define
  | assign
  | letIn

/-- What a parameter list belongs to. -/
inductive ListRole where
  | plain
  | lambda

/-- An expression that has been begun and waits for a part. Finished parts are
kept last first. -/
inductive Context where
  | statement (role : BlockRole) (done : List Source)
  | argument (operator : Source) (done : List Source)
  | test (clauses : List (Source × Source))
  | result (clauses : List (Source × Source)) (test : Source)
  | binding (form : BindingForm) (x : Text)

/-- What may come next. -/
inductive Expectation where
  | expression
  | statementOrClose (role : BlockRole)
  | argumentOrClose (operator : Source)
  | afterName (x : Text)
  | afterExpression (e : Source)
  | lambdaOpen
  | parameterOrClose (role : ListRole)
  | parameter (role : ListRole) (done : List Text)
  | afterParameter (role : ListRole) (done : List Text)
  | bodyOpen (xs : List Text)
  | clauseOpen
  | afterClause (clauses : List (Source × Source))
  | bindingName (form : BindingForm)
  | bindingEquals (form : BindingForm) (x : Text)

/-- A state of the automaton: what may come next, and the expressions begun so far,
innermost first. -/
structure State where
  next : Expectation
  contexts : List Context

/-- What the automaton does at a token. Ending an expression leaves the token
unread; an offending token may have been read or not. -/
inductive Move where
  | shift (s : State)
  | finish (e : Source)
  | fail (c : Complaint) (consumed : Bool)

/-- The complaint about a token, or the end, where only one kind is possible. -/
def refuse (wanted : Kind) : Option Token → Move
  | none => .fail (.ended [wanted]) false
  | some t => .fail (if t.kind.isError then .malformed t else .unexpected [wanted] t) false

/-- Goes on to a state if the token has the wanted kind. -/
def expect (wanted : Kind) (look : Option Token) (s : State) : Move :=
  if look.any (·.kind == wanted) then .shift s else refuse wanted look

/-- Goes on with the name of an identifier. -/
def expectName (look : Option Token) (s : Text → State) : Move :=
  match look with
  | some t =>
    if t.kind == .identifier then
      if isReserved t.literal then .fail (.reserved t) true else .shift (s t.literal)
    else refuse .identifier look
  | none => refuse .identifier none

/-- The first token of an expression. -/
def begin (k : List Context) : Option Token → Move
  | none => .fail .nothing false
  | some t =>
    match t.kind with
    | .openParen => .shift ⟨.parameterOrClose .plain, k⟩
    | .openBrace => .shift ⟨.statementOrClose .plain, k⟩
    | .lambda | .lambdaSign => .shift ⟨.lambdaOpen, k⟩
    | .cond => .shift ⟨.clauseOpen, k⟩
    | .define => .shift ⟨.bindingName .define, k⟩
    | .letIn => .shift ⟨.bindingName .letIn, k⟩
    | .identifier =>
      if isReserved t.literal then .fail (.reserved t) true else .shift ⟨.afterName t.literal, k⟩
    | .string => .shift ⟨.afterExpression (.string t.literal), k⟩
    | .integer =>
      match Integer.read t.literal with
      | .ok n => .shift ⟨.afterExpression (.integer n), k⟩
      | .error .outOfRange => .fail (.outOfRange t) true
      | .error .malformed => .fail (.badInteger t) true
    | .equals | .arrow | .closeBrace | .closeParen | .comma | .semicolon =>
      .fail (.spurious t) false
    | kind => .fail (if kind.isError then .malformed t else .unhandled t) false

/-- Hands a complete expression, which the next token does not extend, to the
expression that waits for it. -/
def reduce (look : Option Token) (e : Source) : List Context → Move
  | [] => .finish e
  | .binding .define x :: k => reduce look (.define () x e) k
  | .binding .assign x :: k => reduce look (.assign () x e) k
  | .binding .letIn x :: k =>
    if look.any (·.kind == .openBrace) then .shift ⟨.statementOrClose (.letIn x e), k⟩
    else reduce look (.letIn () x e [.placeholder]) k
  | .statement role done :: k =>
    if look.any (·.kind == .semicolon) then .shift ⟨.expression, .statement role (e :: done) :: k⟩
    else expect .closeBrace look ⟨.afterExpression (role.close (e :: done).reverse), k⟩
  | .argument operator done :: k =>
    if look.any (·.kind == .comma) then .shift ⟨.expression, .argument operator (e :: done) :: k⟩
    else expect .closeParen look ⟨.afterExpression (.apply () operator (e :: done).reverse), k⟩
  | .test clauses :: k => expect .arrow look ⟨.expression, .result clauses e :: k⟩
  | .result clauses test :: k =>
    expect .closeParen look ⟨.afterClause ((test, e) :: clauses), k⟩

/-- A complete expression, unless an argument list follows. -/
def settle (look : Option Token) (e : Source) (k : List Context) : Move :=
  if look.any (·.kind == .openParen) then .shift ⟨.argumentOrClose e, k⟩
  else reduce look e k

/-- The expression that a closed parameter list leads to. -/
def closeList (role : ListRole) (xs : List Text) (k : List Context) : State :=
  match role with
  | .plain => ⟨.afterExpression (.parameters () xs), k⟩
  | .lambda => ⟨.bodyOpen xs, k⟩

/-- What the automaton does when it sees a token, or the end of the input. -/
def step (s : State) (look : Option Token) : Move :=
  let k := s.contexts
  match s.next with
  | .expression => begin k look
  | .statementOrClose role =>
    if look.any (·.kind == .closeBrace) then .shift ⟨.afterExpression (role.close []), k⟩
    else begin (.statement role [] :: k) look
  | .argumentOrClose operator =>
    if look.any (·.kind == .closeParen) then .shift ⟨.afterExpression (.apply () operator []), k⟩
    else begin (.argument operator [] :: k) look
  | .afterName x =>
    if look.any (·.kind == .equals) then .shift ⟨.expression, .binding .assign x :: k⟩
    else settle look (.identifier x) k
  | .afterExpression e => settle look e k
  | .lambdaOpen => expect .openParen look ⟨.parameterOrClose .lambda, k⟩
  | .parameterOrClose role =>
    if look.any (·.kind == .closeParen) then .shift (closeList role [] k)
    else expectName look fun x => ⟨.afterParameter role [x], k⟩
  | .parameter role done => expectName look fun x => ⟨.afterParameter role (x :: done), k⟩
  | .afterParameter role done =>
    if look.any (·.kind == .comma) then .shift ⟨.parameter role done, k⟩
    else expect .closeParen look (closeList role done.reverse k)
  | .bodyOpen xs => expect .openBrace look ⟨.statementOrClose (.lambda xs), k⟩
  | .clauseOpen => expect .openParen look ⟨.expression, .test [] :: k⟩
  | .afterClause clauses =>
    if look.any (·.kind == .openParen) then .shift ⟨.expression, .test clauses :: k⟩
    else reduce look (.cond () clauses.reverse) k
  | .bindingName form => expectName look fun x => ⟨.bindingEquals form x, k⟩
  | .bindingEquals form x => expect .equals look ⟨.expression, .binding form x :: k⟩

/-- The state in front of an expression. -/
def start : State :=
  ⟨.expression, []⟩

/-- Reads one expression, or up to the first offending token, and returns the tokens
that it has not read. -/
def run (s : State) : List Token → Except Complaint Source × List Token
  | [] =>
    match step s none with
    | .finish e => (.ok e, [])
    | .fail c _ => (.error c, [])
    | .shift _ => (.error .nothing, [])
  | t :: ts =>
    match step s (some t) with
    | .finish e => (.ok e, t :: ts)
    | .fail c consumed => (.error c, if consumed then ts else t :: ts)
    | .shift s' => run s' ts

/-- What comes of a move in front of some tokens. -/
def follow (m : Move) (ts : List Token) : Except Complaint Source × List Token :=
  match m, ts with
  | .finish e, ts => (.ok e, ts)
  | .fail c consumed, ts => (.error c, if consumed then ts.tail else ts)
  | .shift _, [] => (.error .nothing, [])
  | .shift s, _ :: ts => run s ts

theorem run_eq_follow (s : State) (ts : List Token) : run s ts = follow (step s ts.head?) ts := by
  cases ts with
  | nil =>
      rw [run, List.head?_nil]
      cases step s none with
      | shift s' => rfl
      | finish e => rfl
      | fail c consumed => cases consumed <;> rfl
  | cons t ts =>
      rw [run, List.head?_cons]
      cases step s (some t) <;> rfl

end Automaton

end BlockLang
