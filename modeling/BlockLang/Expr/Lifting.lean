import BlockLang.Expr.Outline
import BlockLang.Expr.Parser

/-!
# Lifting lets

A let written without braces scopes over the rest of its block. Lifting gives it
that rest as its body: the block `s; let x = v; r` becomes `s; let x = v { r }`.
Outside the statements of a block such a let scopes over nothing and its body
becomes empty. No other node changes. A list or a placeholder is never part of a
program; lifting stops at the first one and leaves what follows it as it was.
-/

namespace BlockLang

/-- An expression that cannot be part of a program. -/
structure Misfit where
  message : Text
  inspected : Text

/-- A tree as far as it was lifted, and the misfit that stopped it. -/
abbrev Lifted (α : Type) := α × Option Misfit

namespace Expr

variable {ι : Type}

mutual

/-- Lifts the lets of an expression. -/
def lift : Expr ι → Lifted (Expr ι)
  | integer n => (integer n, none)
  | string s => (string s, none)
  | boolean b => (boolean b, none)
  | identifier x => (identifier x, none)
  | procedure i name wired => (procedure i name wired, none)
  | parameters i xs => (parameters i xs, none)
  | assign i x value =>
    let (value, misfit) := lift value
    (assign i x value, misfit)
  | define i x value =>
    let (value, misfit) := lift value
    (define i x value, misfit)
  | apply i operator operands =>
    match lift operator with
    | (operator, some misfit) => (apply i operator operands, some misfit)
    | (operator, none) =>
      let (operands, misfit) := liftAll operands
      (apply i operator operands, misfit)
  | lambda i xs body =>
    let (body, misfit) := liftBlock body
    (lambda i xs body, misfit)
  | cond i clauses =>
    let (clauses, misfit) := liftClauses clauses
    (cond i clauses, misfit)
  | clause i test result =>
    match lift test with
    | (test, some misfit) => (clause i test result, some misfit)
    | (test, none) =>
      let (result, misfit) := lift result
      (clause i test result, misfit)
  | block i es =>
    let (es, misfit) := liftBlock es
    (block i es, misfit)
  | letIn i x value body =>
    match lift value with
    | (value, some misfit) =>
      (letIn i x value (if isOpenBody body then [] else body), some misfit)
    | (value, none) =>
      if isOpenBody body then (letIn i x value [], none)
      else
        let (body, misfit) := liftBlock body
        (letIn i x value body, misfit)
  | list i elements =>
    (list i elements, some ⟨"unexpected LIST", (list i elements).inspect⟩)
  | placeholder => (placeholder, some ⟨"unexpected DUMMY", (placeholder : Expr ι).inspect⟩)
  | absent => (absent, some ⟨"unhandled expression <nil>", (absent : Expr ι).inspect⟩)

/-- Lifts the lets of expressions one after the other. -/
def liftAll : List (Expr ι) → Lifted (List (Expr ι))
  | [] => ([], none)
  | e :: es =>
    match lift e with
    | (e, some misfit) => (e :: es, some misfit)
    | (e, none) =>
      let (es, misfit) := liftAll es
      (e :: es, misfit)

/-- Lifts the lets of the clauses of a conditional. -/
def liftClauses : List (Expr ι × Expr ι) → Lifted (List (Expr ι × Expr ι))
  | [] => ([], none)
  | (test, result) :: clauses =>
    match lift test with
    | (test, some misfit) => ((test, result) :: clauses, some misfit)
    | (test, none) =>
      match lift result with
      | (result, some misfit) => ((test, result) :: clauses, some misfit)
      | (result, none) =>
        let (clauses, misfit) := liftClauses clauses
        ((test, result) :: clauses, misfit)

/-- Lifts the lets of the statements of a block. The first let without braces
takes the statements after it along. -/
def liftBlock : List (Expr ι) → Lifted (List (Expr ι))
  | [] => ([], none)
  | letIn i x value body :: rest =>
    if isOpenBody body then
      match lift value with
      | (value, some misfit) =>
        ([letIn i x value (if isOpenBody rest then [] else rest)], some misfit)
      | (value, none) =>
        if isOpenBody rest then ([letIn i x value []], none)
        else
          let (rest, misfit) := liftBlock rest
          ([letIn i x value rest], misfit)
    else
      match lift (letIn i x value body) with
      | (e, some misfit) => (e :: rest, some misfit)
      | (e, none) =>
        let (rest, misfit) := liftBlock rest
        (e :: rest, misfit)
  | e :: rest =>
    match lift e with
    | (e, some misfit) => (e :: rest, some misfit)
    | (e, none) =>
      let (rest, misfit) := liftBlock rest
      (e :: rest, misfit)

end

end Expr

/-- The failure of a tree with a misfit. -/
def Misfit.toFailure (m : Misfit) : Failure :=
  .shape m.message m.inspected

/-- The program of a source: parsed, with its lets lifted. -/
def compile (source : Text) : Except Failure Source :=
  match parse (scan source) with
  | .error e => .error (.parse e)
  | .ok e =>
    match e.lift with
    | (e, none) => .ok e
    | (_, some misfit) => .error misfit.toFailure

end BlockLang
