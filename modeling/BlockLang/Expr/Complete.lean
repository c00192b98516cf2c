import BlockLang.Expr.Outline

/-!
# Complete outlines

An outline is complete if every node has the parts of its form. A complete
outline is the outline of an expression.
-/

namespace BlockLang

namespace Outline

/-- The name of an identifier. -/
def name? : Outline → Option Text
  | identifier x => some x
  | _ => none

/-- The names of a parameter list. -/
def names? : Outline → Option (List Text)
  | node .parameters xs => xs.mapM name?
  | _ => none

mutual

/-- The expression with a given outline. A procedure is not wired to the program
that runs it. -/
def toExpr? : Outline → Option Source
  | hole => some .absent
  | integer n => some (.integer n)
  | string s => some (.string s)
  | boolean b => some (.boolean b)
  | identifier x => some (.identifier x)
  | procedure name => some (.procedure () name false)
  | placeholder => some .placeholder
  | node .parameters xs => do return .parameters () (← xs.mapM name?)
  | node .lambda [xs, node .block body] => do
    return .lambda () (← names? xs) (← toExprs? body)
  | node .block es => do return .block () (← toExprs? es)
  | node .clause [test, result] => do return .clause () (← toExpr? test) (← toExpr? result)
  | node .cond clauses => do return .cond () (← toClauses? clauses)
  | node .letIn [x, value, node .block body] => do
    return .letIn () (← name? x) (← toExpr? value) (← toExprs? body)
  | node .define [x, value] => do return .define () (← name? x) (← toExpr? value)
  | node .assign [x, value] => do return .assign () (← name? x) (← toExpr? value)
  | node .apply (operator :: operands) => do
    return .apply () (← toExpr? operator) (← toExprs? operands)
  | node .list elements => do return .list () (← toExprs? elements)
  | node _ _ => none

/-- The expressions with given outlines. -/
def toExprs? : List Outline → Option (List Source)
  | [] => some []
  | o :: os => do return (← toExpr? o) :: (← toExprs? os)

/-- The clauses with given outlines. -/
def toClauses? : List Outline → Option (List (Source × Source))
  | [] => some []
  | node .clause [test, result] :: os => do
    return (← toExpr? test, ← toExpr? result) :: (← toClauses? os)
  | _ :: _ => none

end

end Outline

end BlockLang
