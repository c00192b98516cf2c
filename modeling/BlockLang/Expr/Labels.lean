import BlockLang.Expr

/-!
# Labelling

Before a tree is evaluated each of its compound nodes gets a label of its own.
Labels are handed out in ascending order from a given one, so trees labelled one
after the other share none.
-/

namespace BlockLang

namespace Expr

variable {ι : Type}

mutual

/-- A tree with fresh labels from `next` on, and the first label not used. -/
def labelled (next : Label) : Expr ι → Node × Label
  | integer n => (.integer n, next)
  | string s => (.string s, next)
  | boolean b => (.boolean b, next)
  | identifier x => (.identifier x, next)
  | placeholder => (.placeholder, next)
  | absent => (.absent, next)
  | parameters _ xs => (.parameters next xs, next + 1)
  | lambda _ xs body =>
    let (body, last) := labelledAll (next + 1) body
    (.lambda next xs body, last)
  | block _ es =>
    let (es, last) := labelledAll (next + 1) es
    (.block next es, last)
  | clause _ test result =>
    let (test, last) := labelled (next + 1) test
    let (result, last) := labelled last result
    (.clause next test result, last)
  | cond _ clauses =>
    let (clauses, last) := labelledClauses (next + 1) clauses
    (.cond next clauses, last)
  | letIn _ x value body =>
    let (value, last) := labelled (next + 1) value
    let (body, last) := labelledAll last body
    (.letIn next x value body, last)
  | define _ x value =>
    let (value, last) := labelled (next + 1) value
    (.define next x value, last)
  | assign _ x value =>
    let (value, last) := labelled (next + 1) value
    (.assign next x value, last)
  | apply _ operator operands =>
    let (operator, last) := labelled (next + 1) operator
    let (operands, last) := labelledAll last operands
    (.apply next operator operands, last)
  | procedure _ name wired => (.procedure next name wired, next + 1)
  | list _ elements =>
    let (elements, last) := labelledAll (next + 1) elements
    (.list next elements, last)

/-- The trees of a list labelled one after the other. -/
def labelledAll (next : Label) : List (Expr ι) → List Node × Label
  | [] => ([], next)
  | e :: es =>
    let (e, last) := labelled next e
    let (es, last) := labelledAll last es
    (e :: es, last)

/-- The clauses of a conditional labelled one after the other. -/
def labelledClauses (next : Label) : List (Expr ι × Expr ι) → List (Node × Node) × Label
  | [] => ([], next)
  | (test, result) :: clauses =>
    let (test, last) := labelled next test
    let (result, last) := labelled last result
    let (clauses, last) := labelledClauses last clauses
    ((test, result) :: clauses, last)

end

end Expr

end BlockLang
