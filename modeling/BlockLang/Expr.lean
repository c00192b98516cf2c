import BlockLang.Text

/-!
# Expressions

Programs are expressions, and so are the values that they compute: a value is an
expression that evaluates to itself. The nodes that are compared by identity
carry a label. A tree read from source has no labels (`Expr Unit`); a tree that
is evaluated has a different label on each of its nodes.
-/

namespace BlockLang

/-- Expressions whose compound nodes carry labels of type `ι`. The placeholder
stands for a definition that has not been made yet and for the body of a let
written without braces. A part that was never filled in is absent. -/
inductive Expr (ι : Type) where
  | integer (n : Int64)
  | string (s : Text)
  | boolean (b : Bool)
  | identifier (x : Text)
  | placeholder
  | absent
  | parameters (i : ι) (xs : List Text)
  | lambda (i : ι) (xs : List Text) (body : List (Expr ι))
  | block (i : ι) (es : List (Expr ι))
  | clause (i : ι) (test result : Expr ι)
  | cond (i : ι) (clauses : List (Expr ι × Expr ι))
  | letIn (i : ι) (x : Text) (value : Expr ι) (body : List (Expr ι))
  | define (i : ι) (x : Text) (value : Expr ι)
  | assign (i : ι) (x : Text) (value : Expr ι)
  | apply (i : ι) (operator : Expr ι) (operands : List (Expr ι))
  | procedure (i : ι) (name : Text) (wired : Bool)
  | list (i : ι) (elements : List (Expr ι))

instance {ι : Type} : Inhabited (Expr ι) := ⟨.absent⟩

/-- An expression as it is written: nothing distinguishes equal parts. -/
abbrev Source := Expr Unit

/-- The identity of a node. -/
abbrev Label := Nat

/-- An expression whose nodes have identities. -/
abbrev Node := Expr Label

namespace Expr

variable {ι : Type}

/-- The name of the form of an expression. -/
def typeName : Expr ι → Text
  | integer _ => "INTEGER"
  | string _ => "STRING"
  | boolean _ => "BOOLEAN"
  | identifier _ => "IDENTIFIER"
  | placeholder => "DUMMY"
  | absent => "<nil>"
  | parameters .. => "PARAMETERS"
  | lambda .. => "LAMBDA"
  | block .. => "BLOCK"
  | clause .. => "CLAUSE"
  | cond .. => "COND"
  | letIn .. => "LET"
  | define .. => "DEFINITION"
  | assign .. => "ASSIGNMENT"
  | apply .. => "APPLICATION"
  | procedure .. => "PROCEDURE"
  | list .. => "LIST"

/-- Whether an expression is the placeholder. -/
def isPlaceholder : Expr ι → Bool
  | placeholder => true
  | _ => false

/-- Whether a body is the one of a let written without braces, which extends to
the end of the enclosing block. -/
def isOpenBody : List (Expr ι) → Bool
  | [placeholder] => true
  | _ => false

/-- The label of a compound node. -/
def label? : Expr ι → Option ι
  | integer _ | string _ | boolean _ | identifier _ | placeholder | absent => none
  | parameters i _ | lambda i _ _ | block i _ | clause i _ _ | cond i _ | letIn i _ _ _
  | define i _ _ | assign i _ _ | apply i _ _ | procedure i _ _ | list i _ => some i

/-- Whether two values are the same: atoms and identifiers by what they hold,
compound nodes by identity. The placeholder is not even the same as itself. -/
def same [BEq ι] : Expr ι → Expr ι → Bool
  | integer m, integer n => m == n
  | string s, string t => s == t
  | boolean a, boolean b => a == b
  | identifier x, identifier y => x == y
  | absent, absent => true
  | a, b =>
    match a.label?, b.label? with
    | some i, some j => i == j
    | _, _ => false

end Expr

end BlockLang
