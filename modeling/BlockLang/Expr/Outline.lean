import BlockLang.Expr
import BlockLang.Dump

/-!
# Printed forms

An outline is what the printers see of an expression: the form of each node and
its parts, without labels. Unlike an expression an outline may lack any of its
parts. There are three printed forms. The inspection text names every node with
its parts; the source text is indented source that reads back as the same
expression; the dump is the whole tree as a structured value.
-/

namespace BlockLang

/-- The form of a node that has parts. -/
inductive Shape where
  | parameters
  | lambda
  | block
  | clause
  | cond
  | letIn
  | define
  | assign
  | apply
  | list
  deriving DecidableEq

/-- A printable tree. -/
inductive Outline where
  | hole
  | integer (n : Int64)
  | string (s : Text)
  | boolean (b : Bool)
  | identifier (x : Text)
  | procedure (name : Text)
  | placeholder
  | node (shape : Shape) (parts : List Outline)

instance : Inhabited Outline := ⟨.hole⟩

namespace Shape

/-- The tag of a node in inspection texts. -/
def tag : Shape → Text
  | parameters => "Parameters"
  | lambda => "Lambda"
  | block => "Block"
  | clause => "Clause"
  | cond => "Cond"
  | letIn => "Let"
  | define => "Def"
  | assign => "Assignment"
  | apply => "Application"
  | list => "List"

/-- The name of the form. -/
def typeName : Shape → Text
  | parameters => "PARAMETERS"
  | lambda => "LAMBDA"
  | block => "BLOCK"
  | clause => "CLAUSE"
  | cond => "COND"
  | letIn => "LET"
  | define => "DEFINITION"
  | assign => "ASSIGNMENT"
  | apply => "APPLICATION"
  | list => "LIST"

/-- The fields of a node's dump besides its type, in the order of their names. -/
def fields (shape : Shape) (parts : List Dump) : List (Text × Dump) :=
  match shape, parts with
  | parameters, xs => [("parameters", .array xs), ("type", .string "Parameters")]
  | lambda, [xs, body] => [("body", body), ("parameters", xs), ("type", .string "Lambda")]
  | block, es => [("expressions", .array es), ("type", .string "Block")]
  | clause, [test, result] => [("consequent", result), ("test", test), ("type", .string "Clause")]
  | cond, clauses => [("clauses", .array clauses), ("type", .string "Cond")]
  | letIn, [x, value, body] =>
    [("body", body), ("identifier", x), ("type", .string "Let"), ("value", value)]
  | define, [x, value] => [("identifier", x), ("type", .string "Def"), ("value", value)]
  | assign, [x, value] => [("identifier", x), ("type", .string "Assignment"), ("value", value)]
  | apply, operator :: operands =>
    [("arguments", .array operands), ("operator", operator), ("type", .string "Application")]
  | list, elements => [("elements", .array elements), ("type", .string "List")]
  | shape, _ => [("type", .string shape.tag)]

end Shape

namespace Outline

/-- The name of the form of an outline. -/
def typeName : Outline → Text
  | hole => "<nil>"
  | integer _ => "INTEGER"
  | string _ => "STRING"
  | boolean _ => "BOOLEAN"
  | identifier _ => "IDENTIFIER"
  | procedure _ => "PROCEDURE"
  | placeholder => "DUMMY"
  | node shape _ => shape.typeName

/-- Whether an outline is a let whose body is the placeholder alone. -/
def isOpenLet : Outline → Bool
  | node .letIn [_, _, node .block [placeholder]] => true
  | _ => false

mutual

/-- The inspection text: atoms as they are, nodes with their tag and parts. -/
def inspect : Outline → Text
  | hole => "<nil>"
  | integer n => Integer.text n
  | string s => "\"" ++ s ++ "\""
  | boolean b => if b then "true" else "false"
  | identifier x => "\x7b\"Identifier\": \"" ++ x ++ "\"\x7d"
  | procedure name => "<procedure " ++ name ++ ">"
  | placeholder => "<dummy>"
  | node shape parts =>
    "\x7b\"" ++ shape.tag ++ "\":[" ++ Text.join "," (inspectAll parts) ++ "]\x7d"

/-- The inspection texts of a list of outlines. -/
def inspectAll : List Outline → List Text
  | [] => []
  | o :: os => inspect o :: inspectAll os

end

mutual

/-- The tree as a structured value. -/
def dump : Outline → Dump
  | hole => .null
  | integer n => .object [("type", .string "Integer"), ("value", .integer n.toInt)]
  | string s => .object [("type", .string "String"), ("value", .string s)]
  | boolean b => .object [("type", .string "Boolean"), ("value", .boolean b)]
  | identifier x => .object [("name", .string x), ("type", .string "Identifier")]
  | procedure name => .object [("name", .string name), ("type", .string "Procedure")]
  | placeholder => .object [("type", .string "Dummy")]
  | node shape parts => .object (shape.fields (dumpAll parts))

/-- The structured values of a list of outlines. -/
def dumpAll : List Outline → List Dump
  | [] => []
  | o :: os => dump o :: dumpAll os

end

/-- A character of a string in source text. -/
def escapedChar (c : Char) : Text :=
  match c.toNat with
  | 0x0A => "\\n"
  | 0x09 => "\\t"
  | 0x22 => "\\\""
  | 0x5C => "\\\\"
  | _ => String.utf8EncodeChar c

/-- A string as it is written in source text. -/
def stringLiteral (s : Text) : Text :=
  "\"" ++ s.chars.flatMap escapedChar ++ "\""

/-- The blanks at the start of an indented line. -/
def margin (indent : Nat) : Text :=
  List.replicate (2 * indent) 0x20

/-- The statements of a block between braces. -/
def bracedLines (indent : Nat) (statements : List Text) : Text :=
  if statements.isEmpty then "\x7b\x7d"
  else
    "\x7b\n" ++ Text.join ";\n" (statements.map (margin (indent + 1) ++ ·)) ++ "\n" ++
      margin indent ++ "\x7d"

/-- The clauses of a conditional, aligned below each other. -/
def clauseLines (indent : Nat) (clauses : List Text) : Text :=
  if clauses.isEmpty then "cond"
  else "cond " ++ Text.join ("\n" ++ margin indent ++ "     ") clauses

mutual

/-- The source text at a level of indentation. -/
def source (indent : Nat) : Outline → Text
  | hole => "nil"
  | integer n => Integer.text n
  | string s => stringLiteral s
  | boolean b => if b then "true" else "false"
  | identifier x => x
  | procedure name => name
  | placeholder => []
  | node .parameters xs => "(" ++ Text.join ", " (sourceAll indent xs) ++ ")"
  | node .lambda [xs, body] => "lambda " ++ source 0 xs ++ " " ++ source indent body
  | node .block es => bracedLines indent (sourceAll (indent + 1) es)
  | node .cond clauses => clauseLines indent (sourceAll indent clauses)
  | node .clause [test, result] =>
    "(" ++ source indent test ++ " => " ++ source indent result ++ ")"
  | node .letIn [x, value, node .block [placeholder]] =>
    "let " ++ source indent x ++ " = " ++ source indent value
  | node .letIn [x, value, body] =>
    "let " ++ source indent x ++ " = " ++ source indent value ++ " " ++ source indent body
  | node .define [x, value] => "def " ++ source indent x ++ " = " ++ source indent value
  | node .assign [x, value] => source indent x ++ " = " ++ source indent value
  | node .apply (operator :: operands) =>
    source indent operator ++ "(" ++ Text.join ", " (sourceAll indent operands) ++ ")"
  | node shape parts => inspect (node shape parts)

/-- The source texts of a list of outlines. -/
def sourceAll (indent : Nat) : List Outline → List Text
  | [] => []
  | o :: os => source indent o :: sourceAll indent os

end

/-- The dump of a tree as text. -/
def json (o : Outline) : Text :=
  o.dump.text

end Outline

namespace Expr

variable {ι : Type}

mutual

/-- The outline of an expression. -/
def outline : Expr ι → Outline
  | integer n => .integer n
  | string s => .string s
  | boolean b => .boolean b
  | identifier x => .identifier x
  | placeholder => .placeholder
  | absent => .hole
  | parameters _ xs => .node .parameters (xs.map .identifier)
  | lambda _ xs body =>
    .node .lambda [.node .parameters (xs.map .identifier), .node .block (outlines body)]
  | block _ es => .node .block (outlines es)
  | clause _ test result => .node .clause [outline test, outline result]
  | cond _ clauses => .node .cond (clauseOutlines clauses)
  | letIn _ x value body =>
    .node .letIn [.identifier x, outline value, .node .block (outlines body)]
  | define _ x value => .node .define [.identifier x, outline value]
  | assign _ x value => .node .assign [.identifier x, outline value]
  | apply _ operator operands => .node .apply (outline operator :: outlines operands)
  | procedure _ name _ => .procedure name
  | list _ elements => .node .list (outlines elements)

/-- The outlines of a list of expressions. -/
def outlines : List (Expr ι) → List Outline
  | [] => []
  | e :: es => outline e :: outlines es

/-- The outlines of the clauses of a conditional. -/
def clauseOutlines : List (Expr ι × Expr ι) → List Outline
  | [] => []
  | (test, result) :: clauses =>
    .node .clause [outline test, outline result] :: clauseOutlines clauses

end

/-- The inspection text of an expression. -/
def inspect (e : Expr ι) : Text :=
  e.outline.inspect

/-- The source text of an expression at a level of indentation. -/
def source (e : Expr ι) (indent : Nat) : Text :=
  e.outline.source indent

/-- The dump of an expression as text. -/
def json (e : Expr ι) : Text :=
  e.outline.json

end Expr

end BlockLang
