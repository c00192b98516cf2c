import BlockLang.Text

/-!
# Procedures

The procedures of the language and the names that are bound before any program
runs.
-/

namespace BlockLang

/-- The procedures of the language. -/
inductive Procedure where
  | add
  | sub
  | mul
  | div
  | mod
  | equals
  | greaterThan
  | lessThan
  | zero
  | or
  | and
  | not
  | print
  | fail
  | readInput
  | readLine
  | readFile
  | concat
  | charAt
  | substring
  | length
  | isDigit
  | isLetter
  | parseInt
  | cons
  | head
  | tail
  | isEmpty
  | reverse
  | append
  | map
  | type
  deriving DecidableEq

namespace Procedure

/-- Every procedure once. -/
def all : List Procedure :=
  [add, sub, mul, div, mod, equals, greaterThan, lessThan, zero, or, and, not, print, fail,
   readInput, readLine, readFile, concat, charAt, substring, length, isDigit, isLetter, parseInt,
   cons, head, tail, isEmpty, reverse, append, map, type]

/-- The name of a procedure. -/
def name : Procedure → Text
  | add => "add"
  | sub => "sub"
  | mul => "mul"
  | div => "div"
  | mod => "mod"
  | equals => "equals?"
  | greaterThan => "greaterThan?"
  | lessThan => "lessThan?"
  | zero => "zero?"
  | or => "or?"
  | and => "and?"
  | not => "not?"
  | print => "print"
  | fail => "fail"
  | readInput => "readInput"
  | readLine => "readLine"
  | readFile => "readFile"
  | concat => "concat"
  | charAt => "charAt"
  | substring => "substring"
  | length => "length"
  | isDigit => "isDigit?"
  | isLetter => "isLetter?"
  | parseInt => "parseInt"
  | cons => "cons"
  | head => "head"
  | tail => "tail"
  | isEmpty => "isEmpty?"
  | reverse => "reverse"
  | append => "append"
  | map => "map"
  | type => "type"

/-- The procedure with a given name. -/
def ofName? (name : Text) : Option Procedure :=
  all.find? (·.name == name)

end Procedure

end BlockLang
