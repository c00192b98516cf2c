import BlockLang.Expr.Outline
import BlockLang.Failure
import BlockLang.Procedure

/-!
# Faults

The ways in which an evaluation can go wrong. A fault ends the whole evaluation:
nothing in the language can catch it. Each fault has a kind and a message, and
some have a cause outside the program. A panic of the evaluator, which a session
recovers from, is a fault like the others: a missing caller is the only one.
-/

namespace BlockLang

/-- What stopped an evaluation. -/
inductive Fault where
  | recursionLimit
  | unbound (x : Text)
  | usedBeforeDefinition (x : Text)
  | placeholderEvaluated
  | notEvaluable (typeName : Text)
  | unknownExpression
  | testNotBoolean (typeName : Text)
  | noPlaceholder (x : Text)
  | applyOutsideProcedure
  | noCaller
  | lambdaArity (got want : Nat)
  | notCallable (inspected : Text)
  | arity (p : Procedure) (got want : Nat)
  | arityAtLeast (p : Procedure) (got want : Nat)
  | argumentType (p : Procedure) (want got : Text)
  | overflow (p : Procedure) (a b : Int64)
  | divisionByZero (p : Procedure)
  | emptyList (p : Procedure)
  | indexOutOfBounds (index : Int64) (s : Text)
  | invalidSubstring (first last : Int64) (s : Text)
  | notOneCharacter (s : Text)
  | mapUnavailable
  | failed (message : Text)
  | printFailed (cause : Text)
  | inputFailed (cause : Text)
  | lineFailed (cause : Text)
  | fileFailed (path cause : Text)

namespace Fault

/-- The kind of a fault. The depth limit has none of its own. -/
def kind : Fault → ErrorKind
  | recursionLimit | notEvaluable _ | unknownExpression | noPlaceholder _ | applyOutsideProcedure
  | noCaller | mapUnavailable => .internal
  | unbound _ => .unboundIdentifier
  | usedBeforeDefinition _ | placeholderEvaluated => .usedBeforeDefinition
  | testNotBoolean _ | argumentType .. => .typeMismatch
  | lambdaArity .. | arity .. | arityAtLeast .. => .wrongArity
  | notCallable _ => .notCallable
  | overflow .. => .arithmeticOverflow
  | divisionByZero _ => .divisionByZero
  | emptyList _ | indexOutOfBounds .. | invalidSubstring .. | notOneCharacter _ => .invalidArgument
  | failed _ => .userFailure
  | printFailed _ | inputFailed _ | lineFailed _ | fileFailed .. => .inputOutput

/-- A procedure's name as messages show it. -/
def ticked (p : Procedure) : Text :=
  "`" ++ p.name ++ "`"

/-- The message about a number of arguments. -/
def arityText (subject : Text) (got : Nat) (want : Text) : Text :=
  subject ++ ". got=" ++ Text.ofNat got ++ ", want=" ++ want

/-- The message of a fault, without its cause. -/
def message : Fault → Text
  | recursionLimit => "recursion limit exceeded"
  | unbound x => "unbound identifier: " ++ x.quoted
  | usedBeforeDefinition x => x.quoted ++ " used before its definition"
  | placeholderEvaluated => "tried evaluating the placeholder bound during a def expression"
  | notEvaluable typeName => "cannot evaluate a " ++ typeName ++ " expression on its own"
  | unknownExpression => "unknown expression <nil>"
  | testNotBoolean typeName => "expected boolean but clause test evaluated as " ++ typeName
  | noPlaceholder x => "unable to find the placeholder binding for def " ++ x.quoted
  | applyOutsideProcedure => "apply called outside of a procedure"
  | noCaller => "Attempted to pop from an empty environment stack"
  | lambdaArity got want =>
    arityText "lambda called with wrong number of arguments" got (Text.ofNat want)
  | notCallable inspected => "not a procedure or lambda: " ++ inspected
  | arity p got want =>
    arityText ("wrong number of arguments to " ++ ticked p) got (Text.ofNat want)
  | arityAtLeast p got want =>
    arityText ("wrong number of arguments to " ++ ticked p) got (Text.ofNat want ++ "+")
  | argumentType p want got => "argument to " ++ ticked p ++ " must be " ++ want ++ ", got " ++ got
  | overflow p a b =>
    "integer overflow in " ++ ticked p ++ " of " ++ Integer.text a ++ " and " ++ Integer.text b
  | divisionByZero p => "division by zero in " ++ ticked p
  | emptyList p => "cannot get " ++ p.name ++ " of an empty list"
  | indexOutOfBounds index s =>
    "index " ++ Integer.text index ++ " out of bounds for string " ++ s.quoted
  | invalidSubstring first last s =>
    "invalid substring indices " ++ Integer.text first ++ " and " ++ Integer.text last ++
      " for string " ++ s.quoted
  | notOneCharacter s => "string " ++ s.quoted ++ " is not 1 character"
  | mapUnavailable => "`map` is not available without an evaluator"
  | failed message => message
  | printFailed _ => "print"
  | inputFailed _ => "reading input"
  | lineFailed _ => "reading a line"
  | fileFailed path _ => "reading the file " ++ path

/-- What outside the program caused a fault. -/
def cause? : Fault → Option Text
  | printFailed cause | inputFailed cause | lineFailed cause | fileFailed _ cause => some cause
  | _ => none

/-- A fault as the failure of a program. -/
def toFailure (f : Fault) : Failure :=
  match f with
  | recursionLimit => .recursionLimit
  | f => .runtime f.kind f.message (f.cause?.map .plain)

end Fault

end BlockLang
