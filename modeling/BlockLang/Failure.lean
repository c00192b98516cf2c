import BlockLang.Token
import BlockLang.Text.Blank
import BlockLang.Text.Excerpt

/-!
# Failures

Everything that can stop a program on its way from source to value is a failure:
a violation of the grammar, a tree that cannot be prepared for evaluation, the
depth limit, and the faults of evaluation proper, each of which has a kind. A
failure may name another one as its cause. `Failure.classify` names the stage a
failure came from and `Failure.report` shows it to a reader of a terminal.
-/

namespace BlockLang

/-- The kind of a fault of evaluation. Numbers outside the listed kinds are
kinds of their own. -/
inductive ErrorKind where
  | internal
  | unboundIdentifier
  | usedBeforeDefinition
  | wrongArity
  | notCallable
  | typeMismatch
  | arithmeticOverflow
  | divisionByZero
  | invalidArgument
  | userFailure
  | inputOutput
  | other (code : Int)
  deriving DecidableEq

namespace ErrorKind

/-- The kinds of the language, by their number. -/
def all : List ErrorKind :=
  [internal, unboundIdentifier, usedBeforeDefinition, wrongArity, notCallable, typeMismatch,
   arithmeticOverflow, divisionByZero, invalidArgument, userFailure, inputOutput]

/-- The kind with a given number. -/
def ofCode (code : Int) : ErrorKind :=
  if code < 0 then other code else all.getD code.toNat (other code)

/-- The name of a kind. -/
def name : ErrorKind → Text
  | unboundIdentifier => "UnboundIdentifier"
  | usedBeforeDefinition => "UsedBeforeDefinition"
  | wrongArity => "WrongArity"
  | notCallable => "NotCallable"
  | typeMismatch => "TypeMismatch"
  | arithmeticOverflow => "ArithmeticOverflow"
  | divisionByZero => "DivisionByZero"
  | invalidArgument => "InvalidArgument"
  | userFailure => "UserFailure"
  | inputOutput => "IOFailure"
  | internal | other _ => "Internal"

end ErrorKind

/-- The first violation of the grammar in a source. It is incomplete if the
source ended too early, so that more source could mend it. -/
structure SyntaxError where
  message : Text
  line : Int
  token : Token
  incomplete : Bool
  deriving DecidableEq

/-- The violation as one line. -/
def SyntaxError.text (e : SyntaxError) : Text :=
  if e.incomplete then e.message
  else "line " ++ Text.ofInt e.line ++ ": " ++ e.message

/-- Why a program has no value. -/
inductive Failure where
  | parse (e : SyntaxError)
  | shape (message inspected : Text)
  | recursionLimit
  | runtime (kind : ErrorKind) (message : Text) (cause : Option Failure)
  | plain (message : Text)
  | wrapped (message : Text) (cause : Failure)

instance : Inhabited Failure := ⟨.recursionLimit⟩

namespace Failure

/-- A failure as one line, causes last. -/
def text : Failure → Text
  | parse e => e.text
  | shape message inspected => "desugar: " ++ message ++ ": " ++ inspected
  | recursionLimit => "recursion limit exceeded"
  | runtime kind message none => kind.name ++ ": " ++ message
  | runtime kind message (some cause) => kind.name ++ ": " ++ message ++ ": " ++ text cause
  | plain message => message
  | wrapped message cause => message ++ ": " ++ text cause

/-- A failure and its causes, outermost first. -/
def chain : Failure → List Failure
  | parse e => [parse e]
  | shape message inspected => [shape message inspected]
  | recursionLimit => [recursionLimit]
  | runtime kind message none => [runtime kind message none]
  | runtime kind message (some cause) => runtime kind message (some cause) :: chain cause
  | plain message => [plain message]
  | wrapped message cause => wrapped message cause :: chain cause

/-- The violation of the grammar behind a failure. -/
def syntaxError? (f : Failure) : Option SyntaxError :=
  f.chain.findSome? fun
    | parse e => some e
    | _ => none

/-- Whether the depth limit is behind a failure. -/
def isRecursionLimit (f : Failure) : Bool :=
  f.chain.any fun
    | recursionLimit => true
    | _ => false

/-- Whether a misshapen tree is behind a failure. -/
def isShape (f : Failure) : Bool :=
  f.chain.any fun
    | shape .. => true
    | _ => false

/-- The kind of the outermost fault of evaluation. -/
def kind? (f : Failure) : Option ErrorKind :=
  f.chain.findSome? fun
    | runtime kind .. => some kind
    | _ => none

/-- Whether the outermost fault of evaluation has a given kind. -/
def isKind (f : Failure) (kind : ErrorKind) : Bool :=
  f.kind? == some kind

/-- Whether more source could mend a failure. -/
def isIncomplete (f : Failure) : Bool :=
  f.syntaxError?.any (·.incomplete)

/-- The stage a failure came from, or the kind of a fault of evaluation. -/
def classify (f : Failure) : Text :=
  if f.syntaxError?.isSome then "parse"
  else if f.isShape then "desugar"
  else if f.isRecursionLimit then "recursion"
  else
    match f.kind? with
    | some .internal | none => "internal"
    | some kind => kind.name

/-- What a reader is told when the depth limit was met. -/
def overflowReport : Text :=
  "Stack overflow error. Is there infinite recursion in your program?"

/-- A violation of the grammar with the place in the source where it was met. -/
def syntaxReport (source : Text) (e : SyntaxError) : Text :=
  if e.incomplete then "Parse error: " ++ e.text
  else
    let message : Text := "Parse error on " ++ e.text
    if e.token.length == 0 then message
    else
      let place := Place.ofPosition source e.token.position
      let context := excerpt source place.line place.column
      if context.isEmpty then message else message ++ "\n" ++ context

/-- A failure as it is shown to a reader of a terminal. -/
def report (source : Text) (f : Failure) : Text :=
  if f.isRecursionLimit then overflowReport
  else
    match f.syntaxError? with
    | some e => syntaxReport source e
    | none =>
      if f.isShape then "Desugar error: " ++ f.text
      else
        match f.kind? with
        | none => "Internal error: " ++ f.text
        | some .internal => f.text
        | some _ => "Runtime error: " ++ Text.trim f.text

end Failure

end BlockLang
