import BlockLang.Evaluator.State
import BlockLang.Procedure.Compute

/-!
# Evaluation

The rules of evaluation. A block reserves every name that it defines before it
runs, so its definitions can refer to each other. A lambda captures the frame in
which a definition or a let first binds it; under lexical scoping its calls
extend that frame, otherwise the frame of the caller. The depth of nested
evaluations is limited, and so an evaluation always comes to an end.
-/

namespace BlockLang

namespace Evaluator

open Evaluation

/-- Whether a byte belongs to a line end. -/
def isLineEnd (b : UInt8) : Bool :=
  b == 0x0A || b == 0x0D

/-- All lines of a text joined without their line ends. -/
def joinedLines (s : Text) : Text :=
  (s.splitOn 0x0A).flatMap (Text.dropEndWhile isLineEnd)

/-- A text with a line feed at the end of every line and no carriage returns
before it. -/
def endedLines (s : Text) : Text :=
  let parts := s.splitOn 0x0A
  let lines := if parts.getLast? == some [] then parts.dropLast else parts
  lines.flatMap fun line => Text.dropEndWhile (· == 0x0D) line ++ [0x0A]

/-- Reads the rest of the input. -/
def readInput : Evaluation Node := do
  let input ← change fun s => (s.input, { s with input := { s.input with pending := [] } })
  match input.fault with
  | some cause => fault (.inputFailed cause)
  | none => return .string (joinedLines input.pending)

/-- Reads a line of the input. At the end of the input lines are empty. -/
def readLine : Evaluation Node := do
  let input ← change fun s =>
    (s.input,
      { s with input := { s.input with pending := (s.input.pending.dropWhile (· != 0x0A)).drop 1 } })
  let line := input.pending.takeWhile (· != 0x0A)
  match input.fault, input.pending.any (· == 0x0A) with
  | some cause, false => fault (.lineFailed cause)
  | _, _ => return .string (Text.dropEndWhile isLineEnd line)

/-- Writes a line and returns it. -/
def print (settings : Settings) (line : Text) : Evaluation Node := do
  match settings.outputFault with
  | some cause => fault (.printFailed cause)
  | none =>
    update (·.write settings (.printed line))
    return .string line

/-- Makes a list. -/
def newList (elements : List Node) : Evaluation Node :=
  change fun s =>
    let (v, store) := s.store.newList elements
    (v, { s with store })

/-- The results of applying a function to elements one after the other, after
the results `done`, which are kept last first. -/
def applyEach (f : Node) : List Node → List Node → Evaluation (List Node)
  | [], done => return done.reverse
  | v :: vs, done => do
    let result ← request (.apply f [v])
    applyEach f vs (result :: done)

/-- Applies a function to every element of a list. -/
def map (settings : Settings) (wired : Bool) (args : List Node) : Evaluation Node := do
  let (f, elements) ← attempt (Procedure.functionAndList .map args)
  if wired && settings.canApply then newList (← applyEach f elements [])
  else fault .mapUnavailable

/-- Carries out a procedure. A procedure that is not wired to the program writes
nowhere and has an empty input. -/
def callProcedure (settings : Settings) (p : Procedure) (wired : Bool) (args : List Node) :
    Evaluation Node := do
  match p.compute? args with
  | some result =>
    match ← attempt result with
    | .value v => return v
    | .newList elements => newList elements
  | none =>
    match p with
    | .print =>
      let line := Procedure.display args
      if wired then print settings line else return .string line
    | .readInput =>
      let _ ← attempt (Procedure.exactly p args 0)
      if wired then readInput else return .string []
    | .readLine =>
      let _ ← attempt (Procedure.exactly p args 0)
      if wired then readLine else return .string []
    | .readFile =>
      let path ← attempt (Procedure.oneString p args)
      match settings.fileText path with
      | .error cause => do
        update (·.note (.fileMissed path))
        fault (.fileFailed path cause)
      | .ok content => return .string (endedLines content)
    | _ => map settings wired args

/-- Binds parameters to arguments in a frame. -/
def bindParameters (id : FrameId) : List (Text × Node) → Store → Store
  | [], s => s
  | (x, v) :: rest, s => bindParameters id rest (s.define id x v)

/-- The frame that a call of a lambda extends. -/
def parentFrame (settings : Settings) (label : Label) (caller : FrameId) (s : State) : FrameId :=
  if settings.lexical then (s.store.captured? label).getD caller else caller

/-- Applies a function to arguments from a frame. -/
def applyFrom (settings : Settings) (f : Node) (args : List Node) (caller : FrameId) :
    Evaluation Node := do
  match f with
  | .procedure _ name wired =>
    match Procedure.ofName? name with
    | some p => withCaller caller (callProcedure settings p wired args)
    | none => fault (.notCallable f.inspect)
  | .lambda label xs body =>
    if args.length = xs.length then
      let parent ← read (parentFrame settings label caller)
      let env ← change (·.enclose parent)
      update (·.mapStore (bindParameters env (xs.zip args)))
      request (.eval (.block label body) env)
    else fault (.lambdaArity args.length xs.length)
  | v => fault (.notCallable v.inspect)

/-- Captures a frame if a value is a lambda that has captured none yet. -/
def capture (settings : Settings) (x : Text) (v : Node) (env : FrameId) (s : State) : State :=
  match v with
  | .lambda label _ _ =>
    if settings.lexical && (s.store.captured? label).isNone then
      { s with store := s.store.capture label env, events := .frameCaptured x env :: s.events }
    else s
  | _ => s

/-- Reserves the names that the statements of a block define. -/
def declareAll (id : FrameId) : List Node → Store → Store
  | [], s => s
  | .define _ x _ :: es, s => declareAll id es (s.declare id x)
  | _ :: es, s => declareAll id es s

/-- The value of the last statement, or `v` if there is none. -/
def statements (env : FrameId) : List Node → Node → Evaluation Node
  | [], v => return v
  | e :: es, _ => do
    let v ← request (.eval e env)
    statements env es v

/-- The result of the first clause whose test holds, or false. -/
def clauses (env : FrameId) : List (Node × Node) → Evaluation Node
  | [] => return .boolean false
  | (test, result) :: rest => do
    match ← request (.eval test env) with
    | .boolean true => request (.eval result env)
    | .boolean false => clauses env rest
    | v => fault (.testNotBoolean v.typeName)

/-- The values of operands from left to right, after the values `done`, which
are kept last first. -/
def operands (env : FrameId) : List Node → List Node → Evaluation (List Node)
  | [], done => return done.reverse
  | e :: es, done => do
    let v ← request (.eval e env)
    operands env es (v :: done)

/-- The value of an identifier in a frame. -/
def identifier (x : Text) (env : FrameId) : Evaluation Node := do
  match ← read (·.store.get? env x) with
  | none => fault (.unbound x)
  | some .placeholder => fault (.usedBeforeDefinition x)
  | some v => return v

/-- Fills the nearest placeholder of a name. -/
def fillPlaceholder (settings : Settings) (x : Text) (v : Node) (env : FrameId) :
    Evaluation Node := do
  match ← read (·.store.findPlaceholder? env x) with
  | none => fault (.noPlaceholder x)
  | some target =>
    update fun s => (capture settings x v target s).mapStore (·.define target x v)
    return v

/-- Changes the nearest binding of a name. -/
def assign (x : Text) (v : Node) (env : FrameId) : Evaluation Node := do
  match ← read (·.store.findBinding? env x) with
  | none => fault (.unbound x)
  | some target =>
    update (·.mapStore (·.define target x v))
    return v

/-- The value of an expression in a frame. -/
def evaluate (settings : Settings) (e : Node) (env : FrameId) : Evaluation Node := do
  match e with
  | .integer _ | .string _ | .boolean _ | .lambda .. | .procedure .. | .list .. => return e
  | .identifier x => identifier x env
  | .block _ es =>
    let inner ← change (·.enclose env)
    update (·.mapStore (declareAll inner es))
    statements inner es (.boolean false)
  | .cond _ cs => clauses env cs
  | .letIn label x value body =>
    let v ← request (.eval value env)
    let inner ← change (·.enclose env)
    update fun s => capture settings x v inner (s.mapStore (·.define inner x v))
    request (.eval (.block label body) inner)
  | .define _ x value =>
    let v ← request (.eval value env)
    fillPlaceholder settings x v env
  | .assign _ x value =>
    let v ← request (.eval value env)
    assign x v env
  | .apply _ operator es =>
    let f ← request (.eval operator env)
    let args ← operands env es []
    applyFrom settings f args env
  | .placeholder => fault .placeholderEvaluated
  | .parameters .. | .clause .. => fault (.notEvaluable e.typeName)
  | .absent => fault .unknownExpression

/-- The line that tells which expression is evaluated. -/
def traceLine (e : Node) : Text :=
  "Evaluating " ++ e.typeName ++ " expression: " ++ e.inspect

/-- What a request stands for. -/
def body (settings : Settings) : Request → Evaluation Node
  | .eval e env => do
    if settings.trace then update (·.write settings (.traced (traceLine e)))
    evaluate settings e env
  | .apply f args => do
    match ← read (·.callers.head?) with
    | none => fault .applyOutsideProcedure
    | some env => applyFrom settings f args env

/-- The rules of evaluation. -/
def rules (settings : Settings) : Rules Request Node Fault State :=
  ⟨body settings, .recursionLimit⟩

/-- Evaluates an expression in a frame. -/
def eval (settings : Settings) (e : Node) (env : FrameId) (s : State) :
    Except Fault Node × State :=
  ended ((rules settings).run settings.limit s.depth (.eval e env) s)

/-- Applies a function on behalf of the running procedure. -/
def apply (settings : Settings) (f : Node) (args : List Node) (s : State) :
    Except Fault Node × State :=
  ended ((rules settings).run settings.limit s.depth (.apply f args) s)

end Evaluator

end BlockLang
