import BlockLang.Computation
import BlockLang.Fault
import BlockLang.Store

/-!
# The state of an evaluation

Besides the store an evaluation keeps the frames from which the running
procedures were called, how deep it is nested, the input that is left, what was
written so far and a log of the frames it made and the frames that lambdas captured.
-/

namespace BlockLang

/-- What is fixed for all evaluations of a program. A fault, where there is one,
is what every write to the output is answered with. -/
structure Settings where
  lexical : Bool
  trace : Bool
  limit : Nat
  canApply : Bool
  outputFault : Option Text
  fileText : Text → Except Text Text

namespace Settings

/-- The depth limit unless another one is set. -/
def defaultLimit : Nat := 100000

/-- The depth limit for a wish: only positive numbers count. -/
def limitFor (wish : Int) : Nat :=
  if wish ≤ 0 then defaultLimit else wish.toNat

end Settings

/-- The input of a program: the text not read yet, and the fault met after it
instead of the end. -/
structure Input where
  pending : Text
  fault : Option Text

/-- A line written by a program or about it. -/
inductive Output where
  | printed (line : Text)
  | traced (line : Text)

/-- The text of a written line. -/
def Output.text : Output → Text
  | printed line | traced line => line ++ "\n"

/-- What happens in an evaluation behind the scenes. -/
inductive Event where
  | frameMade (id outer : FrameId)
  | frameCaptured (x : Text) (id : FrameId)
  | fileMissed (path : Text)

/-- The state of an evaluation. Callers, output and events are kept newest
first. The depth is that of the evaluation which the state was handed to. -/
structure State where
  store : Store
  depth : Nat
  callers : List FrameId
  input : Input
  output : List Output
  events : List Event

namespace State

/-- A state before anything has happened. -/
def initial (input : Input) : State :=
  ⟨Store.empty, 0, [], input, [], []⟩

/-- Everything written so far. -/
def written (s : State) : Text :=
  s.output.reverse.flatMap Output.text

/-- A state without the output and the events so far. -/
def forget (s : State) : State :=
  { s with output := [], events := [] }

/-- A state in which a procedure is running that was called from a frame. -/
def pushCaller (s : State) (env : FrameId) : State :=
  { s with callers := env :: s.callers }

/-- A state after the innermost running procedure, if there is one. -/
def popCaller? (s : State) : Option State :=
  match s.callers with
  | [] => none
  | _ :: callers => some { s with callers }

/-- A state after the innermost running procedure, which must be there. -/
def popCaller (s : State) : Except Fault State :=
  match s.popCaller? with
  | some s => .ok s
  | none => .error .noCaller

theorem popCaller_of_callers {s : State} {env : FrameId} {callers : List FrameId}
    (h : s.callers = env :: callers) : s.popCaller = .ok { s with callers } := by
  rw [popCaller, popCaller?, h]

theorem callers_of_popCaller {s t : State} (h : s.popCaller = .ok t) :
    (∃ env, s.callers = env :: t.callers) ∧ t = { s with callers := t.callers } := by
  cases hcallers : s.callers with
  | nil =>
    rw [popCaller, popCaller?, hcallers] at h
    cases h
  | cons env callers =>
    rw [popCaller_of_callers hcallers] at h
    cases h
    exact ⟨⟨env, rfl⟩, rfl⟩

/-- Applies a change to the store. -/
def mapStore (s : State) (f : Store → Store) : State :=
  { s with store := f s.store }

/-- A new frame inside another one, with its number. -/
def enclose (s : State) (outer : FrameId) : FrameId × State :=
  let (id, store) := s.store.newFrame (some outer)
  (id, { s with store, events := .frameMade id outer :: s.events })

/-- Adds an event. -/
def note (e : Event) (s : State) : State :=
  { s with events := e :: s.events }

/-- Adds a line to the output, unless writing fails. -/
def write (settings : Settings) (line : Output) (s : State) : State :=
  match settings.outputFault with
  | some _ => s
  | none => { s with output := line :: s.output }

end State

/-- What an evaluation asks for: the value of an expression in a frame, or the
application of a function on behalf of the running procedure. -/
inductive Request where
  | eval (e : Node) (env : FrameId)
  | apply (f : Node) (args : List Node)

/-- A part of an evaluation. -/
def Evaluation (β : Type) : Type :=
  State → Computation Request Node Fault State β

namespace Evaluation

variable {β γ : Type}

instance : Monad Evaluation where
  pure b := fun s => .done (.ok b) s
  bind x f := fun s => (x s).andThen f

/-- Ends the evaluation with a fault. -/
def fault (f : Fault) : Evaluation β :=
  fun s => .done (.error f) s

/-- The result of what needs no state, or its fault. -/
def attempt (x : Except Fault β) : Evaluation β :=
  fun s => .done x s

/-- Looks at the state. -/
def read (f : State → β) : Evaluation β :=
  fun s =>
    let b := f s
    .done (.ok b) s

/-- Changes the state. -/
def update (f : State → State) : Evaluation Unit :=
  fun s => .done (.ok ()) (f s)

/-- Changes the state and keeps a result. -/
def change (f : State → β × State) : Evaluation β :=
  fun s =>
    let (b, s) := f s
    .done (.ok b) s

/-- Asks for the value of a request. -/
def request (r : Request) : Evaluation Node :=
  fun s => .ask r s .done

/-- Carries out a part of the evaluation with a frame on the stack of callers. -/
def withCaller (env : FrameId) (x : Evaluation β) : Evaluation β :=
  fun s => (x (s.pushCaller env)).lastly State.popCaller

/-- The outcome of an evaluation that was carried out, with the depth that it has come
back to. -/
def ended : Nat × Except Fault Node × State → Except Fault Node × State
  | (depth, outcome, s) => (outcome, { s with depth })

end Evaluation

end BlockLang
