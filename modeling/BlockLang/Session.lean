import BlockLang.Expr.Labels
import BlockLang.Expr.Lifting
import BlockLang.Library
import BlockLang.Record

/-!
# Sessions

A session evaluates one source after the other in a frame that it keeps, so that
a definition at the top of one source is seen by the next. A definition that
fails leaves the binding of its name as it was.
-/

namespace BlockLang

/-- A session: its settings, the frame it keeps and the state so far. -/
structure Session where
  settings : Settings
  frame : FrameId
  state : State

namespace Session

/-- A session in which nothing has been evaluated. -/
def start (settings : Settings) (input : Input) : Session :=
  let (library, state) := Library.load (State.initial input)
  let (frame, state) := state.enclose library
  ⟨settings, frame, state⟩

/-- The names that the session has defined, in byte order. -/
def names (s : Session) : List Text :=
  s.state.store.names s.frame

/-- What happened in the session and has not been forgotten, oldest first. -/
def events (s : Session) : List Event :=
  s.state.events.reverse

/-- The paths of files that could not be read, oldest first. -/
def missedFiles (s : Session) : List Text :=
  s.events.filterMap fun
    | .fileMissed path => some path
    | _ => none

/-- A session without its output and the events so far. -/
def forget (s : Session) : Session :=
  { s with state := s.state.forget }

/-- A state with a tree whose nodes are new. -/
def loadTree {ι : Type} (s : State) (e : Expr ι) : Node × State :=
  let (node, next) := e.labelled s.store.nextLabel
  (node, s.mapStore fun store => { store with nextLabel := next })

/-- Undoes the reservation of a name whose definition failed. -/
def restore (frame : FrameId) (x : Text) (before : Option Node) (store : Store) : Store :=
  match before with
  | some v => store.define frame x v
  | none => store.erase frame x

/-- Evaluates a program in a frame. A definition reserves its name there first
and gives it back if it fails. -/
def evalTop (settings : Settings) (frame : FrameId) (e : Node) (s : State) :
    Except Fault Node × State :=
  match e with
  | .define _ x _ =>
    let before := s.store.getLocal? frame x
    match Evaluator.eval settings e frame (s.mapStore (·.declare frame x)) with
    | (.ok v, s) => (.ok v, s)
    | (.error f, s) => (.error f, s.mapStore (restore frame x before))
  | _ => Evaluator.eval settings e frame s

/-- Evaluates a source. -/
def eval (s : Session) (source : Text) : Except Failure Node × Session :=
  match compile source with
  | .error f => (.error f, s)
  | .ok e =>
    let (node, state) := loadTree s.state e
    let (outcome, state) := evalTop s.settings s.frame node state
    (outcome.mapError Fault.toFailure, { s with state })

/-- Evaluates a source and tells what is to be remembered of it. -/
def evalRecorded (s : Session) (source : Text) : Except Failure Node × Record × Session :=
  let (outcome, s) := s.eval source
  (outcome, Record.ofOutcome s.settings.lexical s.settings.trace source outcome, s)

end Session

/-- The outcome of a source in a session of its own. -/
def runProgram (settings : Settings) (input : Input) (source : Text) :
    Except Failure Node × Session :=
  (Session.start settings input).eval source

end BlockLang
