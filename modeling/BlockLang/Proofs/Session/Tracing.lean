import Mathlib.Data.List.Forall2
import BlockLang.Proofs.Evaluation.Depth

/-!
# Tracing is an observation

A session may tell which expressions it evaluates. The lines it writes about them
are the only difference that this makes. Two sessions that are given the same
sources, one with tracing and one without, come to the same outcomes, print the
same, read as much of the input and bind the same names to the same values.
-/

namespace BlockLang

/-- Settings with tracing on or off. -/
def Settings.withTrace (settings : Settings) (trace : Bool) : Settings :=
  { settings with trace }

namespace State

/-- What programs have printed so far. -/
def printed (s : State) : Text :=
  s.output.reverse.flatMap fun
    | .printed line => line ++ "\n"
    | .traced _ => []

theorem printed_eq
    (s : State) :
    s.printed = s.untraced.written := by
  rw [printed, written, untraced, ← List.filter_reverse]
  induction s.output.reverse with
  | nil => rfl
  | cons line lines ih =>
      cases line with
      | printed text => exact congrArg ((text ++ "\n") ++ ·) ih
      | traced text => exact ih

end State

/-! ## Evaluations -/

namespace Evaluation

/-- What is evaluated without trace lines comes to the same as with them, if this is
so for the requests it makes. -/
theorem Assembled.answer_untraced
    {β : Type} {R : Store → Store → Prop} {x : Evaluation β}
    {traced plain : Request → State → Except Fault Node × State} (hx : Assembled R x)
    (htraced : ∀ r (s : State), s.Balanced (traced r s).2)
    (h : ∀ r s, plain r s.untraced = ((traced r s).1, (traced r s).2.untraced)) (s : State) :
    (x s.untraced).answer plain =
      (((x s).answer traced).1, ((x s).answer traced).2.untraced) := by
  induction hx generalizing s with
  | fault f => rfl
  | @change _ f hf _ =>
      have hstep := hf.untraced s
      have hplain : (Evaluation.change f s.untraced).answer plain =
          (.ok (f s.untraced).1, (f s.untraced).2) := rfl
      rw [hplain, hstep]
      rfl
  | request r => exact h r s
  | @bind _ _ x g _ _ ihx ihg =>
      rw [answer_bind, answer_bind, ihx s]
      rcases (x s).answer traced with ⟨e | b, t⟩
      · rfl
      · exact ihg b t
  | @withCaller _ x env hx ih =>
      have hpushed : (x (s.untraced.pushCaller env)).answer plain =
          (((x (s.pushCaller env)).answer traced).1,
            ((x (s.pushCaller env)).answer traced).2.untraced) := ih (s.pushCaller env)
      have hbalanced := hx.balanced_answer htraced (s.pushCaller env)
      have hplain : (s.untraced.pushCaller env).Balanced
          ((x (s.untraced.pushCaller env)).answer plain).2 := by
        rw [hpushed]
        exact ⟨hbalanced.callers, hbalanced.depth⟩
      rw [answer_withCaller hplain, answer_withCaller hbalanced, hpushed]
      rfl

end Evaluation

namespace Evaluator

theorem perform_untraced
    (settings : Settings) (limit : Nat) (r : Request) (s : State) :
    (rules (settings.withTrace false)).perform limit r s.untraced =
      (((rules settings).perform limit r s).1,
        ((rules settings).perform limit r s).2.untraced) := by
  induction limit generalizing r s with
  | zero => rfl
  | succ limit ih =>
      have hcarryOut : carryOut (settings.withTrace false) r = carryOut settings r := by
        cases r <;> rfl
      have hannounce : announce (settings.withTrace false) r s.untraced =
          (announce settings r s).untraced := by
        rw [untraced_announce]
        cases r <;> rfl
      rw [perform_succ, perform_succ, hcarryOut, hannounce]
      exact (freely_carryOut settings r).answer_untraced (balanced_perform settings limit) ih _

theorem eval_untraced
    (settings : Settings) (e : Node) (env : FrameId) (s : State) :
    eval (settings.withTrace false) e env s.untraced =
      ((eval settings e env s).1, (eval settings e env s).2.untraced) := by
  rw [eval_eq_perform, eval_eq_perform]
  exact perform_untraced settings (settings.limit - s.depth) _ s

end Evaluator

/-! ## Sessions -/

namespace Session

/-- The session as it would be without tracing. -/
def untraced (s : Session) : Session :=
  ⟨s.settings.withTrace false, s.frame, s.state.untraced⟩

theorem evalTop_untraced
    (settings : Settings) (frame : FrameId) (e : Node) (s : State) :
    evalTop (settings.withTrace false) frame e s.untraced =
      ((evalTop settings frame e s).1, (evalTop settings frame e s).2.untraced) := by
  cases e
  case define i x value =>
    have hreserve : s.untraced.mapStore (·.declare frame x) =
        (s.mapStore (·.declare frame x)).untraced := rfl
    have heval := Evaluator.eval_untraced settings (.define i x value) frame
      (s.mapStore (·.declare frame x))
    rw [evalTop, evalTop, hreserve, heval]
    rcases Evaluator.eval settings (.define i x value) frame
      (s.mapStore (·.declare frame x)) with ⟨f | v, t⟩ <;> rfl
  all_goals exact Evaluator.eval_untraced settings _ frame s

/-- A source comes to the same without tracing. -/
theorem eval_untraced
    (s : Session) (source : Text) :
    s.untraced.eval source = ((s.eval source).1, (s.eval source).2.untraced) := by
  unfold Session.eval
  cases compile source with
  | error f => rfl
  | ok e =>
      have htop : evalTop (s.settings.withTrace false) s.frame
          (loadTree s.state.untraced e).1 (loadTree s.state.untraced e).2 = _ :=
        evalTop_untraced s.settings s.frame (loadTree s.state e).1 (loadTree s.state e).2
      dsimp only [untraced]
      rw [htop]

theorem evalEach_untraced
    (s : Session) (sources : List Text) :
    s.untraced.evalEach sources =
      (s.evalEach sources).map fun step => (step.1, step.2.untraced) := by
  induction sources generalizing s with
  | nil => rfl
  | cons source sources ih =>
      have hnext := ih (s.eval source).2
      rw [evalEach, evalEach, eval_untraced, hnext]
      rfl

/-- A session and one that does not trace agree on all that a program can observe:
what is printed, what is left to read, and what each name is bound to. -/
structure ObservedAs (s plain : Session) : Prop where
  printed : s.state.printed = plain.state.written
  input : s.state.input = plain.state.input
  names : s.names = plain.names
  bindings : ∀ x, s.state.store.get? s.frame x = plain.state.store.get? plain.frame x
  store : s.state.store = plain.state.store

theorem observedAs_untraced
    (s : Session) :
    s.ObservedAs s.untraced := by
  refine ⟨s.state.printed_eq, rfl, rfl, fun x => rfl, rfl⟩

/-- Tracing changes nothing but the trace. A session that traces and one that does
not, given the same sources, come to the same outcome for each of them, and after
each of them they have printed and read the same and have the same bindings. -/
theorem evalEach_withTrace
    (settings : Settings) (input : Input) (sources : List Text) :
    List.Forall₂ (fun traced plain => traced.1 = plain.1 ∧ traced.2.ObservedAs plain.2)
      ((start (settings.withTrace true) input).evalEach sources)
      ((start (settings.withTrace false) input).evalEach sources) := by
  have hstart : start (settings.withTrace false) input =
      (start (settings.withTrace true) input).untraced := rfl
  rw [hstart, evalEach_untraced, List.forall₂_map_right_iff, List.forall₂_same]
  intro step hstep
  exact ⟨rfl, observedAs_untraced step.2⟩

end Session

end BlockLang
