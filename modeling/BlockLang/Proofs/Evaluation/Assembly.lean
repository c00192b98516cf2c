import BlockLang.Evaluator
import BlockLang.Proofs.Calls
import BlockLang.Proofs.Evaluation.States

/-!
# How evaluation is put together

Every part of an evaluation consists of a few things only: it stops with a fault,
makes a step, asks for something, does one thing after the other, or puts a caller
on the stack for a while. Steps leave the callers and the depth alone, have no eyes for
trace lines and never replace the frame that a lambda has captured. `freely_carryOut`
says so for all requests, and what holds of all evaluations follows by induction over
the way they are put together, without another look at the rules.
-/

namespace BlockLang

/-! ## Answers -/

namespace Computation

variable {ρ ν ε σ β γ : Type}

/-- Goes on with an answer, unless it is a fault. -/
def onward (f : β → σ → Except ε γ × σ) : Except ε β × σ → Except ε γ × σ
  | (.ok b, s) => f b s
  | (.error e, s) => (.error e, s)

theorem onward_of_error
    {f : β → σ → Except ε γ × σ} {p : Except ε β × σ} {e : ε} (h : p.1 = .error e) :
    (onward f p).1 = .error e := by
  obtain ⟨outcome, s⟩ := p
  cases h
  rfl

theorem answer_andThen
    (oracle : ρ → σ → Except ε ν × σ) (f : β → σ → Computation ρ ν ε σ γ)
    (c : Computation ρ ν ε σ β) :
    (c.andThen f).answer oracle =
      onward (fun b s => (f b s).answer oracle) (c.answer oracle) := by
  induction c with
  | done outcome s => cases outcome <;> rfl
  | ask r s resume ih => exact ih _ _

theorem answer_lastly
    (oracle : ρ → σ → Except ε ν × σ) (f : σ → Except ε σ) (c : Computation ρ ν ε σ β) :
    (c.lastly f).answer oracle = finish f (c.answer oracle).1 (c.answer oracle).2 := by
  induction c with
  | done outcome s => rfl
  | ask r s resume ih => exact ih _ _

end Computation

/-! ## Steps -/

/-- Whether a program has written a line itself. -/
def Output.isPrinted : Output → Bool
  | printed _ => true
  | traced _ => false

namespace Store

/-- Lambdas have captured the same frames in two stores. -/
def SameCaptures (s t : Store) : Prop :=
  t.captures = s.captures

/-- The frames captured in the first store are captured in the second one too. -/
def KeepsCaptures (s t : Store) : Prop :=
  ∀ label id, s.captured? label = some id → t.captured? label = some id

theorem SameCaptures.keeps
    {s t : Store} (h : s.SameCaptures t) :
    s.KeepsCaptures t := by
  intro label id hid
  rw [captured?_of_captures_eq h]
  exact hid

theorem SameCaptures.refl
    (s : Store) :
    s.SameCaptures s :=
  rfl

theorem SameCaptures.trans
    {s t u : Store} (hst : s.SameCaptures t) (htu : t.SameCaptures u) :
    s.SameCaptures u :=
  Eq.trans htu hst

theorem KeepsCaptures.refl
    (s : Store) :
    s.KeepsCaptures s :=
  fun _ _ hid => hid

theorem KeepsCaptures.trans
    {s t u : Store} (hst : s.KeepsCaptures t) (htu : t.KeepsCaptures u) :
    s.KeepsCaptures u :=
  fun label id hid => htu label id (hst label id hid)

end Store

namespace State

/-- The second state has the callers and the depth of the first one. -/
structure Balanced (s t : State) : Prop where
  callers : t.callers = s.callers
  depth : t.depth = s.depth

theorem Balanced.trans
    {s t u : State} (hst : s.Balanced t) (htu : t.Balanced u) :
    s.Balanced u :=
  ⟨htu.callers.trans hst.callers, htu.depth.trans hst.depth⟩

/-- A state without the trace lines in its output. -/
def untraced (s : State) : State :=
  { s with output := s.output.filter Output.isPrinted }

theorem untraced_write_printed
    (settings : Settings) (line : Text) (s : State) :
    (s.write settings (.printed line)).untraced = s.untraced.write settings (.printed line) := by
  unfold write
  split <;> rfl

theorem untraced_write_traced
    (settings : Settings) (line : Text) (s : State) :
    (s.write settings (.traced line)).untraced = s.untraced := by
  unfold write
  split <;> rfl

end State

namespace Evaluation

variable {β γ : Type}

theorem answer_bind
    (oracle : Request → State → Except Fault Node × State) (x : Evaluation β)
    (f : β → Evaluation γ) (s : State) :
    ((x >>= f) s).answer oracle =
      Computation.onward (fun b t => (f b t).answer oracle) ((x s).answer oracle) :=
  Computation.answer_andThen oracle f (x s)

/-- If the callers are left as they were found, the one on top is taken off again. -/
theorem answer_withCaller
    {oracle : Request → State → Except Fault Node × State} {env : FrameId} {x : Evaluation β}
    {s : State} (h : (s.pushCaller env).Balanced ((x (s.pushCaller env)).answer oracle).2) :
    ((withCaller env x) s).answer oracle =
      (((x (s.pushCaller env)).answer oracle).1,
        { ((x (s.pushCaller env)).answer oracle).2 with callers := s.callers }) := by
  rw [withCaller, Computation.answer_lastly, Computation.finish,
    State.popCaller_of_callers h.callers]

/-- A step of an evaluation leaves the callers and the depth alone. Neither its result
nor what it does depends on trace lines. -/
structure IsStep (f : State → β × State) : Prop where
  balanced : ∀ s : State, s.Balanced (f s).2
  untraced : ∀ s : State, f s.untraced = ((f s).1, (f s).2.untraced)

/-- A part of an evaluation that is put together from steps which change the store as
`R` admits. Panics are not among the faults it stops with. -/
inductive Assembled (R : Store → Store → Prop) : ∀ {β : Type}, Evaluation β → Prop where
  | fault {β : Type} {f : Fault} (hf : f.isPanic = false) : Assembled R (fault f : Evaluation β)
  | change {β : Type} {f : State → β × State} (hf : IsStep f)
      (hR : ∀ s, R s.store (f s).2.store) : Assembled R (change f)
  | request (r : Request) : Assembled R (request r)
  | bind {β γ : Type} {x : Evaluation β} {f : β → Evaluation γ} (hx : Assembled R x)
      (hf : ∀ b, Assembled R (f b)) : Assembled R (x >>= f)
  | withCaller {β : Type} {x : Evaluation β} (env : FrameId) (hx : Assembled R x) :
      Assembled R (withCaller env x)

variable {R R' : Store → Store → Prop}

theorem Assembled.mono
    {x : Evaluation β} (hx : Assembled R x) (h : ∀ s t, R s t → R' s t) :
    Assembled R' x := by
  induction hx with
  | fault hf => exact .fault hf
  | change hf hR => exact .change hf fun s => h _ _ (hR s)
  | request r => exact .request r
  | bind _ _ ihx ihf => exact .bind ihx ihf
  | withCaller env _ ih => exact .withCaller env ih

/-- If requests leave the callers and the depth as they were, so does every part. -/
theorem Assembled.balanced_answer
    {x : Evaluation β} {oracle : Request → State → Except Fault Node × State}
    (hx : Assembled R x) (horacle : ∀ r (s : State), s.Balanced (oracle r s).2) (s : State) :
    s.Balanced ((x s).answer oracle).2 := by
  induction hx generalizing s with
  | fault _ => exact ⟨rfl, rfl⟩
  | change hf _ => exact hf.balanced s
  | request r => exact horacle r s
  | @bind _ _ x g _ _ ihx ihg =>
      have hfirst := ihx s
      rw [answer_bind]
      rcases hanswer : (x s).answer oracle with ⟨e | b, t⟩
      · rw [hanswer] at hfirst
        exact hfirst
      · rw [hanswer] at hfirst
        exact hfirst.trans (ihg b t)
  | withCaller env _ ih =>
      rw [answer_withCaller (ih (s.pushCaller env))]
      exact ⟨rfl, (ih (s.pushCaller env)).depth⟩

/-- If requests leave the callers as they were and do not panic, no part panics: the
caller that it takes off is there. -/
theorem Assembled.answer_not_panic
    {x : Evaluation β} {oracle : Request → State → Except Fault Node × State}
    (hx : Assembled R x) (horacle : ∀ r (s : State), s.Balanced (oracle r s).2)
    (hpanic : ∀ r s f, (oracle r s).1 = .error f → f.isPanic = false) (s : State) (f : Fault)
    (hf : ((x s).answer oracle).1 = .error f) : f.isPanic = false := by
  induction hx generalizing s with
  | fault hown =>
      cases hf
      exact hown
  | change _ _ => cases hf
  | request r => exact hpanic r s f hf
  | @bind _ _ x g _ _ ihx ihg =>
      rw [answer_bind] at hf
      rcases hanswer : (x s).answer oracle with ⟨e | b, t⟩
      · rw [hanswer] at hf
        cases hf
        exact ihx s (by rw [hanswer])
      · rw [hanswer] at hf
        exact ihg b t hf
  | withCaller env hx ih =>
      rw [answer_withCaller (hx.balanced_answer horacle _)] at hf
      exact ih (s.pushCaller env) hf

end Evaluation

/-! ## Quiet parts -/

namespace Evaluator

open Evaluation

/-- A part of an evaluation in which nothing is captured. -/
abbrev Quietly {β : Type} (x : Evaluation β) : Prop :=
  Assembled Store.SameCaptures x

variable {β γ : Type} {settings : Settings}

theorem quietly_pure
    (b : β) :
    Quietly (pure b) :=
  .change (f := fun s => (b, s)) ⟨fun _ => ⟨rfl, rfl⟩, fun _ => rfl⟩ fun _ => rfl

theorem quietly_attempt_bind
    {P : β → Prop} {r : Except Fault β} {x : β → Evaluation γ} (hr : Procedure.Gives P r)
    (hx : ∀ b, Quietly (x b)) :
    Quietly (attempt r >>= x) := by
  cases r with
  | error f => exact .fault (Fault.not_panic_of_ofArguments (hr.fault f rfl))
  | ok b => exact hx b

theorem quietly_read_bind
    {f : State → β} {x : β → Evaluation γ} (hf : ∀ s : State, f s.untraced = f s)
    (hx : ∀ b, Quietly (x b)) :
    Quietly (read f >>= x) := by
  refine .bind (.change (f := fun s => (f s, s)) ⟨fun _ => ⟨rfl, rfl⟩, fun s => ?_⟩ fun _ => rfl) hx
  rw [hf]

theorem quietly_update_bind
    {f : State → State} {x : Evaluation γ}
    (hf : IsStep fun s => ((), f s)) (hR : ∀ s : State, s.store.SameCaptures (f s).store)
    (hx : Quietly x) :
    Quietly (update f >>= fun _ => x) :=
  .bind (.change (f := fun s => ((), f s)) hf hR) fun _ => hx

theorem quietly_newList
    (elements : List Node) :
    Quietly (newList elements) :=
  .change ⟨fun _ => ⟨rfl, rfl⟩, fun _ => rfl⟩ fun _ => rfl

theorem quietly_readInput :
    Quietly readInput := by
  refine .bind (.change ⟨fun _ => ⟨rfl, rfl⟩, fun _ => rfl⟩ fun _ => rfl) fun input => ?_
  split
  · exact .fault rfl
  · exact quietly_pure _

theorem quietly_readLine :
    Quietly readLine := by
  refine .bind (.change ⟨fun _ => ⟨rfl, rfl⟩, fun _ => rfl⟩ fun _ => rfl) fun input => ?_
  dsimp only
  split
  · exact .fault rfl
  · exact quietly_pure _

theorem isStep_write
    (settings : Settings) (line : Text) :
    IsStep fun s => ((), s.write settings (.printed line)) := by
  refine ⟨fun s => ?_, fun s => ?_⟩
  · dsimp only [State.write]
    split <;> exact ⟨rfl, rfl⟩
  · rw [State.untraced_write_printed]

theorem sameCaptures_write
    (settings : Settings) (line : Output) (s : State) :
    s.store.SameCaptures (s.write settings line).store := by
  unfold State.write
  split <;> rfl

theorem quietly_print
    (settings : Settings) (line : Text) :
    Quietly (print settings line) := by
  unfold print
  split
  · exact .fault rfl
  · exact quietly_update_bind (isStep_write settings line) (sameCaptures_write settings _)
      (quietly_pure _)

theorem quietly_applyEach
    (f : Node) (vs done : List Node) :
    Quietly (applyEach f vs done) := by
  induction vs generalizing done with
  | nil => exact quietly_pure _
  | cons v vs ih => exact .bind (.request _) fun result => ih _

theorem quietly_map
    (settings : Settings) (wired : Bool) (args : List Node) :
    Quietly (map settings wired args) := by
  have hread := Procedure.gives_functionAndList .map args hereditary_true fun _ _ => trivial
  refine quietly_attempt_bind hread fun x => ?_
  dsimp only
  split
  · exact .bind (quietly_applyEach _ _ _) fun results => quietly_newList _
  · exact .fault rfl

theorem quietly_callProcedure
    (settings : Settings) (p : Procedure) (wired : Bool) (args : List Node) :
    Quietly (callProcedure settings p wired args) := by
  unfold callProcedure
  split
  · rename_i result hcompute
    have hgives := Procedure.gives_compute hereditary_true (fun _ _ => trivial) hcompute
    refine quietly_attempt_bind hgives fun answer => ?_
    cases answer with
    | value v => exact quietly_pure v
    | newList elements => exact quietly_newList elements
  · split
    · dsimp only
      split
      · exact quietly_print _ _
      · exact quietly_pure _
    · refine quietly_attempt_bind (Procedure.gives_exactly _ _ (fun _ _ => trivial) 0) fun _ => ?_
      split
      · exact quietly_readInput
      · exact quietly_pure _
    · refine quietly_attempt_bind (Procedure.gives_exactly _ _ (fun _ _ => trivial) 0) fun _ => ?_
      split
      · exact quietly_readLine
      · exact quietly_pure _
    · refine quietly_attempt_bind (Procedure.gives_oneString _ _) fun path => ?_
      split
      · exact quietly_update_bind ⟨fun _ => ⟨rfl, rfl⟩, fun _ => rfl⟩ (fun _ => rfl) (.fault rfl)
      · exact quietly_pure _
    · exact quietly_map _ _ _

theorem quietly_enclose_bind
    {env : FrameId} {m : FrameId → Store → Store} {x : FrameId → Evaluation γ}
    (hm : ∀ id s, (m id s).captures = s.captures) (hx : ∀ id, Quietly (x id)) :
    Quietly (do
      let id ← change (·.enclose env)
      update (·.mapStore (m id))
      x id) := by
  refine .bind (.change ⟨fun _ => ⟨rfl, rfl⟩, fun _ => rfl⟩ fun _ => rfl) fun id => ?_
  exact quietly_update_bind ⟨fun _ => ⟨rfl, rfl⟩, fun _ => rfl⟩ (fun s => hm id s.store) (hx id)

theorem quietly_applyFrom
    (settings : Settings) (f : Node) (args : List Node) (caller : FrameId) :
    Quietly (applyFrom settings f args caller) := by
  cases f
  case procedure i name wired =>
    simp only [applyFrom]
    split
    · exact .withCaller caller (quietly_callProcedure _ _ _ _)
    · exact .fault rfl
  case lambda i xs body =>
    simp only [applyFrom]
    split
    · refine quietly_read_bind (fun _ => rfl) fun parent => ?_
      refine quietly_enclose_bind (fun id s => ?_) fun id => .request _
      rw [bindParameters_eq]
    · exact .fault rfl
  all_goals exact .fault rfl

theorem quietly_statements
    (env : FrameId) (es : List Node) (v : Node) :
    Quietly (statements env es v) := by
  induction es generalizing v with
  | nil => exact quietly_pure v
  | cons e es ih => exact .bind (.request _) fun w => ih w

theorem quietly_clauses
    (env : FrameId) (cs : List (Node × Node)) :
    Quietly (clauses env cs) := by
  induction cs with
  | nil => exact quietly_pure _
  | cons c cs ih =>
      refine .bind (.request _) fun v => ?_
      split
      · exact .request _
      · exact ih
      · exact .fault rfl

theorem quietly_operands
    (env : FrameId) (es done : List Node) :
    Quietly (operands env es done) := by
  induction es generalizing done with
  | nil => exact quietly_pure _
  | cons e es ih => exact .bind (.request _) fun v => ih _

theorem quietly_identifier
    (x : Text) (env : FrameId) :
    Quietly (identifier x env) := by
  refine quietly_read_bind (fun _ => rfl) fun v => ?_
  split
  · exact .fault rfl
  · exact .fault rfl
  · exact quietly_pure _

theorem quietly_assign
    (x : Text) (v : Node) (env : FrameId) :
    Quietly (assign x v env) := by
  refine quietly_read_bind (fun _ => rfl) fun target => ?_
  split
  · exact .fault rfl
  · exact quietly_update_bind ⟨fun _ => ⟨rfl, rfl⟩, fun _ => rfl⟩ (fun _ => rfl) (quietly_pure _)

/-! ## All parts -/

/-- A part of an evaluation in which no captured frame is replaced. -/
abbrev Freely {β : Type} (x : Evaluation β) : Prop :=
  Assembled Store.KeepsCaptures x

theorem freely_of_quietly
    {x : Evaluation β} (h : Quietly x) :
    Freely x :=
  h.mono fun _ _ hsame => hsame.keeps

theorem balanced_capture
    (settings : Settings) (x : Text) (v : Node) (env : FrameId) (s : State) :
    s.Balanced (capture settings x v env s) := by
  unfold capture
  split
  · split <;> exact ⟨rfl, rfl⟩
  · exact ⟨rfl, rfl⟩

theorem untraced_capture
    (settings : Settings) (x : Text) (v : Node) (env : FrameId) (s : State) :
    capture settings x v env s.untraced = (capture settings x v env s).untraced := by
  cases v
  case lambda label xs body =>
    have hcaptured : s.untraced.store.captured? label = s.store.captured? label := rfl
    simp only [capture, hcaptured]
    split <;> rfl
  all_goals rfl

/-- A frame is captured by a lambda that has captured none before, or not at all. -/
theorem captured?_capture
    (settings : Settings) (x : Text) (v : Node) (env : FrameId) (s : State) (label : Label) :
    (capture settings x v env s).store.captured? label = s.store.captured? label ∨
      ∃ xs body, v = .lambda label xs body ∧ s.store.captured? label = none ∧
        (capture settings x v env s).store.captured? label = some env := by
  cases v
  case lambda own xs body =>
    simp only [capture]
    split
    · rename_i hcapture
      rw [Bool.and_eq_true, Option.isNone_iff_eq_none] at hcapture
      have hcaptured := s.store.captured?_capture own env label
      by_cases hlabel : label = own
      · subst hlabel
        rw [if_pos rfl] at hcaptured
        exact .inr ⟨xs, body, rfl, hcapture.2, hcaptured⟩
      · rw [if_neg hlabel] at hcaptured
        exact .inl hcaptured
    · exact .inl rfl
  all_goals exact .inl rfl

theorem keepsCaptures_capture
    (settings : Settings) (x : Text) (v : Node) (env : FrameId) (s : State) :
    s.store.KeepsCaptures (capture settings x v env s).store := by
  intro label id hid
  rcases captured?_capture settings x v env s label with hsame | ⟨_, _, -, hnone, -⟩
  · rw [hsame]
    exact hid
  · cases hnone.symm.trans hid

/-- A let binds a name in a new frame, which its value may capture. -/
theorem isStep_bind_let
    (settings : Settings) (x : Text) (v : Node) (id : FrameId) :
    IsStep fun s => ((), capture settings x v id (s.mapStore (·.define id x v))) := by
  refine ⟨fun s => ?_, fun s => ?_⟩
  · have hdefine : s.Balanced (s.mapStore (·.define id x v)) := ⟨rfl, rfl⟩
    exact hdefine.trans (balanced_capture settings x v id _)
  · have hdefine : s.untraced.mapStore (·.define id x v) =
        (s.mapStore (·.define id x v)).untraced := rfl
    rw [hdefine, untraced_capture]

/-- A definition binds a name in a frame, which its value may capture. -/
theorem isStep_bind_definition
    (settings : Settings) (x : Text) (v : Node) (id : FrameId) :
    IsStep fun s => ((), (capture settings x v id s).mapStore (·.define id x v)) := by
  refine ⟨fun s => ?_, fun s => ?_⟩
  · exact (balanced_capture settings x v id s).trans ⟨rfl, rfl⟩
  · rw [untraced_capture]
    rfl

theorem freely_fillPlaceholder
    (settings : Settings) (x : Text) (v : Node) (env : FrameId) :
    Freely (fillPlaceholder settings x v env) := by
  refine .bind (.change (f := fun s => (s.store.findPlaceholder? env x, s))
    ⟨fun _ => ⟨rfl, rfl⟩, fun _ => rfl⟩ fun s => .refl s.store) fun target => ?_
  split
  · exact .fault rfl
  · refine .bind (.change (isStep_bind_definition settings x v _) fun s => ?_) fun _ => ?_
    · exact keepsCaptures_capture settings x v _ s
    · exact freely_of_quietly (quietly_pure _)

/-- Nothing is captured unless a name is bound by a let or a definition. -/
theorem quietly_evaluate
    {e : Node} (hlet : ∀ i x value body, e ≠ .letIn i x value body)
    (hdefine : ∀ i x value, e ≠ .define i x value) (settings : Settings) (env : FrameId) :
    Quietly (evaluate settings e env) := by
  cases e
  case letIn i x value body => exact absurd rfl (hlet i x value body)
  case define i x value => exact absurd rfl (hdefine i x value)
  case identifier x => exact quietly_identifier x env
  case cond i cs => exact quietly_clauses env cs
  case assign i x value => exact .bind (.request _) fun v => quietly_assign x v env
  case block i es =>
    refine quietly_enclose_bind (fun id s => ?_) fun id => quietly_statements id es _
    rw [declareAll_eq]
  case apply i operator es =>
    refine .bind (.request _) fun f => .bind (quietly_operands env es []) fun args => ?_
    exact quietly_applyFrom settings f args env
  case placeholder | parameters | clause | absent => exact .fault rfl
  all_goals exact quietly_pure _

theorem freely_evaluate
    (settings : Settings) (e : Node) (env : FrameId) :
    Freely (evaluate settings e env) := by
  cases e
  case letIn i x value body =>
    refine .bind (.request _) fun v => ?_
    refine .bind (.change ⟨fun _ => ⟨rfl, rfl⟩, fun _ => rfl⟩ fun s => .refl s.store) fun id => ?_
    refine .bind (.change (isStep_bind_let settings x v id) fun s => ?_) fun _ => .request _
    exact keepsCaptures_capture settings x v id (s.mapStore (·.define id x v))
  case define i x value => exact .bind (.request _) fun v => freely_fillPlaceholder settings x v env
  all_goals exact freely_of_quietly (quietly_evaluate (by simp) (by simp) settings env)

/-! ## Requests -/

/-- What a request stands for, without the line that tells about it. -/
def carryOut (settings : Settings) : Request → Evaluation Node
  | .eval e env => evaluate settings e env
  | .apply f args => body settings (.apply f args)

/-- The state after the line that tells about a request, if there is one. -/
def announce (settings : Settings) (r : Request) (s : State) : State :=
  match r with
  | .eval e _ => if settings.trace then s.write settings (.traced (traceLine e)) else s
  | .apply .. => s

theorem body_eq
    (settings : Settings) (r : Request) (s : State) :
    body settings r s = carryOut settings r (announce settings r s) := by
  cases r with
  | apply f args => rfl
  | eval e env =>
      simp only [body, carryOut, announce]
      split <;> rfl

theorem quietly_apply
    (settings : Settings) (f : Node) (args : List Node) :
    Quietly (body settings (.apply f args)) := by
  refine quietly_read_bind (fun _ => rfl) fun caller => ?_
  split
  · exact .fault rfl
  · exact quietly_applyFrom settings f args _

/-- Only definitions and lets have lambdas capture frames themselves. -/
theorem quietly_carryOut_or
    (settings : Settings) (r : Request) :
    (∃ i x value env, r = .eval (.define i x value) env) ∨
      (∃ i x value body env, r = .eval (.letIn i x value body) env) ∨
      Quietly (carryOut settings r) := by
  cases r with
  | apply f args => exact .inr (.inr (quietly_apply settings f args))
  | eval e env =>
      by_cases hdefine : ∃ i x value, e = .define i x value
      · obtain ⟨i, x, value, rfl⟩ := hdefine
        exact .inl ⟨i, x, value, env, rfl⟩
      by_cases hlet : ∃ i x value body, e = .letIn i x value body
      · obtain ⟨i, x, value, body, rfl⟩ := hlet
        exact .inr (.inl ⟨i, x, value, body, env, rfl⟩)
      · have hquiet : Quietly (evaluate settings e env) :=
          quietly_evaluate (fun i x value body h => hlet ⟨i, x, value, body, h⟩)
            (fun i x value h => hdefine ⟨i, x, value, h⟩) settings env
        exact .inr (.inr hquiet)

/-- Every request stands for something that is put together from steps. -/
theorem freely_carryOut
    (settings : Settings) (r : Request) :
    Freely (carryOut settings r) := by
  cases r with
  | eval e env => exact freely_evaluate settings e env
  | apply f args => exact freely_of_quietly (quietly_apply settings f args)

theorem balanced_announce
    (settings : Settings) (r : Request) (s : State) :
    s.Balanced (announce settings r s) := by
  unfold announce State.write
  repeat' split
  all_goals exact ⟨rfl, rfl⟩

theorem untraced_announce
    (settings : Settings) (r : Request) (s : State) :
    (announce settings r s).untraced = s.untraced := by
  unfold announce
  split
  · split
    · exact State.untraced_write_traced settings _ s
    · rfl
  · rfl

/-! ## Whole requests -/

theorem perform_succ
    (settings : Settings) (left : Nat) (r : Request) (s : State) :
    (rules settings).perform (left + 1) r s =
      (carryOut settings r (announce settings r s)).answer ((rules settings).perform left) := by
  rw [← body_eq]
  rfl

/-- Whatever a request comes to, callers and depth are afterwards as they were before. -/
theorem balanced_perform
    (settings : Settings) (left : Nat) (r : Request) (s : State) :
    s.Balanced ((rules settings).perform left r s).2 := by
  induction left generalizing r s with
  | zero => exact ⟨rfl, rfl⟩
  | succ left ih =>
      rw [perform_succ]
      exact (balanced_announce settings r s).trans
        ((freely_carryOut settings r).balanced_answer ih _)

theorem perform_not_panic
    (settings : Settings) (left : Nat) (r : Request) (s : State) (f : Fault)
    (hf : ((rules settings).perform left r s).1 = .error f) : f.isPanic = false := by
  induction left generalizing r s f with
  | zero =>
      cases hf
      rfl
  | succ left ih =>
      rw [perform_succ] at hf
      exact (freely_carryOut settings r).answer_not_panic (balanced_perform settings left) ih _ f hf

theorem perform_ne_noCaller
    (settings : Settings) (left : Nat) (r : Request) (s : State) :
    ((rules settings).perform left r s).1 ≠ .error .noCaller := by
  intro hpanic
  cases perform_not_panic settings left r s .noCaller hpanic

/-- The depth is written back as it was. -/
theorem ended_of_balanced
    {s : State} {answer : Except Fault Node × State} (h : s.Balanced answer.2) :
    ended (s.depth, answer) = answer := by
  rw [ended, ← h.depth]

theorem eval_eq_perform
    (settings : Settings) (e : Node) (env : FrameId) (s : State) :
    eval settings e env s =
      (rules settings).perform (settings.limit - s.depth) (.eval e env) s := by
  rw [eval, Rules.run_eq_perform]
  exact ended_of_balanced (balanced_perform settings _ _ s)

theorem apply_eq_perform
    (settings : Settings) (f : Node) (args : List Node) (s : State) :
    apply settings f args s =
      (rules settings).perform (settings.limit - s.depth) (.apply f args) s := by
  rw [apply, Rules.run_eq_perform]
  exact ended_of_balanced (balanced_perform settings _ _ s)

end Evaluator

end BlockLang
