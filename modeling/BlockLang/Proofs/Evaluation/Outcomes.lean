import BlockLang.Proofs.Contracts
import BlockLang.Proofs.Evaluation.Forms
import BlockLang.Proofs.Evaluation.States

/-!
# What every request does

A run that fails has many calls that fail, so this module is about all outcomes. A
request within a vocabulary that is made in a well-formed state leaves a
well-formed state, in which the store has only grown and the callers are the same.
It results in a value, in a fault that one of its calls has led to, or in a fault
that it raises itself.
-/

namespace BlockLang

/-- A vocabulary for evaluation: bodies are evaluated as blocks, and only
procedures make lists. -/
structure IsVocabulary (p : Head → Bool) : Prop where
  block : p .block
  list : p .list = false

/-- A request that can be made in a state: for an expression in a frame that exists,
or for values on behalf of a running procedure. -/
def Request.Fits (p : Head → Bool) (s : State) : Request → Prop
  | .eval e env => e.within p ∧ env < s.store.frames.size
  | .apply f args => IsValueOf p f ∧ (∀ a ∈ args, IsValueOf p a) ∧ s.callers ≠ []

theorem Request.Fits.of_proceeds
    {settings : Settings} {p : Head → Bool} {s t : State} {r : Request}
    (hr : r.Fits p s) (h : s.Proceeds settings p t) :
    r.Fits p t := by
  cases r with
  | eval e env => exact ⟨hr.1, h.lt_size hr.2⟩
  | apply f args => exact ⟨hr.1, hr.2.1, h.callers ▸ hr.2.2⟩

namespace Evaluator

open Evaluation

/-- When a request can itself raise a fault. Of the faults that are not about the
program's values, the ones left to programs are the evaluation of a parameter list
and the definition of a name that is nowhere reserved; the others need heads that
programs do not have. A caller is never missing. -/
def Raises (settings : Settings) (p : Head → Bool) (r : Request) (s : State) : Fault → Prop
  | .notEvaluable _ => (∃ i xs env, r = .eval (.parameters i xs) env) ∨ p .clause
  | .unknownExpression => p .absent
  | .placeholderEvaluated => p .placeholder
  | .noPlaceholder x =>
    ∃ i value env, r = .eval (.define i x value) env ∧ s.store.findPlaceholder? env x = none
  | .applyOutsideProcedure | .noCaller => False
  | .mapUnavailable => settings.canApply = false ∨ ∃ name, p (.procedure name false)
  | _ => True

/-- The end of a part of the evaluation of `r`, which was asked for in the state
`s`, after the calls `made`. -/
structure Concludes {β : Type} (settings : Settings) (p : Head → Bool) (r : Request) (s : State)
    (V : β → Prop) (made : List EvalCall) (outcome : Except Fault β) (t : State) : Prop where
  proceeds : s.Proceeds settings p t
  value : ∀ b, outcome = .ok b → V b
  fault : ∀ f, outcome = .error f →
    (∃ d ∈ made, d.outcome = .error f) ∨ Raises settings p r t f

/-- What requests may count on and what they bring about. -/
def contract (settings : Settings) (p : Head → Bool) : Contract Request Node Fault State where
  pre r s := s.WellFormed settings p ∧ r.Fits p s
  post c := Concludes settings p c.request c.before (IsValueOf p) c.calls c.outcome c.after

/-- Started in any state that has proceeded from `s`, a part of the evaluation of
`r` makes requests as the contract asks and concludes. -/
def Keeps {β : Type} (settings : Settings) (p : Head → Bool) (r : Request) (s : State)
    (V : β → Prop) (x : Evaluation β) : Prop :=
  ∀ t made, s.Proceeds settings p t →
    (x t).Meets (contract settings p) (Concludes settings p r s V) made

section Parts

variable {β γ : Type} {settings : Settings} {p : Head → Bool} {r : Request} {s t : State}
  {V : β → Prop} {W : γ → Prop}

theorem Concludes.of_proceeds
    {made : List EvalCall} {outcome : Except Fault β} {u : State}
    (h : Concludes settings p r t V made outcome u) (hst : s.Proceeds settings p t) :
    Concludes settings p r s V made outcome u :=
  ⟨hst.trans h.proceeds, h.value, h.fault⟩

/-- What holds of all states after `t` also holds of the run from `t` itself. -/
theorem Keeps.meets
    {x : Evaluation β} {made : List EvalCall} (hx : Keeps settings p r t V x)
    (hst : s.Proceeds settings p t) :
    (x t).Meets (contract settings p) (Concludes settings p r s V) made :=
  (hx t made hst.wellFormed.proceeds).mono fun _ _ _ h => h.of_proceeds hst

theorem keeps_pure
    {b : β} (hb : V b) :
    Keeps settings p r s V (pure b) := by
  intro t made ht
  refine ⟨ht, ?_, nofun⟩
  rintro _ ⟨⟩
  exact hb

theorem keeps_fault
    {f : Fault} (hf : ∀ t, Raises settings p r t f) :
    Keeps settings p r s V (fault f) := by
  intro t made ht
  refine ⟨ht, nofun, ?_⟩
  rintro _ ⟨⟩
  exact .inr (hf t)

theorem raises_of_ofArguments
    {f : Fault} (hf : f.ofArguments) :
    Raises settings p r t f := by
  cases f <;> trivial

/-- The arguments are to blame if what is computed from them fails. -/
theorem keeps_attempt_bind
    {x : Except Fault β} {f : β → Evaluation γ} (hx : Procedure.Gives V x)
    (hf : ∀ b, V b → Keeps settings p r s W (f b)) :
    Keeps settings p r s W (attempt x >>= f) := by
  cases x with
  | error e => exact keeps_fault fun _ => raises_of_ofArguments (hx.fault e rfl)
  | ok b => exact hf b (hx.value b rfl)

theorem keeps_bind
    {x : Evaluation β} {f : β → Evaluation γ} (hx : Keeps settings p r s V x)
    (hf : ∀ b, V b → Keeps settings p r s W (f b)) :
    Keeps settings p r s W (x >>= f) := by
  intro t made ht
  refine (hx t made ht).andThen ?_ ?_
  · intro made b u hu
    exact hf b (hu.value b rfl) u made hu.proceeds
  · intro made e u hu
    refine ⟨hu.proceeds, nofun, ?_⟩
    rintro _ ⟨⟩
    exact hu.fault e rfl

theorem keeps_request
    {r' : Request} (hr : r'.Fits p s) :
    Keeps settings p r s (IsValueOf p) (request r') := by
  intro t made ht
  refine ⟨⟨ht.wellFormed, hr.of_proceeds ht⟩, ?_⟩
  rintro c rfl rfl hc
  refine ⟨ht.trans hc.proceeds, hc.value, fun f hf => .inl ⟨c, ?_, hf⟩⟩
  exact List.mem_append_right made (List.mem_singleton_self c)

/-- What is read holds of the state in which it is read. -/
theorem keeps_read_bind_at
    {f : State → β} {x : β → Evaluation γ}
    (hx : ∀ t made, s.Proceeds settings p t →
      (x (f t) t).Meets (contract settings p) (Concludes settings p r s W) made) :
    Keeps settings p r s W (read f >>= x) :=
  hx

theorem keeps_read_bind
    {f : State → β} {x : β → Evaluation γ}
    (hx : ∀ t, s.Proceeds settings p t → Keeps settings p r t W (x (f t))) :
    Keeps settings p r s W (read f >>= x) := by
  intro t made ht
  exact (hx t ht).meets ht

theorem keeps_change_bind
    {f : State → β × State} {x : β → Evaluation γ}
    (hf : ∀ t, s.Proceeds settings p t → s.Proceeds settings p (f t).2)
    (hx : ∀ b, Keeps settings p r s W (x b)) :
    Keeps settings p r s W (change f >>= x) := by
  intro t made ht
  exact hx (f t).1 (f t).2 made (hf t ht)

theorem keeps_update_bind
    {f : State → State} {x : Evaluation γ}
    (hf : ∀ t, s.Proceeds settings p t → s.Proceeds settings p (f t))
    (hx : Keeps settings p r s W x) :
    Keeps settings p r s W (update f >>= fun _ => x) := by
  intro t made ht
  exact hx (f t) made (hf t ht)

theorem keeps_change
    {f : State → β × State}
    (hf : ∀ t, s.Proceeds settings p t → s.Proceeds settings p (f t).2 ∧ V (f t).1) :
    Keeps settings p r s V (change f) := by
  intro t made ht
  refine ⟨(hf t ht).1, ?_, nofun⟩
  rintro _ ⟨⟩
  exact (hf t ht).2

/-- A new frame is filled before anything is evaluated in it. -/
theorem keeps_enclose_bind
    {env : FrameId} {fill : FrameId → State → State} {x : FrameId → Evaluation γ}
    (hfill : ∀ t, s.Proceeds settings p t →
      s.Proceeds settings p (fill t.store.frames.size (t.enclose env).2) ∧
        t.store.frames.size < (fill t.store.frames.size (t.enclose env).2).store.frames.size)
    (hx : ∀ t inner, s.Proceeds settings p t → inner < t.store.frames.size →
      Keeps settings p r t W (x inner)) :
    Keeps settings p r s W (do
      let inner ← change (·.enclose env)
      update (fill inner)
      x inner) := by
  intro t made ht
  obtain ⟨hfilled, hinner⟩ := hfill t ht
  exact (hx _ _ hfilled hinner).meets hfilled

/-- The frame that is taken from the stack at the end is the one that was put
there. -/
theorem keeps_withCaller
    {env : FrameId} {x : Evaluation β} (henv : env < s.store.frames.size)
    (hx : ∀ t, t.callers ≠ [] → env < t.store.frames.size → Keeps settings p r t V x) :
    Keeps settings p r s V (withCaller env x) := by
  intro t made ht
  have henv' := ht.lt_size henv
  have hpushed : (t.pushCaller env).WellFormed settings p := by
    refine ⟨ht.wellFormed.ordered, ht.wellFormed.bindings, ht.wellFormed.captured, ?_⟩
    exact List.forall_mem_cons.mpr ⟨henv', ht.wellFormed.callers⟩
  have hkeeps := hx (t.pushCaller env) (List.cons_ne_nil _ _) henv'
  refine (hkeeps (t.pushCaller env) made hpushed.proceeds).lastly ?_
  intro made outcome u hu
  refine ⟨{ u with callers := t.callers }, State.popCaller_of_callers hu.proceeds.callers, ?_⟩
  refine ⟨⟨?_, ht.grows.trans hu.proceeds.grows, ht.callers⟩, hu.value, hu.fault⟩
  obtain ⟨hordered, hbindings, hcaptured, -⟩ := hu.proceeds.wellFormed
  refine ⟨hordered, hbindings, hcaptured, fun id hid => ?_⟩
  exact hu.proceeds.lt_size (ht.wellFormed.callers id hid)

/-! ## Procedures -/

theorem keeps_newList
    {elements : List Node} (h : ∀ v ∈ elements, IsValueOf p v) :
    Keeps settings p r s (IsValueOf p) (newList elements) :=
  keeps_change fun _ ht => ⟨ht.quiet rfl rfl rfl, .list _ h⟩

theorem keeps_readInput :
    Keeps settings p r s (IsValueOf p) readInput := by
  refine keeps_change_bind (fun _ ht => ht.quiet rfl rfl rfl) fun input => ?_
  split
  · exact keeps_fault fun _ => trivial
  · exact keeps_pure (.string _)

theorem keeps_readLine :
    Keeps settings p r s (IsValueOf p) readLine := by
  refine keeps_change_bind (fun _ ht => ht.quiet rfl rfl rfl) fun input => ?_
  dsimp only
  split
  · exact keeps_fault fun _ => trivial
  · exact keeps_pure (.string _)

theorem keeps_print
    (line : Text) :
    Keeps settings p r s (IsValueOf p) (print settings line) := by
  unfold print
  split
  · exact keeps_fault fun _ => trivial
  · exact keeps_update_bind (fun _ ht => ht.write _) (keeps_pure (.string _))

theorem keeps_applyEach
    {f : Node} {vs done : List Node} (hf : IsValueOf p f) (hvs : ∀ v ∈ vs, IsValueOf p v)
    (hdone : ∀ v ∈ done, IsValueOf p v) (hs : s.callers ≠ []) :
    Keeps settings p r s (fun vs => ∀ v ∈ vs, IsValueOf p v) (applyEach f vs done) := by
  induction vs generalizing done with
  | nil => exact keeps_pure fun v hv => hdone v (List.mem_reverse.mp hv)
  | cons v vs ih =>
      rw [List.forall_mem_cons] at hvs
      refine keeps_bind (keeps_request ⟨hf, ?_, hs⟩) fun result hresult => ?_
      · exact List.forall_mem_singleton.mpr hvs.1
      · exact ih hvs.2 (List.forall_mem_cons.mpr ⟨hresult, hdone⟩)

theorem keeps_map
    {wired : Bool} {args : List Node} (hargs : ∀ v ∈ args, IsValueOf p v)
    (hwired : wired = false → ∃ name, p (.procedure name false)) (hs : s.callers ≠ []) :
    Keeps settings p r s (IsValueOf p) (map settings wired args) := by
  have hraises : ¬(wired && settings.canApply) → ∀ t, Raises settings p r t .mapUnavailable := by
    intro h t
    cases wired with
    | false => exact .inr (hwired rfl)
    | true => exact .inl (Bool.eq_false_iff.mpr h)
  have hread := Procedure.gives_functionAndList .map args hereditary_isValueOf hargs
  refine keeps_attempt_bind hread fun x hx => ?_
  dsimp only
  split
  · refine keeps_bind (keeps_applyEach hx.1 hx.2 (by simp) hs) fun results hresults => ?_
    exact keeps_newList hresults
  · exact keeps_fault (hraises ‹_›)

theorem keeps_callProcedure
    {procedure : Procedure} {wired : Bool} {args : List Node}
    (hargs : ∀ v ∈ args, IsValueOf p v)
    (hwired : wired = false → ∃ name, p (.procedure name false)) (hs : s.callers ≠ []) :
    Keeps settings p r s (IsValueOf p) (callProcedure settings procedure wired args) := by
  unfold callProcedure
  split
  · rename_i hcompute
    have hgives := Procedure.gives_compute hereditary_isValueOf hargs hcompute
    refine keeps_attempt_bind hgives fun answer hanswer => ?_
    cases answer with
    | value v => exact keeps_pure hanswer
    | newList elements => exact keeps_newList hanswer
  · split
    · dsimp only
      split
      · exact keeps_print _
      · exact keeps_pure (.string _)
    · refine keeps_attempt_bind (Procedure.gives_exactly _ _ hargs 0) fun _ _ => ?_
      split
      · exact keeps_readInput
      · exact keeps_pure (.string _)
    · refine keeps_attempt_bind (Procedure.gives_exactly _ _ hargs 0) fun _ _ => ?_
      split
      · exact keeps_readLine
      · exact keeps_pure (.string _)
    · refine keeps_attempt_bind (Procedure.gives_oneString _ _) fun path _ => ?_
      split
      · refine keeps_update_bind (fun _ ht => ht.quiet rfl rfl rfl) ?_
        exact keeps_fault fun _ => trivial
      · exact keeps_pure (.string _)
    · exact keeps_map hargs hwired hs

/-! ## Functions -/

theorem parentFrame_lt_size
    {label : Label} {caller : FrameId} (hs : s.WellFormed settings p)
    (hcaller : caller < s.store.frames.size) :
    parentFrame settings label caller s < s.store.frames.size := by
  unfold parentFrame
  split
  · cases hcaptured : s.store.captured? label with
    | none => exact hcaller
    | some id => exact (hs.captured label id hcaptured).2
  · exact hcaller

theorem keeps_applyFrom
    {f : Node} {args : List Node} {caller : FrameId} (hp : IsVocabulary p) (hf : IsValueOf p f)
    (hargs : ∀ v ∈ args, IsValueOf p v) (hcaller : caller < s.store.frames.size) :
    Keeps settings p r s (IsValueOf p) (applyFrom settings f args caller) := by
  cases hf with
  | @procedure i name wired hname =>
      simp only [applyFrom]
      split
      · refine keeps_withCaller hcaller fun t ht _ => keeps_callProcedure hargs ?_ ht
        rintro rfl
        exact ⟨name, hname⟩
      · exact keeps_fault fun _ => trivial
  | @lambda i xs body hbody =>
      simp only [applyFrom]
      split
      · refine keeps_read_bind fun t ht => ?_
        have hparent : parentFrame settings i caller t < t.store.frames.size :=
          parentFrame_lt_size ht.wellFormed (ht.lt_size hcaller)
        refine keeps_enclose_bind (fun u hu => ?_) fun u inner _ hinner => ?_
        · obtain ⟨frame, hframes, houter, hget, -⟩ := bindParameters_push (xs.zip args)
            (s := (u.enclose (parentFrame settings i caller t)).2.store) rfl
          refine hu.enclose (hu.lt_size hparent) hframes ?_ houter fun x v hv => ?_
          · rw [bindParameters_eq]
            rfl
          · rcases hget x v hv with hmem | hnone
            · obtain ⟨b, hb, rfl⟩ := List.mem_map.mp hmem
              exact .inr (hargs _ (List.of_mem_zip hb).2)
            · cases hnone
        · refine keeps_request ⟨?_, hinner⟩
          rw [Expr.within, hp.block]
          exact hbody
      · exact keeps_fault fun _ => trivial
  | _ => exact keeps_fault fun _ => trivial

/-! ## Expressions -/

theorem keeps_statements
    {env : FrameId} {es : List Node} {v : Node} (hes : ∀ e ∈ es, e.within p)
    (hv : IsValueOf p v) (henv : env < s.store.frames.size) :
    Keeps settings p r s (IsValueOf p) (statements env es v) := by
  induction es generalizing v with
  | nil => exact keeps_pure hv
  | cons e es ih =>
      rw [List.forall_mem_cons] at hes
      exact keeps_bind (keeps_request ⟨hes.1, henv⟩) fun w hw => ih hes.2 hw

theorem keeps_clauses
    {env : FrameId} {cs : List (Node × Node)} (hcs : ∀ c ∈ cs, c.1.within p ∧ c.2.within p)
    (henv : env < s.store.frames.size) :
    Keeps settings p r s (IsValueOf p) (clauses env cs) := by
  induction cs with
  | nil => exact keeps_pure (.boolean _)
  | cons c cs ih =>
      rw [List.forall_mem_cons] at hcs
      refine keeps_bind (keeps_request ⟨hcs.1.1, henv⟩) fun v _ => ?_
      split
      · exact keeps_request ⟨hcs.1.2, henv⟩
      · exact ih hcs.2
      · exact keeps_fault fun _ => trivial

theorem keeps_operands
    {env : FrameId} {es done : List Node} (hes : ∀ e ∈ es, e.within p)
    (hdone : ∀ v ∈ done, IsValueOf p v) (henv : env < s.store.frames.size) :
    Keeps settings p r s (fun vs => ∀ v ∈ vs, IsValueOf p v) (operands env es done) := by
  induction es generalizing done with
  | nil => exact keeps_pure fun v hv => hdone v (List.mem_reverse.mp hv)
  | cons e es ih =>
      rw [List.forall_mem_cons] at hes
      refine keeps_bind (keeps_request ⟨hes.1, henv⟩) fun v hv => ?_
      exact ih hes.2 (List.forall_mem_cons.mpr ⟨hv, hdone⟩)

theorem keeps_identifier
    {x : Text} {env : FrameId} :
    Keeps settings p r s (IsValueOf p) (identifier x env) := by
  refine keeps_read_bind fun t ht => ?_
  split
  · exact keeps_fault fun _ => trivial
  · exact keeps_fault fun _ => trivial
  · rename_i v hreal hv
    obtain ⟨f, hf, hfv⟩ := Store.exists_of_get? hv
    rcases ht.wellFormed.bindings f hf x v hfv with rfl | hvalue
    · exact absurd rfl hreal
    · exact keeps_pure hvalue

theorem keeps_fillPlaceholder
    {i : Label} {x : Text} {value v : Node} {env : FrameId}
    (hr : r = .eval (.define i x value) env) (hv : IsValueOf p v) :
    Keeps settings p r s (IsValueOf p) (fillPlaceholder settings x v env) := by
  refine keeps_read_bind_at fun t made ht => ?_
  cases hfind : t.store.findPlaceholder? env x with
  | none =>
      refine ⟨ht, nofun, ?_⟩
      rintro _ ⟨⟩
      exact .inr ⟨i, value, env, hr, hfind⟩
  | some target =>
      obtain ⟨⟨_, w⟩, hnearest, rfl⟩ := Option.map_eq_some_iff.mp hfind
      obtain ⟨f, hf, hw⟩ := Store.find_of_nearest? env hnearest
      obtain ⟨htarget, -⟩ := Array.getElem?_eq_some_iff.mp hf
      have hcaptured := ht.capture (x := x) (v := v) htarget
      refine ⟨hcaptured.define ?_ hv, ?_, nofun⟩
      · rw [frames_capture]
        rintro _ h
        cases hf.symm.trans h
        exact Option.isSome_of_mem (Option.filter_eq_some_iff.mp hw).1
      · rintro _ ⟨⟩
        exact hv

theorem keeps_assign
    {x : Text} {v : Node} {env : FrameId} (hv : IsValueOf p v) :
    Keeps settings p r s (IsValueOf p) (assign x v env) := by
  refine keeps_read_bind_at fun t made ht => ?_
  cases hfind : t.store.findBinding? env x with
  | none => exact keeps_fault (f := .unbound x) (fun _ => trivial) t made ht
  | some target =>
      obtain ⟨⟨_, w⟩, hnearest, rfl⟩ := Option.map_eq_some_iff.mp hfind
      obtain ⟨f, hf, hw⟩ := Store.find_of_nearest? env hnearest
      refine ⟨ht.define ?_ hv, ?_, nofun⟩
      · rintro _ h
        cases hf.symm.trans h
        exact Option.isSome_of_mem hw
      · rintro _ ⟨⟩
        exact hv

theorem keeps_evaluate
    {e : Node} {env : FrameId} (hp : IsVocabulary p) (hr : r = .eval e env)
    (he : e.within p) (henv : env < s.store.frames.size) :
    Keeps settings p r s (IsValueOf p) (evaluate settings e env) := by
  cases e
  case integer | string | boolean | lambda | procedure | list =>
    exact keeps_pure (isValueOf_of_isLiteral hp.list rfl he)
  case identifier => exact keeps_identifier
  case placeholder => exact keeps_fault fun _ => he
  case absent => exact keeps_fault fun _ => he
  case parameters i xs => exact keeps_fault fun _ => .inl ⟨i, xs, env, hr⟩
  case clause i test result =>
    simp only [Expr.within, Bool.and_eq_true] at he
    exact keeps_fault fun _ => .inr he.1.1
  case cond i cs =>
    simp only [Expr.within, Bool.and_eq_true] at he
    exact keeps_clauses (Expr.withinClauses_iff.mp he.2) henv
  case define i x value =>
    simp only [Expr.within, Bool.and_eq_true] at he
    refine keeps_bind (keeps_request ⟨he.2, henv⟩) fun v hv => ?_
    exact keeps_fillPlaceholder hr hv
  case assign i x value =>
    simp only [Expr.within, Bool.and_eq_true] at he
    refine keeps_bind (keeps_request ⟨he.2, henv⟩) fun v hv => ?_
    exact keeps_assign hv
  case apply i operator es =>
    simp only [Expr.within, Bool.and_eq_true] at he
    refine keeps_bind (keeps_request ⟨he.1.2, henv⟩) fun f hf => ?_
    refine keeps_bind (keeps_operands (Expr.withinAll_iff.mp he.2) (by simp) henv) fun vs hvs => ?_
    exact keeps_applyFrom hp hf hvs henv
  case block i es =>
    simp only [Expr.within, Bool.and_eq_true] at he
    refine keeps_enclose_bind (fun t ht => ?_) fun t inner _ hinner => ?_
    · obtain ⟨frame, hframes, houter, hget⟩ := declareAll_push es
        (s := (t.enclose env).2.store) rfl
      refine ht.enclose (ht.lt_size henv) hframes ?_ houter fun x v hv => ?_
      · rw [declareAll_eq]
        rfl
      · rw [hget] at hv
        split at hv
        · cases hv
          exact .inl rfl
        · cases hv
    · exact keeps_statements (Expr.withinAll_iff.mp he.2) (.boolean _) hinner
  case letIn i x value body =>
    simp only [Expr.within, Bool.and_eq_true] at he
    refine keeps_bind (keeps_request ⟨he.1.2, henv⟩) fun v hv => ?_
    refine keeps_enclose_bind (fun t ht => ?_) fun t inner _ hinner => ?_
    · have hbound : ∀ y w, (Frame.define ⟨some env, []⟩ x v).get? y = some w →
          w = .placeholder ∨ IsValueOf p w := by
        intro y w hw
        rw [Frame.get?_define] at hw
        split at hw
        · cases hw
          exact .inr hv
        · cases hw
      have hframes := Store.frames_define_push (s := (t.enclose env).2.store) rfl x v
      obtain ⟨hproceeds, hlt⟩ := ht.enclose (m := (·.define t.store.frames.size x v))
        (ht.lt_size henv) hframes rfl rfl hbound
      refine ⟨hproceeds.capture hlt, ?_⟩
      rw [frames_capture]
      exact hlt
    · refine keeps_request ⟨?_, hinner⟩
      rw [Expr.within, hp.block]
      exact he.2

/-! ## Requests -/

theorem keeps_body
    (hp : IsVocabulary p) (hr : r.Fits p s) :
    Keeps settings p r s (IsValueOf p) (body settings r) := by
  cases r with
  | eval e env =>
      have hevaluate : Keeps settings p (.eval e env) s (IsValueOf p) (evaluate settings e env) :=
        keeps_evaluate hp rfl hr.1 hr.2
      simp only [body]
      split
      · exact keeps_update_bind (fun _ ht => ht.write _) hevaluate
      · exact hevaluate
  | apply f args =>
      obtain ⟨hf, hargs, hcallers⟩ := hr
      refine keeps_read_bind fun t ht => ?_
      rw [ht.callers]
      cases hhead : s.callers with
      | nil => exact absurd hhead hcallers
      | cons env callers =>
          refine keeps_applyFrom hp hf hargs (ht.wellFormed.callers env ?_)
          rw [ht.callers, hhead]
          exact List.mem_cons_self

/-- Evaluation keeps its contract, whichever vocabulary requests are within. -/
theorem honours_contract
    (hp : IsVocabulary p) :
    (rules settings).Honours (contract settings p) where
  body _ s hr := keeps_body hp hr.2 s [] hr.1.proceeds
  overflow _ _ hr := ⟨hr.1.proceeds, nofun, fun _ hf => by
    cases hf
    exact .inr trivial⟩

end Parts

end Evaluator

end BlockLang
