import BlockLang.Proofs.Evaluation.Forms
import BlockLang.Proofs.Refinement.Mirrors

/-!
# Running two states side by side

From states that mirror each other, like requests lead to like values and to states
that mirror each other again, if the request of the program succeeds. This is shown
for every part of an evaluation, given that it holds of the calls that the part
makes.
-/

namespace BlockLang

/-- Requests for like expressions in frames that correspond. -/
inductive Request.Matches (R : Pairing) : Request → Request → Prop where
  | eval {e e' : Node} {env : FrameId} (he : Alike R e e') :
      Matches R (.eval e env) (.eval e' (env - 1))
  | apply {f f' : Node} {args args' : List Node} (hf : Alike R f f')
      (hargs : List.Forall₂ (Alike R) args args') : Matches R (.apply f args) (.apply f' args')

theorem forall₂_mono
    {R R' : Pairing} {es es' : List Node} (h : List.Forall₂ (Alike R) es es')
    (hsub : ∀ a b, R a b → R' a b) :
    List.Forall₂ (Alike R') es es' :=
  h.imp fun _ _ he => he.mono hsub

namespace Evaluator

open Evaluation

section Mimics

variable (settings : Settings) (limit : Nat) (pending : List Text)

/-- The session carries out what matches the request of a call with a like value,
when requests may nest `limit` deep. -/
def Mimicked (c : EvalCall) : Prop :=
  ∀ ⦃v : Node⦄ ⦃R : Pairing⦄ ⦃t : State⦄ ⦃r : Request⦄, c.outcome = .ok v →
    c.before.Mirrors R pending t → c.request.Matches R r →
      ∃ w R', ((rules settings).call limit r t).outcome = .ok w ∧
        c.after.Mirrors R' pending ((rules settings).call limit r t).after ∧
        R.Widens c.before.store.nextLabel R' c.after.store.nextLabel ∧ Alike R' v w

variable {β γ : Type}

/-- From a state, a part of an evaluation of the session succeeds with a related
result in a state that mirrors `s'`. -/
def Reaches (V : Pairing → β → β → Prop) (R : Pairing) (next : Label) (b : β) (s' t : State)
    (y : Evaluation β) : Prop :=
  ∃ cs b' t' R', y.Makes settings limit t cs b' t' ∧ s'.Mirrors R' pending t' ∧
    R.Widens next R' s'.store.nextLabel ∧ V R' b b'

/-- A part of an evaluation of the session does what a part of an evaluation of the
program does, if the session can mimic the calls that the program makes. -/
def Mimics (V : Pairing → β → β → Prop) (R : Pairing) (s t : State) (x y : Evaluation β) : Prop :=
  ∀ ⦃l : Nat⦄ ⦃cs : List EvalCall⦄ ⦃b : β⦄ ⦃s' : State⦄, x.Makes settings l s cs b s' →
    (∀ c ∈ cs, Mimicked settings limit pending c) →
      Reaches settings limit pending V R s.store.nextLabel b s' t y

end Mimics

section Parts

variable {settings : Settings} {limit : Nat} {pending : List Text} {β γ : Type}
  {V : Pairing → β → β → Prop} {W : Pairing → γ → γ → Prop} {R : Pairing} {s t : State}

theorem mimics_pure
    {b b' : β} (hm : s.Mirrors R pending t) (hb : V R b b') :
    Mimics settings limit pending V R s t (pure b) (pure b') := by
  intro l cs _ s' h _
  obtain ⟨rfl, rfl, rfl⟩ := makes_pure.mp h
  exact ⟨[], b', t, R, makes_pure.mpr ⟨rfl, rfl, rfl⟩, hm, .refl _ _, hb⟩

theorem mimics_fault
    {f : Fault} {y : Evaluation β} :
    Mimics settings limit pending V R s t (fault f) y := by
  intro l cs _ s' h _
  exact (not_makes_fault h).elim

theorem mimics_bind
    {x y : Evaluation γ} {f g : γ → Evaluation β}
    (hx : Mimics settings limit pending W R s t x y)
    (hf : ∀ {R' : Pairing} {c c' : γ} {s' t' : State}, s'.Mirrors R' pending t' →
      (∀ a b, R a b → R' a b) → W R' c c' →
        Mimics settings limit pending V R' s' t' (f c) (g c')) :
    Mimics settings limit pending V R s t (x >>= f) (y >>= g) := by
  intro l cs b s' h hcs
  obtain ⟨first, c, mid, rest, hfirst, hrest, rfl⟩ := makes_bind.mp h
  obtain ⟨cs₁, c', mid', R₁, hfirst', hm₁, hwidens₁, hc⟩ :=
    hx hfirst fun d hd => hcs d (List.mem_append_left _ hd)
  obtain ⟨cs₂, b', t', R₂, hrest', hm₂, hwidens₂, hb⟩ :=
    hf hm₁ hwidens₁.sub hc hrest fun d hd => hcs d (List.mem_append_right _ hd)
  exact ⟨cs₁ ++ cs₂, b', t', R₂, makes_bind.mpr ⟨cs₁, c', mid', cs₂, hfirst', hrest', rfl⟩, hm₂,
    hwidens₁.trans hwidens₂, hb⟩

theorem mimics_request
    {r r' : Request} (hm : s.Mirrors R pending t) (hr : r.Matches R r') :
    Mimics settings limit pending Alike R s t (request r) (request r') := by
  intro l cs v s' h hcs
  obtain ⟨c, rfl, rfl, rfl, hv, rfl⟩ := exists_of_makes_request h
  obtain ⟨w, R', hw, hm', hwidens, hvw⟩ := hcs c List.mem_cons_self hv hm hr
  exact ⟨_, w, _, R', makes_request.mpr ⟨rfl, hw, rfl⟩, hm', hwidens, hvw⟩

/-- A part that begins with a change of the state. -/
theorem mimics_change_bind
    {f : State → γ × State} {g : State → γ × State} {x y : γ → Evaluation β}
    (hnext : (f s).2.store.nextLabel = s.store.nextLabel)
    (h : Mimics settings limit pending V R (f s).2 (g t).2 (x (f s).1) (y (g t).1)) :
    Mimics settings limit pending V R s t (change f >>= x) (change g >>= y) := by
  intro l cs b s' hmakes hcs
  have hreaches := h hmakes hcs
  rw [hnext] at hreaches
  exact hreaches

theorem mimics_update_bind
    {f g : State → State} {x y : Evaluation β}
    (hnext : (f s).store.nextLabel = s.store.nextLabel)
    (h : Mimics settings limit pending V R (f s) (g t) x y) :
    Mimics settings limit pending V R s t (update f >>= fun _ => x) (update g >>= fun _ => y) :=
  mimics_change_bind (f := fun s => ((), f s)) (g := fun t => ((), g t)) hnext h

theorem mimics_read_bind
    {f g : State → γ} {x y : γ → Evaluation β}
    (h : Mimics settings limit pending V R s t (x (f s)) (y (g t))) :
    Mimics settings limit pending V R s t (read f >>= x) (read g >>= y) :=
  h

theorem mimics_attempt_bind
    {W : γ → γ → Prop} {a a' : Except Fault γ} {x y : γ → Evaluation β}
    (ha : Procedure.Agrees W a a')
    (h : ∀ c c', W c c' → Mimics settings limit pending V R s t (x c) (y c')) :
    Mimics settings limit pending V R s t (attempt a >>= x) (attempt a' >>= y) := by
  cases a with
  | error f => exact mimics_fault
  | ok c =>
      obtain ⟨c', rfl, hc⟩ := ha c rfl
      exact h c c' hc

theorem mimics_withCaller
    {x y : Evaluation β} (env : FrameId)
    (h : Mimics settings limit pending V R (s.pushCaller env) (t.pushCaller (env - 1)) x y) :
    Mimics settings limit pending V R s t (withCaller env x) (withCaller (env - 1) y) := by
  intro l cs b s' hmakes hcs
  obtain ⟨mid, hmid, hpop⟩ := makes_withCaller.mp hmakes
  obtain ⟨cs', b', mid', R', hmid', hm, hwidens, hb⟩ := h hmid hcs
  have hnext : s'.store.nextLabel = mid.store.nextLabel := by
    rw [(State.callers_of_popCaller hpop).2]
  obtain ⟨t', hpop', hm'⟩ := hm.popCaller hpop
  exact ⟨cs', b', t', R', makes_withCaller.mpr ⟨mid', hmid', hpop'⟩, hm', hnext ▸ hwidens, hb⟩

end Parts

/-! ## Loops -/

section Loops

variable {settings : Settings} {limit : Nat} {pending : List Text} {R : Pairing} {s t : State}

theorem mimics_statements
    {env : FrameId} {es es' : List Node} {v w : Node} (hm : s.Mirrors R pending t)
    (hes : List.Forall₂ (Alike R) es es') (hvw : Alike R v w) :
    Mimics settings limit pending Alike R s t (statements env es v)
      (statements (env - 1) es' w) := by
  induction es generalizing es' v w R s t with
  | nil =>
      cases hes
      exact mimics_pure hm hvw
  | cons e es ih =>
      obtain ⟨e', es', he, hrest, rfl⟩ := List.forall₂_cons_left_iff.mp hes
      refine mimics_bind (mimics_request hm (.eval he)) fun hm' hsub hv => ?_
      exact ih hm' (forall₂_mono hrest hsub) hv

/-- Two loops that make one request for every element and collect the results, last
first. -/
theorem mimics_collect
    {collect collect' : List Node → List Node → Evaluation (List Node)} {r r' : Node → Request}
    (hnil : ∀ done, collect [] done = pure done.reverse)
    (hcons : ∀ e es done, collect (e :: es) done =
      request (r e) >>= fun v => collect es (v :: done))
    (hnil' : ∀ done, collect' [] done = pure done.reverse)
    (hcons' : ∀ e es done, collect' (e :: es) done =
      request (r' e) >>= fun v => collect' es (v :: done))
    (hr : ∀ {R' : Pairing} {e e' : Node}, (∀ a b, R a b → R' a b) → Alike R' e e' →
      (r e).Matches R' (r' e'))
    {es es' done done' : List Node} (hm : s.Mirrors R pending t)
    (hes : List.Forall₂ (Alike R) es es') (hdone : List.Forall₂ (Alike R) done done') :
    Mimics settings limit pending (fun R => List.Forall₂ (Alike R)) R s t (collect es done)
      (collect' es' done') := by
  induction es generalizing es' done done' R s t with
  | nil =>
      cases hes
      rw [hnil, hnil']
      refine mimics_pure hm ?_
      exact List.forall₂_reverse_iff.mpr hdone
  | cons e es ih =>
      obtain ⟨e', es', he, hrest, rfl⟩ := List.forall₂_cons_left_iff.mp hes
      rw [hcons, hcons']
      refine mimics_bind (mimics_request hm (hr (fun _ _ h => h) he)) fun hm' hsub hv => ?_
      refine ih (fun hsub' => hr fun a b hab => hsub' a b (hsub a b hab)) hm' ?_ ?_
      · exact forall₂_mono hrest hsub
      · exact .cons hv (forall₂_mono hdone hsub)

theorem mimics_operands
    {env : FrameId} {es es' : List Node} (hm : s.Mirrors R pending t)
    (hes : List.Forall₂ (Alike R) es es') :
    Mimics settings limit pending (fun R => List.Forall₂ (Alike R)) R s t (operands env es [])
      (operands (env - 1) es' []) :=
  mimics_collect (fun _ => rfl) (fun _ _ _ => rfl) (fun _ => rfl) (fun _ _ _ => rfl)
    (fun _ he => .eval he) hm hes .nil

theorem mimics_applyEach
    {f f' : Node} {es es' : List Node} (hm : s.Mirrors R pending t) (hf : Alike R f f')
    (hes : List.Forall₂ (Alike R) es es') :
    Mimics settings limit pending (fun R => List.Forall₂ (Alike R)) R s t (applyEach f es [])
      (applyEach f' es' []) :=
  mimics_collect (fun _ => rfl) (fun _ _ _ => rfl) (fun _ => rfl) (fun _ _ _ => rfl)
    (fun hsub he => .apply (hf.mono hsub) (.cons he .nil)) hm hes .nil

theorem mimics_clauses
    {env : FrameId} {cs cs' : List (Node × Node)} (hm : s.Mirrors R pending t)
    (hcs : AlikeClauses R cs cs') :
    Mimics settings limit pending Alike R s t (clauses env cs) (clauses (env - 1) cs') := by
  induction cs generalizing cs' R s t with
  | nil =>
      cases hcs
      exact mimics_pure hm rfl
  | cons clause cs ih =>
      obtain ⟨test, result⟩ := clause
      obtain ⟨test', result', rest, htest, hresult, hcs, rfl⟩ := hcs
      refine mimics_bind (mimics_request hm (.eval htest)) fun hm' hsub hv => ?_
      split
      · cases hv
        exact mimics_request hm' (.eval (hresult.mono hsub))
      · cases hv
        exact ih hm' (hcs.mono hsub)
      · exact mimics_fault

end Loops

/-! ## Procedures -/

section Applications

variable {settings : Settings} {limit : Nat} {pending : List Text} {R : Pairing} {s t : State}

theorem mimics_newList
    {elements elements' : List Node} (hm : s.Mirrors R pending t)
    (helements : List.Forall₂ (Alike R) elements elements') :
    Mimics settings limit pending Alike R s t (newList elements) (newList elements') := by
  intro l cs v s' h _
  obtain ⟨rfl, rfl, rfl⟩ := makes_change.mp h
  have hnew : ∀ k < 1, ∀ j, ¬R (s.store.nextLabel + k) j := fun k _ j hj =>
    Nat.not_lt_of_le (Nat.le_add_right _ k) (hm.store.below hj).1
  have hstore := hm.store.extend hnew (Nat.le_add_right _ 1) (Nat.le_refl _)
  refine ⟨[], _, _, _, makes_change.mpr ⟨rfl, rfl, rfl⟩, ⟨hstore, hm.callers, hm.input, hm.output⟩,
    ⟨fun _ _ => .inl, ?_, Nat.le_add_right _ 1⟩, ?_⟩
  · rintro a b (hab | ⟨k, -, rfl, -⟩)
    · exact .inl hab
    · exact .inr (Nat.le_add_right _ k)
  · refine ⟨_, _, .inr ⟨0, Nat.zero_lt_one, rfl, rfl⟩, alikeAll_iff.mpr ?_, rfl⟩
    exact forall₂_mono helements fun _ _ => .inl

theorem mimics_map
    {wired : Bool} {args args' : List Node} (hm : s.Mirrors R pending t)
    (hargs : List.Forall₂ (Alike R) args args') :
    Mimics settings limit pending Alike R s t (map settings wired args)
      (map settings wired args') := by
  have hread := Procedure.agrees_functionAndList .map hargs
  refine mimics_attempt_bind hread fun x x' hx => ?_
  dsimp only
  split
  · refine mimics_bind (mimics_applyEach hm hx.1 hx.2) fun hm' _ hvs => ?_
    exact mimics_newList hm' hvs
  · exact mimics_fault

theorem mimics_print
    {line : Text} (hm : s.Mirrors R pending t) :
    Mimics settings limit pending Alike R s t (print settings line) (print settings line) := by
  unfold print
  split
  · exact mimics_fault
  · have hnext : (s.write settings (.printed line)).store.nextLabel = s.store.nextLabel :=
      congrArg Store.nextLabel (store_write settings _ s)
    exact mimics_update_bind hnext (mimics_pure (hm.write settings _) rfl)

/-- Reading depends on the input alone. -/
theorem mimics_input
    {m : Input → Input} {x : Input → Evaluation Node} (hm : s.Mirrors R pending t)
    (hx : ∀ input, (∃ text, x input = pure (.string text)) ∨ ∃ f, x input = fault f) :
    Mimics settings limit pending Alike R s t
      (change (fun s => (s.input, { s with input := m s.input })) >>= x)
      (change (fun s => (s.input, { s with input := m s.input })) >>= x) := by
  refine mimics_change_bind rfl ?_
  rw [hm.input]
  rcases hx s.input with ⟨text, htext⟩ | ⟨f, hf⟩
  · rw [htext]
    exact mimics_pure ⟨hm.store, hm.callers, rfl, hm.output⟩ rfl
  · rw [hf]
    exact mimics_fault

theorem mimics_readInput
    (hm : s.Mirrors R pending t) :
    Mimics settings limit pending Alike R s t readInput readInput := by
  refine mimics_input (m := fun input => { input with pending := [] }) hm fun input => ?_
  cases input.fault with
  | none => exact .inl ⟨_, rfl⟩
  | some cause => exact .inr ⟨_, rfl⟩

theorem mimics_readLine
    (hm : s.Mirrors R pending t) :
    Mimics settings limit pending Alike R s t readLine readLine := by
  refine mimics_input
    (m := fun input => { input with pending := (input.pending.dropWhile (· != 0x0A)).drop 1 })
    hm fun input => ?_
  dsimp only
  split
  · exact .inr ⟨_, rfl⟩
  · exact .inl ⟨_, rfl⟩

/-- A procedure that reads takes no arguments and reads nothing if it is not wired. -/
theorem mimics_reading
    {p : Procedure} {wired : Bool} {args args' : List Node} {x : Evaluation Node}
    (hm : s.Mirrors R pending t) (hargs : List.Forall₂ (Alike R) args args')
    (hx : Mimics settings limit pending Alike R s t x x) :
    Mimics settings limit pending Alike R s t
      (do let _ ← attempt (p.exactly args 0); if wired then x else pure (.string []))
      (do let _ ← attempt (p.exactly args' 0); if wired then x else pure (.string [])) := by
  refine mimics_attempt_bind (Procedure.agrees_exactly p hargs 0) fun _ _ _ => ?_
  split
  · exact hx
  · exact mimics_pure hm rfl

theorem compute?_eq_none
    {p : Procedure} {args : List Node} (h : p.compute? args = none) (args' : List Node) :
    p.compute? args' = none := by
  cases p <;> first | rfl | cases h

theorem mimics_callProcedure
    {p : Procedure} {wired : Bool} {args args' : List Node} (hm : s.Mirrors R pending t)
    (hargs : List.Forall₂ (Alike R) args args') :
    Mimics settings limit pending Alike R s t (callProcedure settings p wired args)
      (callProcedure settings p wired args') := by
  unfold callProcedure
  cases hcompute : p.compute? args with
  | some x =>
      obtain ⟨y, hcompute', hagrees⟩ := Procedure.agrees_compute hm.store.unique hargs hcompute
      rw [hcompute']
      refine mimics_attempt_bind hagrees fun answer answer' hanswer => ?_
      cases answer <;> cases answer'
      case value.value => exact mimics_pure hm hanswer
      case newList.newList => exact mimics_newList hm hanswer
      all_goals cases hanswer
  | none =>
      rw [compute?_eq_none hcompute args']
      cases p
      case print =>
        dsimp only
        rw [display_eq hargs]
        split
        · exact mimics_print hm
        · exact mimics_pure hm rfl
      case readInput => exact mimics_reading hm hargs (mimics_readInput hm)
      case readLine => exact mimics_reading hm hargs (mimics_readLine hm)
      case readFile =>
        refine mimics_attempt_bind (Procedure.agrees_oneString _ hargs) fun path _ hpath => ?_
        subst hpath
        split
        · exact mimics_update_bind rfl mimics_fault
        · exact mimics_pure hm rfl
      case map => exact mimics_map hm hargs
      all_goals cases hcompute

theorem mimics_applyFrom
    {f f' : Node} {args args' : List Node} (hm : s.Mirrors R pending t) (hf : Alike R f f')
    (hargs : List.Forall₂ (Alike R) args args') (caller : FrameId) :
    Mimics settings limit pending Alike R s t (applyFrom settings f args caller)
      (applyFrom settings f' args' (caller - 1)) := by
  cases f
  case procedure i name wired =>
    obtain ⟨j, -, rfl⟩ := hf
    simp only [applyFrom]
    split
    · exact mimics_withCaller caller (mimics_callProcedure (hm.pushCaller caller) hargs)
    · exact mimics_fault
  case lambda i xs body =>
    obtain ⟨j, body', hij, hbody, rfl⟩ := hf
    simp only [applyFrom, ← hargs.length_eq]
    split
    · refine mimics_read_bind (mimics_change_bind rfl ?_)
      rw [hm.parentFrame settings hij caller, hm.enclose_fst]
      have hm' := hm.enclose (parentFrame settings i caller s)
      have hbound : Store.Mirrors R pending (bindParameters _ (xs.zip args) _)
          (bindParameters _ (xs.zip args') _) :=
        mirrors_bindParameters hm'.store hm.store.inside hargs
      have hnext := congrArg Store.nextLabel (bindParameters_eq
        (s.enclose (parentFrame settings i caller s)).1 (xs.zip args)
        (s.enclose (parentFrame settings i caller s)).2.store)
      refine mimics_update_bind hnext (mimics_request (hm'.mapStore hbound) (.eval ?_))
      exact ⟨j, body', hij, hbody, rfl⟩
    · exact mimics_fault
  all_goals exact mimics_fault

end Applications

/-! ## Expressions -/

section Expressions

variable {settings : Settings} {limit : Nat} {pending : List Text} {R : Pairing} {s t : State}
  {env : FrameId}

theorem nextLabel_capture
    (settings : Settings) (x : Text) (v : Node) (id : FrameId) (s : State) :
    (capture settings x v id s).store.nextLabel = s.store.nextLabel := by
  unfold capture
  split
  · split <;> rfl
  · rfl

theorem makes_identifier
    {x : Text} {v : Node} (hv : s.store.get? env x = some v) (hreal : v.isPlaceholder = false) :
    (identifier x env).Makes settings limit s [] v s := by
  rw [identifier, makes_read_bind, hv]
  cases v
  case placeholder => cases hreal
  all_goals exact makes_pure.mpr ⟨rfl, rfl, rfl⟩

theorem mimics_identifier
    {x : Text} (hm : s.Mirrors R pending t) :
    Mimics settings limit pending Alike R s t (identifier x env) (identifier x (env - 1)) := by
  intro l cs v s' h hcs
  rw [identifier, makes_read_bind] at h
  split at h
  · exact (not_makes_fault h).elim
  · exact (not_makes_fault h).elim
  · rename_i u hplaceholder hu
    obtain ⟨rfl, rfl, rfl⟩ := makes_pure.mp h
    have hreal : u.isPlaceholder = false := by
      cases u <;> first | rfl | exact absurd rfl hplaceholder
    obtain ⟨w, hw, huw⟩ := hm.store.exists_of_get? hu hreal
    have hreal' : w.isPlaceholder = false := huw.isPlaceholder_eq.trans hreal
    exact ⟨[], w, t, R, makes_identifier hw hreal', hm, .refl _ _, huw⟩

theorem mimics_block
    {es es' : List Node} (hm : s.Mirrors R pending t) (hes : List.Forall₂ (Alike R) es es') :
    Mimics settings limit pending Alike R s t
      (do
        let inner ← change (·.enclose env)
        update (·.mapStore (declareAll inner es))
        statements inner es (.boolean false))
      (do
        let inner ← change (·.enclose (env - 1))
        update (·.mapStore (declareAll inner es'))
        statements inner es' (.boolean false)) := by
  refine mimics_change_bind rfl ?_
  rw [hm.enclose_fst]
  have hm' := hm.enclose env
  have hdeclared := mirrors_declareAll hm'.store hm.store.inside hes
  have hnext := congrArg Store.nextLabel
    (declareAll_eq (s.enclose env).1 es (s.enclose env).2.store)
  exact mimics_update_bind hnext (mimics_statements (hm'.mapStore hdeclared) hes rfl)

theorem mimics_letIn
    {i j : Label} {x : Text} {value value' : Node} {es es' : List Node}
    (hm : s.Mirrors R pending t) (hij : R i j) (hvalue : Alike R value value')
    (hes : AlikeAll R es es') :
    Mimics settings limit pending Alike R s t (evaluate settings (.letIn i x value es) env)
      (evaluate settings (.letIn j x value' es') (env - 1)) := by
  refine mimics_bind (mimics_request hm (.eval hvalue)) fun {R' v w s' t'} hm' hsub hvw => ?_
  refine mimics_change_bind rfl ?_
  rw [hm'.enclose_fst]
  have hinner : blockFrame < (s'.enclose env).1 := hm'.store.inside
  have hdefined := (hm'.enclose env).define (Store.Mirrors.ne_one_of_lt hinner)
    (Store.Mirrors.not_hidden_of_lt hinner x) hvw
  have hcaptured := hdefined.capture (x := x) settings hvw (s'.enclose env).1
  refine mimics_update_bind (nextLabel_capture _ _ _ _ _) (mimics_request hcaptured (.eval ?_))
  exact ⟨j, es', hsub i j hij, hes.mono hsub, rfl⟩

/-- A part that begins with a request, if what comes after it depends on the call
that the program has made for it. -/
theorem reaches_request_bind
    {l : Nat} {cs : List EvalCall} {v : Node} {s' : State} {r r' : Request}
    {f g : Node → Evaluation Node} (hm : s.Mirrors R pending t) (hr : r.Matches R r')
    (h : (request r >>= f).Makes settings l s cs v s')
    (hcs : ∀ d ∈ cs, Mimicked settings limit pending d)
    (hrest : ∀ {c : EvalCall} {rest : List EvalCall} {w w' : Node} {R' : Pairing} {t' : State},
      c ∈ cs → c.after.Mirrors R' pending t' → Alike R' w w' →
        (f w).Makes settings l c.after rest v s' →
          Reaches settings limit pending Alike R' c.after.store.nextLabel v s' t' (g w')) :
    Reaches settings limit pending Alike R s.store.nextLabel v s' t (request r' >>= g) := by
  obtain ⟨c, w, rest, rfl, rfl, rfl, hw, hmakes⟩ := exists_of_makes_request_bind h
  obtain ⟨w', R₁, hw', hm₁, hwidens₁, hww'⟩ := hcs c List.mem_cons_self hw hm hr
  obtain ⟨cs', v', t', R₂, hmakes', hm₂, hwidens₂, hvv'⟩ :=
    hrest List.mem_cons_self hm₁ hww' hmakes
  exact ⟨_, v', t', R₂, makes_bind.mpr ⟨_, w', _, cs',
    makes_request.mpr ⟨rfl, hw', rfl⟩, hmakes', rfl⟩, hm₂, hwidens₁.trans hwidens₂, hvv'⟩

theorem reaches_fillPlaceholder
    {l : Nat} {cs : List EvalCall} {v w w' : Node} {s' : State} {x : Text}
    (hm : s.Mirrors R pending t) (hw : Alike R w w') (hx : ¬Hidden pending env x)
    (hown : Reserved s.store.frames env x)
    (h : (fillPlaceholder settings x w env).Makes settings l s cs v s') :
    Reaches settings limit pending Alike R s.store.nextLabel v s' t
      (fillPlaceholder settings x w' (env - 1)) := by
  obtain ⟨hne, hown'⟩ := hm.store.reserved hown hx
  have htarget := Store.findPlaceholder?_of_reserved hown
  have htarget' := Store.findPlaceholder?_of_reserved hown'
  simp only [fillPlaceholder, makes_read_bind, htarget, makes_update_bind] at h
  obtain ⟨rfl, rfl, rfl⟩ := makes_pure.mp h
  have hnext : ((capture settings x w env s).mapStore (·.define env x w)).store.nextLabel =
      s.store.nextLabel := nextLabel_capture settings x w env s
  have hmakes : (fillPlaceholder settings x w' (env - 1)).Makes settings limit t [] w'
      ((capture settings x w' (env - 1) t).mapStore (·.define (env - 1) x w')) := by
    simp only [fillPlaceholder, makes_read_bind, htarget', makes_update_bind]
    exact makes_pure.mpr ⟨rfl, rfl, rfl⟩
  refine ⟨[], w', _, R, hmakes, (hm.capture settings hw env).define hne hx hw, ?_, hw⟩
  rw [hnext]
  exact .refl _ _

theorem reaches_assign
    {l : Nat} {cs : List EvalCall} {v w w' : Node} {s' : State} {x : Text}
    (hm : s.Mirrors R pending t) (hw : Alike R w w')
    (hspared : ∀ target, s.store.findBinding? env x = some target →
      ¬Reserved s.store.frames target x)
    (h : (assign x w env).Makes settings l s cs v s') :
    Reaches settings limit pending Alike R s.store.nextLabel v s' t
      (assign x w' (env - 1)) := by
  simp only [Evaluator.assign, makes_read_bind] at h
  split at h
  · exact (not_makes_fault h).elim
  · rename_i target htarget
    rw [makes_update_bind] at h
    obtain ⟨rfl, rfl, rfl⟩ := makes_pure.mp h
    have hx : ¬Hidden pending target x := fun hx =>
      hspared target htarget (hm.store.reserved_of_hidden hx)
    obtain ⟨hne, htarget'⟩ := hm.store.findBinding? htarget hx
    have hmakes : (assign x w' (env - 1)).Makes settings limit t [] w'
        (t.mapStore (·.define (target - 1) x w')) := by
      simp only [Evaluator.assign, makes_read_bind, htarget', makes_update_bind]
      exact makes_pure.mpr ⟨rfl, rfl, rfl⟩
    exact ⟨[], w', _, R, hmakes, hm.define hne hx hw, .refl _ _, hw⟩

/-- Every other expression. -/
theorem mimics_evaluate
    {e e' : Node} (hm : s.Mirrors R pending t) (he : Alike R e e')
    (hdefine : ∀ i x value, e ≠ .define i x value) (hassign : ∀ i x value, e ≠ .assign i x value) :
    Mimics settings limit pending Alike R s t (evaluate settings e env)
      (evaluate settings e' (env - 1)) := by
  have he' := he
  cases e
  case integer | string | boolean =>
    cases he
    exact mimics_pure hm he'
  case procedure =>
    obtain ⟨_, _, rfl⟩ := he
    exact mimics_pure hm he'
  case lambda | list =>
    obtain ⟨_, _, _, _, rfl⟩ := he
    exact mimics_pure hm he'
  case identifier x =>
    cases he
    exact mimics_identifier hm
  case block i es =>
    obtain ⟨j, es', -, hes, rfl⟩ := he
    exact mimics_block hm (alikeAll_iff.mp hes)
  case cond i cs =>
    obtain ⟨j, cs', -, hcs, rfl⟩ := he
    exact mimics_clauses hm hcs
  case letIn i x value es =>
    obtain ⟨j, value', es', hij, hvalue, hes, rfl⟩ := he
    exact mimics_letIn hm hij hvalue hes
  case apply i operator es =>
    obtain ⟨j, operator', es', -, hoperator, hes, rfl⟩ := he
    refine mimics_bind (mimics_request hm (.eval hoperator)) fun hm₁ hsub₁ hf => ?_
    refine mimics_bind (mimics_operands hm₁ (forall₂_mono (alikeAll_iff.mp hes) hsub₁))
      fun hm₂ hsub₂ hargs => ?_
    exact mimics_applyFrom hm₂ (hf.mono hsub₂) hargs env
  case define i x value => exact absurd rfl (hdefine i x value)
  case assign i x value => exact absurd rfl (hassign i x value)
  all_goals exact mimics_fault

end Expressions

/-! ## Calls -/

/-- What a call does to reservations when definitions land in their own blocks: a
definition finds its name reserved in its own frame, the definitions that a call
makes are made in the frame that is new, and an assignment does not write over a
reserved name. -/
structure Orderly (c : EvalCall) : Prop where
  own : ∀ i x value env, c.request = .eval (.define i x value) env →
    ∀ d ∈ c.calls, Reserved d.framesAfter env x
  direct : ∀ d ∈ c.calls, ∀ i x value env, d.request = .eval (.define i x value) env →
    env = c.framesBefore.size
  spared : ∀ i x value env, c.request = .eval (.assign i x value) env →
    ∀ d ∈ c.calls, ∀ target, d.after.store.findBinding? env x = some target →
      ¬Reserved d.framesAfter target x

variable {settings : Settings} {pending : List Text}

theorem reaches_body
    {limit l : Nat} {R : Pairing} {s s' t : State} {r r' : Request} {cs : List EvalCall} {v : Node}
    (htrace : settings.trace = false) (hm : s.Mirrors R pending t) (hr : r.Matches R r')
    (h : (body settings r).Makes settings l s cs v s')
    (hshown : ∀ i x value env, r = .eval (.define i x value) env → ¬Hidden pending env x)
    (hown : ∀ i x value env, r = .eval (.define i x value) env →
      ∀ d ∈ cs, Reserved d.framesAfter env x)
    (hspared : ∀ i x value env, r = .eval (.assign i x value) env →
      ∀ d ∈ cs, ∀ target, d.after.store.findBinding? env x = some target →
        ¬Reserved d.framesAfter target x)
    (hcs : ∀ d ∈ cs, Mimicked settings limit pending d) :
    Reaches settings limit pending Alike R s.store.nextLabel v s' t (body settings r') := by
  cases hr with
  | @eval e e' env he =>
      simp only [body, htrace, Bool.false_eq_true, if_false] at h ⊢
      cases e
      case define i x value =>
        obtain ⟨j, value', -, hvalue, rfl⟩ := he
        refine reaches_request_bind hm (.eval hvalue) h hcs fun hc hm' hw hrest => ?_
        exact reaches_fillPlaceholder hm' hw (hshown i x value env rfl)
          (hown i x value env rfl _ hc) hrest
      case assign i x value =>
        obtain ⟨j, value', -, hvalue, rfl⟩ := he
        refine reaches_request_bind hm (.eval hvalue) h hcs fun hc hm' hw hrest => ?_
        exact reaches_assign hm' hw (hspared i x value env rfl _ hc) hrest
      all_goals exact mimics_evaluate hm he (by simp) (by simp) h hcs
  | apply hf hargs =>
      simp only [body, makes_read_bind] at h
      cases hhead : s.callers.head? with
      | none =>
          rw [hhead] at h
          exact (not_makes_fault h).elim
      | some caller =>
          rw [hhead] at h
          have hhead' : t.callers.head? = some (caller - 1) := by
            rw [hm.callers, List.head?_map, hhead]
            rfl
          obtain ⟨cs', w, t', R', hmakes, hrest⟩ := mimics_applyFrom hm hf hargs caller h hcs
          refine ⟨cs', w, t', R', ?_, hrest⟩
          simp only [body, makes_read_bind, hhead']
          exact hmakes

theorem makes_of_call
    {l : Nat} {r : Request} {s : State} {v : Node}
    (hv : ((rules settings).call (l + 1) r s).outcome = .ok v) :
    (body settings r).Makes settings l s ((rules settings).call (l + 1) r s).calls v
      ((rules settings).call (l + 1) r s).after :=
  Prod.ext rfl (Prod.ext hv rfl)

theorem call_of_makes
    {limit : Nat} {r : Request} {t t' : State} {cs : List EvalCall} {w : Node}
    (h : (body settings r).Makes settings limit t cs w t') :
    (rules settings).call (limit + 1) r t = ⟨r, t, cs, .ok w, t'⟩ := by
  have hreplay : (body settings r t).replay ((rules settings).call limit) = (cs, .ok w, t') := h
  have hcall : (rules settings).call (limit + 1) r t =
      ⟨r, t, ((body settings r t).replay ((rules settings).call limit)).1,
        ((body settings r t).replay ((rules settings).call limit)).2.1,
        ((body settings r t).replay ((rules settings).call limit)).2.2⟩ := rfl
  rw [hcall, hreplay]

/-- Every call of the program is mimicked by the session, if requests of the session
may nest as deep. -/
theorem mimicked_call
    (htrace : settings.trace = false) {l limit : Nat} (hle : l ≤ limit) {r : Request} {s : State}
    (horderly : ∀ d, ((rules settings).call l r s).Contains d → Orderly d)
    (hshown : ∀ i x value env, r = .eval (.define i x value) env → ¬Hidden pending env x) :
    Mimicked settings limit pending ((rules settings).call l r s) := by
  induction l generalizing limit r s with
  | zero =>
      intro v R t r' hv
      cases hv
  | succ l ih =>
      intro v R t r' hv hm hr
      obtain ⟨limit, rfl⟩ : ∃ n, limit = n + 1 := Nat.exists_eq_succ_of_ne_zero (by omega)
      rw [Rules.call_before] at hm
      rw [Rules.call_request] at hr
      have hself := horderly _ .self
      -- the definitions that the call makes are made in a frame younger than the block
      have hcs : ∀ d ∈ ((rules settings).call (l + 1) r s).calls,
          Mimicked settings limit pending d := by
        intro d hd
        obtain ⟨r₁, s₁, rfl⟩ := Computation.exists_of_mem_replay _ hd
        refine ih (Nat.le_of_succ_le_succ hle) (fun c hc => ?_) fun i x value env hdefine => ?_
        · exact horderly c (Call.Contains.trans (.inner .self hd) hc)
        · have henv := hself.direct _ hd i x value env ((Rules.call_request ..).trans hdefine)
          rw [henv]
          exact Store.Mirrors.not_hidden_of_lt hm.store.inside x
      obtain ⟨cs', w, t', R', hmakes', hm', hwidens, hvw⟩ :=
        reaches_body htrace hm hr (makes_of_call hv) hshown hself.own hself.spared hcs
      rw [call_of_makes hmakes']
      exact ⟨w, R', rfl, hm', hwidens, hvw⟩

end Evaluator

end BlockLang
