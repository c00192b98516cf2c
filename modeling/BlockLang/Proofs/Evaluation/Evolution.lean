import BlockLang.Proofs.Evaluation.Outcomes
import BlockLang.Proofs.Session.Steps

/-!
# The evolution of the store

Whatever the outcome of an evaluation, it leaves every frame where it was and with
the names it had, takes no value away and moves no captured frame. So a name is
found in the same frame before and after, and the ways outward from a frame stay
the same. A block that succeeds has filled all its reservations.
-/

namespace BlockLang

namespace Evaluator

/-! ## Blocks fill their reservations -/

/-- However a definition finds a reservation, afterwards its name is not reserved
in the frame it is made in. -/
theorem not_reserved_of_define
    {settings : Settings} {c : EvalCall} {v : Node} {x : Text} {i : Label} {value : Node}
    {env : FrameId} (hc : (rules settings).Governs c) (hv : c.outcome = .ok v)
    (hvalue : v.isPlaceholder = false) (hr : c.request = .eval (.define i x value) env) :
    ¬Reserved c.framesAfter env x := by
  have hform := form_of_governs hc hv
  rw [hr] at hform
  obtain ⟨d, target, -, -, -, -, htarget, hafter⟩ := hform.exists_target
  rw [hafter, reserved_define hvalue]
  rintro ⟨hreserved, hother⟩
  have hown := Store.findPlaceholder?_of_reserved (s := d.after.store) hreserved
  cases htarget.symm.trans hown
  exact hother ⟨rfl, rfl⟩

theorem not_reserved_of_chain
    {fs fs' : Array Frame} {cs : List EvalCall} {vs : List Node} {frame : FrameId} {x : Text}
    (h : Chain fs cs vs fs') (hcs : ∀ c ∈ cs, c.before.store.Grows c.after.store)
    (hframe : frame < fs.size)
    (hdefined : Reserved fs frame x → ∃ c ∈ cs, ¬Reserved c.framesAfter frame x) :
    ¬Reserved fs' frame x := by
  induction h with
  | nil =>
      intro hreserved
      obtain ⟨c, hc, -⟩ := hdefined hreserved
      cases hc
  | @cons c v cs vs fs' hv _ ih =>
      obtain ⟨hgrows, hcs⟩ := List.forall_mem_cons.mp hcs
      refine ih hcs (Nat.lt_of_lt_of_le hframe hgrows.size_le) fun hreserved => ?_
      obtain ⟨d, hd, hnot⟩ := hdefined (hgrows.reserved hframe hreserved)
      rcases List.mem_cons.mp hd with rfl | hd
      · exact absurd hreserved hnot
      · exact ⟨d, hd, hnot⟩

end Evaluator

/-! ## Reachable states -/

/-- The states that evaluations meet. They come from the first state of a session
by loading trees, by reserving names and giving them back, and by evaluating what
lifting leads to, from the beginning or the end of any call on the way. -/
inductive Reachable (settings : Settings) : State → Prop where
  | start (input : Input) : Reachable settings (Session.start settings input).state
  | load {s : State} (hs : Reachable settings s) (e : Source) :
      Reachable settings (Session.loadTree s e).2
  | reserve {s : State} (hs : Reachable settings s) (frame : FrameId) (e : Node) :
      Reachable settings (Session.reserve frame e s)
  | restore {s t : State} (hs : Reachable settings s) (ht : Reachable settings t)
      (frame : FrameId) (x : Text) :
      Reachable settings
        (t.mapStore (Session.restore frame x (s.store.getLocal? frame x)))
  | before {s : State} {e₀ e : Source} {next : Label} {env : FrameId} {c : EvalCall}
      (hs : Reachable settings s) (hlift : e₀.lift = (e, none)) (henv : env < s.store.frames.size)
      (hc : ((Evaluator.rules settings).call (settings.limit - s.depth)
        (.eval (e.labelled next).1 env) s).Contains c) :
      Reachable settings c.before
  | after {s : State} {e₀ e : Source} {next : Label} {env : FrameId} {c : EvalCall}
      (hs : Reachable settings s) (hlift : e₀.lift = (e, none)) (henv : env < s.store.frames.size)
      (hc : ((Evaluator.rules settings).call (settings.limit - s.depth)
        (.eval (e.labelled next).1 env) s).Contains c) :
      Reachable settings c.after

namespace Evaluator

theorem isVocabulary_notList : IsVocabulary Head.notList :=
  ⟨rfl, rfl⟩

/-- Every call of an evaluation of what lifting leads to keeps the contract. -/
theorem contract_of_contains
    {settings : Settings} {s : State} {e₀ e : Source} {next : Label} {env : FrameId}
    {c : EvalCall} (hs : s.WellFormed settings Head.notList) (hlift : e₀.lift = (e, none))
    (henv : env < s.store.frames.size)
    (hc : ((rules settings).call (settings.limit - s.depth) (.eval (e.labelled next).1 env)
      s).Contains c) :
    (rules settings).Governs c ∧ (contract settings Head.notList).pre c.request c.before ∧
      (contract settings Head.notList).post c := by
  refine (honours_contract isVocabulary_notList).of_contains (Rules.governs_call _ _ _ _) ?_ hc
  rw [Rules.call_request, Rules.call_before]
  refine ⟨hs, ?_, henv⟩
  rw [Expr.within_labelled]
  exact within_notList_of_lift hlift

end Evaluator

theorem Reachable.wellFormed
    {settings : Settings} {s : State} (hs : Reachable settings s) :
    s.WellFormed settings Head.notList := by
  induction hs with
  | start input => exact Session.wellFormed_start (fun _ => rfl) settings input
  | load _ e ih => exact Session.wellFormed_loadTree ih e
  | reserve _ frame e ih => exact Session.wellFormed_reserve ih frame e
  | restore _ _ frame x ihs iht =>
      exact Session.wellFormed_restore iht frame x fun v => Session.isValueOf_getLocal? ihs
  | before _ hlift henv hc ih =>
      obtain ⟨-, hpre, -⟩ := Evaluator.contract_of_contains ih hlift henv hc
      exact hpre.1
  | after _ hlift henv hc ih =>
      obtain ⟨-, -, hpost⟩ := Evaluator.contract_of_contains ih hlift henv hc
      exact hpost.proceeds.wellFormed

/-- A source that is evaluated in a session leads from reachable states to
reachable states. -/
theorem Reachable.eval
    {s : Session} (hs : Reachable s.settings s.state)
    (hframe : s.frame < s.state.store.frames.size) (source : Text) :
    Reachable s.settings (s.eval source).2.state := by
  cases hcompile : compile source with
  | error f =>
      rw [Session.eval, hcompile]
      exact hs
  | ok e =>
      obtain ⟨e₀, -, hlift⟩ := exists_of_compile hcompile
      have hreserved := (hs.load e).reserve s.frame (Session.loadTree s.state e).1
      have hexists : s.frame < (Session.reserve s.frame (Session.loadTree s.state e).1
          (Session.loadTree s.state e).2).store.frames.size := by
        rw [Session.size_reserve]
        exact hframe
      have hafter : Reachable s.settings (s.call e).after := by
        have hdepth := (Session.balanced_reserve s.frame (Session.loadTree s.state e).1
          (Session.loadTree s.state e).2).depth
        have hself : ((Evaluator.rules s.settings).call (s.settings.limit - s.state.depth)
            (.eval (e.labelled s.state.store.nextLabel).1 s.frame) _).Contains (s.call e) := .self
        exact hreserved.after hlift hexists (hdepth ▸ hself)
      rw [s.eval_eq hcompile, Session.settle]
      split
      · exact hs.restore hafter _ _
      · exact hafter

/-! ## Evolution -/

theorem Store.Grows.outward
    {s t : Store} (h : s.Grows t) {id : FrameId} {path : List FrameId} (hpath : s.Outward id path) :
    t.Outward id path := by
  induction hpath with
  | last hf houter =>
      obtain ⟨g, hg, hgrows⟩ := h.frames _ _ hf
      exact .last hg (hgrows.outer.trans houter)
  | step hf houter _ ih =>
      obtain ⟨g, hg, hgrows⟩ := h.frames _ _ hf
      exact .step hg (hgrows.outer.trans houter) ih

/-- How a call changes the store, whatever its outcome. Frames stay where they are
with the names they have, and values do not become reservations. Lambdas keep the
frames they have captured, and capture none unless scoping is lexical. So names
are found where they were found before. The way outward from a frame ends, meets
no frame twice and stays the same. A block that succeeds leaves nothing reserved
in its frame. -/
structure Evolves (settings : Settings) (c : EvalCall) : Prop where
  frames : ∀ (id : FrameId) (f : Frame), c.before.store.frames[id]? = some f →
    ∃ g, c.after.store.frames[id]? = some g ∧ g.outer = f.outer ∧
      g.bindings.map (·.1) = f.bindings.map (·.1) ∧
      ∀ x v, f.get? x = some v → v.isPlaceholder = false →
        ∃ w, g.get? x = some w ∧ w.isPlaceholder = false
  captures : ∀ label id, c.before.store.captured? label = some id →
    c.after.store.captured? label = some id
  dynamic : settings.lexical = false → ∀ label, c.after.store.captured? label = none
  finds : ∀ id, id < c.before.store.frames.size → ∀ x,
    c.after.store.findBinding? id x = c.before.store.findBinding? id x
  outward : ∀ id, id < c.after.store.frames.size →
    ∃ path, c.after.store.Outward id path ∧ path.Nodup ∧
      (id < c.before.store.frames.size → c.before.store.Outward id path)
  fills : ∀ i es env v, c.request = .eval (.block i es) env → c.outcome = .ok v →
    ∀ x, ¬Reserved c.after.store.frames (c.before.enclose env).1 x

theorem exists_outward_of_proceeds
    {settings : Settings} {p : Head → Bool} {s t : State} (hs : s.WellFormed settings p)
    (h : s.Proceeds settings p t) (id : FrameId) (hid : id < t.store.frames.size) :
    ∃ path, t.store.Outward id path ∧ path.Nodup ∧
      (id < s.store.frames.size → s.store.Outward id path) := by
  by_cases hold : id < s.store.frames.size
  · obtain ⟨path, hpath, hnodup⟩ := hs.ordered.exists_outward id hold
    exact ⟨path, h.grows.outward hpath, hnodup, fun _ => hpath⟩
  · obtain ⟨path, hpath, hnodup⟩ := h.wellFormed.ordered.exists_outward id hid
    exact ⟨path, hpath, hnodup, fun hnew => absurd hnew hold⟩

/-- A block that succeeds leaves nothing reserved in its own frame if its calls
keep the contract. -/
theorem not_reserved_of_block
    {settings : Settings} {p : Head → Bool} {c : EvalCall} {i : Label} {es : List Node}
    {env : FrameId} {v : Node} (hgoverned : (Evaluator.rules settings).Governs c)
    (hr : c.request = .eval (.block i es) env) (hv : c.outcome = .ok v)
    (hcalls : ∀ d ∈ c.calls, (Evaluator.contract settings p).post d) (x : Text) :
    ¬Reserved c.framesAfter c.framesBefore.size x := by
  have hform := Evaluator.form_of_governs hgoverned hv
  rw [hr] at hform
  obtain ⟨frame, vs, hframe, hrequests, hchain⟩ := hform.exists_frame
  refine Evaluator.not_reserved_of_chain hchain (fun d hd => (hcalls d hd).proceeds.grows) ?_ ?_
  · rw [Array.size_push]
    exact Nat.lt_succ_self _
  · intro hreserved
    have hx : x ∈ definitions c.calls := by
      rw [definitions_eq_definedNames hrequests, ← hframe]
      rcases reserved_push.mp hreserved with h | h
      · exact h.2
      · exact absurd h (not_reserved_of_size_le (Nat.le_refl _))
    obtain ⟨d, hd, hname⟩ := List.mem_filterMap.mp hx
    obtain ⟨i, value, env', hdefine⟩ := Request.eq_of_definedName? hname
    obtain ⟨_, -, hmade⟩ := exists_of_map_request hrequests hd
    cases hmade.symm.trans hdefine
    obtain ⟨w, hw⟩ := hchain.succeeds d hd
    have hvalue := ((hcalls d hd).value w hw).isPlaceholder_eq_false
    exact ⟨d, hd, Evaluator.not_reserved_of_define (hgoverned.of_mem hd) hw hvalue hdefine⟩

/-- For every outcome of an evaluation, the store evolves in this way in each of
its calls. -/
theorem eval_evolves_store
    {settings : Settings} {s : State} {e₀ e : Source} {env : FrameId}
    (hs : Reachable settings s) (hlift : e₀.lift = (e, none)) (henv : env < s.store.frames.size)
    (next : Label) :
    let root := (Evaluator.rules settings).call (settings.limit - s.depth)
      (.eval (e.labelled next).1 env) s
    Evaluator.eval settings (e.labelled next).1 env s = (root.outcome, root.after) ∧
      ∀ c, root.Contains c → Evolves settings c := by
  intro root
  refine ⟨?_, fun c hc => ?_⟩
  · rw [Evaluator.eval_eq_perform, ← Rules.call_eq_perform]
  obtain ⟨hgoverned, ⟨hbefore, -⟩, hpost⟩ :=
    Evaluator.contract_of_contains hs.wellFormed hlift henv hc
  have hgrows := hpost.proceeds.grows
  refine ⟨fun id f hf => ?_, hgrows.captures, fun hdynamic label => ?_,
    fun id hid x => hgrows.findBinding?_eq x id hid,
    exists_outward_of_proceeds hbefore hpost.proceeds, fun i es env v hr hv x => ?_⟩
  · obtain ⟨g, hg, hframe⟩ := hgrows.frames id f hf
    exact ⟨g, hg, hframe.outer, hframe.names, fun x v => hframe.exists_value⟩
  · cases hcaptured : c.after.store.captured? label with
    | none => rfl
    | some id =>
        obtain ⟨hlexical, -⟩ := hpost.proceeds.wellFormed.captured label id hcaptured
        cases hdynamic.symm.trans hlexical
  · refine not_reserved_of_block (p := Head.notList) hgoverned hr hv (fun d hd => ?_) x
    obtain ⟨-, -, hd⟩ := Evaluator.contract_of_contains hs.wellFormed hlift henv (.inner hc hd)
    exact hd

/-- Two functions that are defined one after the other. The second one assigns to
the name of the first one and then fails. -/
def mutualCalls : Source :=
  .block ()
    [.define () "f" (.lambda () ["n"] [.apply () (.identifier "g") [.identifier "n"]]),
     .define () "g" (.lambda () ["n"] [.assign () "f" (.identifier "h"), .identifier "m"]),
     .apply () (.identifier "f") [.integer 1]]

theorem mutualCalls_evolves_store :
    let s := (runProgram dynamicSettings ⟨[], none⟩ "def h = lambda (k) \x7b k \x7d").2.state
    let root := (Evaluator.rules dynamicSettings).call (dynamicSettings.limit - s.depth)
      (.eval (mutualCalls.labelled s.store.nextLabel).1 1) s
    Reachable dynamicSettings s ∧ mutualCalls.lift = (mutualCalls, none) ∧
      1 < s.store.frames.size ∧
      Evaluator.eval dynamicSettings (mutualCalls.labelled s.store.nextLabel).1 1 s =
        (root.outcome, root.after) ∧
      ∀ c, root.Contains c → Evolves dynamicSettings c := by
  intro s root
  have hs : Reachable dynamicSettings s :=
    Reachable.eval (s := Session.start dynamicSettings ⟨[], none⟩) (.start _)
      (Nat.lt_succ_self 1) _
  have hlift : mutualCalls.lift = (mutualCalls, none) := rfl
  have henv : 1 < s.store.frames.size := by
    simp only [s, runProgram, Session.eval_eq_call]
    decide +kernel
  exact ⟨hs, hlift, henv, eval_evolves_store hs hlift henv _⟩

end BlockLang
