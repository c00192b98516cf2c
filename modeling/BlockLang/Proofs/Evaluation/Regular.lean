import BlockLang.Proofs.Evaluation.Forms

/-!
# Regular calls

In a run of a program every result is a value and every name is either reserved or
bound to a value. A call that starts so and succeeds also ends so, and the calls
that it makes start so and succeed. Such calls are regular, and so are all calls
within a regular one.
-/

namespace BlockLang

/-- Every name is reserved or bound to a value. -/
def Proper (fs : Array Frame) : Prop :=
  ∀ f ∈ fs, ∀ x v, f.get? x = some v → v = .placeholder ∨ IsValue v

theorem proper_push
    {fs : Array Frame} {f : Frame} (hfs : Proper fs)
    (hf : ∀ x v, f.get? x = some v → v = .placeholder ∨ IsValue v) :
    Proper (fs.push f) := by
  intro g hg
  rcases Array.mem_push.mp hg with hg | rfl
  · exact hfs g hg
  · exact hf

theorem proper_define
    {fs : Array Frame} {v : Node} (hfs : Proper fs) (hv : IsValue v) (id : FrameId) (x : Text) :
    Proper (fs.modify id (·.define x v)) := by
  intro g hg y w hw
  obtain ⟨i, hi⟩ := Array.mem_iff_getElem?.mp hg
  rw [Array.getElem?_modify] at hi
  split at hi
  · obtain ⟨f, hf, rfl⟩ := Option.map_eq_some_iff.mp hi
    rw [Frame.get?_define] at hw
    split at hw
    · cases hw
      exact .inr hv
    · exact hfs f (Array.mem_of_getElem? hf) y w hw
  · exact hfs g (Array.mem_of_getElem? hi) y w hw

/-- A request for an expression without lists or about values. -/
def Request.IsProper : Request → Prop
  | .eval e _ => e.within Head.notList
  | .apply f args => IsValue f ∧ ∀ a ∈ args, IsValue a

namespace Call

/-- A call starts with a proper request in proper frames. -/
def Begins (c : EvalCall) : Prop :=
  c.request.IsProper ∧ Proper c.framesBefore

/-- A call leads to a value and proper frames, if it succeeds. -/
def Ends (c : EvalCall) : Prop :=
  ∀ v, c.outcome = .ok v → IsValue v ∧ Proper c.framesAfter

end Call

/-! ## One request -/

variable {fs fs' : Array Frame} {cs : List EvalCall} {vs : List Node} {v : Node}

theorem Chain.succeeds
    (hchain : Chain fs cs vs fs') :
    ∀ c ∈ cs, ∃ w, c.outcome = .ok w := by
  induction hchain with
  | nil => simp
  | cons hv _ ih => exact List.forall_mem_cons.mpr ⟨⟨_, hv⟩, ih⟩

theorem Chain.proper
    (hchain : Chain fs cs vs fs') (hfs : Proper fs)
    (hrequests : ∀ c ∈ cs, c.request.IsProper) (ih : ∀ c ∈ cs, c.Begins → c.Ends) :
    ((∀ v ∈ vs, IsValue v) ∧ Proper fs') ∧ ∀ c ∈ cs, c.Begins := by
  induction hchain with
  | nil => exact ⟨⟨by simp, hfs⟩, by simp⟩
  | @cons c v cs vs fs hv _ hcs =>
      have hbegins : c.Begins := ⟨hrequests c List.mem_cons_self, hfs⟩
      obtain ⟨hvalue, hafter⟩ := ih c List.mem_cons_self hbegins v hv
      obtain ⟨⟨hvs, hfs⟩, hall⟩ := hcs hafter
        (fun d hd => hrequests d (List.mem_cons_of_mem _ hd))
        (fun d hd => ih d (List.mem_cons_of_mem _ hd))
      exact ⟨⟨List.forall_mem_cons.mpr ⟨hvalue, hvs⟩, hfs⟩,
        List.forall_mem_cons.mpr ⟨hbegins, hall⟩⟩

/-- The requests of a row of calls are proper if they are made for proper
expressions. -/
theorem proper_of_map_request
    {α : Type} {as : List α} {r : α → Request}
    (hcs : cs.map Call.request = as.map r) (has : ∀ a ∈ as, (r a).IsProper) :
    ∀ c ∈ cs, c.request.IsProper := by
  intro c hc
  obtain ⟨a, ha, heq⟩ := exists_of_map_request hcs hc
  exact heq ▸ has a ha

namespace Evaluator

theorem Applies.proper
    {f : Node} {args : List Node} (h : Applies f args fs cs v fs') (hfs : Proper fs)
    (hf : IsValue f) (hargs : ∀ a ∈ args, IsValue a) (ih : ∀ c ∈ cs, c.Begins → c.Ends) :
    (IsValue v ∧ Proper fs') ∧ ∀ c ∈ cs, c.Begins := by
  cases h with
  | procedure hv => exact ⟨⟨hv hargs, hfs⟩, by simp⟩
  | @map _ _ i j g elements vs hlist hcs hchain =>
      subst hlist
      have hg : IsValue g := hargs g (by simp)
      have helements : ∀ a ∈ elements, IsValue a := by
        cases hargs (.list i elements) (by simp)
        assumption
      have hrequests := proper_of_map_request hcs fun a ha =>
        ⟨hg, List.forall_mem_singleton.mpr (helements a ha)⟩
      obtain ⟨⟨hvs, hfs'⟩, hbegins⟩ := hchain.proper hfs hrequests ih
      exact ⟨⟨.list j hvs, hfs'⟩, hbegins⟩
  | @lambda i xs body frame c _ hlambda hframe hc hpush hv =>
      subst hlambda
      have hbody : Expr.withinAll Head.notList body := by
        cases hf
        assumption
      have hbegins : c.Begins := by
        refine ⟨?_, ?_⟩
        · rw [hc]
          exact hbody
        · rw [hpush]
          exact proper_push hfs fun x w hw => .inr (hargs w (hframe x w hw))
      exact ⟨ih c (by simp) hbegins v hv, List.forall_mem_singleton.mpr hbegins⟩

/-- A proper request in proper frames leads to a value and proper frames, if the
calls it makes do. -/
theorem Form.proper
    {r : Request} {s : Store} (h : Form r s cs v fs) (hr : r.IsProper) (hs : Proper s.frames)
    (ih : ∀ c ∈ cs, c.Begins → c.Ends) :
    (IsValue v ∧ Proper fs) ∧ ∀ c ∈ cs, c.Begins := by
  cases h with
  | literal he => exact ⟨⟨isValueOf_of_isLiteral rfl he hr, hs⟩, by simp⟩
  | identifier hget hv =>
      obtain ⟨f, hf, hbinding⟩ := Store.exists_of_get? hget
      rcases hs f hf _ _ hbinding with rfl | hvalue
      · cases hv
      · exact ⟨⟨hvalue, hs⟩, by simp⟩
  | @block i es vs env _ frame _ _ _ hframe hcs hchain hv =>
      -- the frame of a block binds nothing but placeholders at first
      have hpush : Proper (s.frames.push frame) := by
        refine proper_push hs fun x w hw => .inl ?_
        rw [hframe] at hw
        split at hw <;> cases hw
        rfl
      have hrequests := proper_of_map_request hcs (Expr.withinAll_iff.mp hr)
      obtain ⟨⟨hvs, hfs⟩, hbegins⟩ := hchain.proper hpush hrequests ih
      refine ⟨⟨?_, hfs⟩, hbegins⟩
      rcases hv with rfl | hv
      · exact .boolean false
      · exact hvs v hv
  | @cond i clauses env _ _ vs _ _ hcs hchain hv =>
      have hclauses := Expr.withinClauses_iff.mp hr
      have hrequests : ∀ c ∈ cs, c.request.IsProper := by
        intro c hc
        obtain ⟨clause, hmem, hrequest | hrequest⟩ := hcs c hc
        · rw [hrequest]
          exact (hclauses clause hmem).1
        · rw [hrequest]
          exact (hclauses clause hmem).2
      obtain ⟨⟨hvs, hfs⟩, hbegins⟩ := hchain.proper hs hrequests ih
      refine ⟨⟨?_, hfs⟩, hbegins⟩
      rcases hv with rfl | hv
      · exact .boolean false
      · exact hvs v hv
  | @letIn i x value body env _ frame c d w _ hc hbefore hw hframe hd hpush hv =>
      have hfree := Bool.and_eq_true_iff.mp hr
      have hbegins : c.Begins := ⟨hc ▸ hfree.1, hbefore ▸ hs⟩
      obtain ⟨hvalue, hafter⟩ := ih c (by simp) hbegins w hw
      have hbegins' : d.Begins := by
        refine ⟨hd ▸ hfree.2, ?_⟩
        rw [hpush]
        exact proper_push hafter fun y u hu => .inr (hframe y u hu ▸ hvalue)
      refine ⟨ih d (by simp) hbegins' v hv, ?_⟩
      simp [hbegins, hbegins']
  | @define i x value env target _ c _ hc hbefore hv htarget =>
      have hbegins : c.Begins := ⟨hc ▸ hr, hbefore ▸ hs⟩
      obtain ⟨hvalue, hafter⟩ := ih c (by simp) hbegins v hv
      exact ⟨⟨hvalue, proper_define hafter hvalue target x⟩, by simp [hbegins]⟩
  | @assign i x value env target _ c _ hc hbefore hv htarget =>
      have hbegins : c.Begins := ⟨hc ▸ hr, hbefore ▸ hs⟩
      obtain ⟨hvalue, hafter⟩ := ih c (by simp) hbegins v hv
      exact ⟨⟨hvalue, proper_define hafter hvalue target x⟩, by simp [hbegins]⟩
  | @apply i operator f es args env _ front back _ mid _ hcs hchain happlies =>
      have hfree := Bool.and_eq_true_iff.mp hr
      have hparts : ∀ e ∈ operator :: es, e.within Head.notList :=
        List.forall_mem_cons.mpr ⟨hfree.1, Expr.withinAll_iff.mp hfree.2⟩
      obtain ⟨⟨hvs, hmid⟩, hfront⟩ := hchain.proper hs (proper_of_map_request hcs hparts)
        fun c hc => ih c (List.mem_append_left _ hc)
      obtain ⟨hf, hargs⟩ := List.forall_mem_cons.mp hvs
      obtain ⟨hend, hback⟩ := happlies.proper hmid hf hargs
        fun c hc => ih c (List.mem_append_right _ hc)
      exact ⟨hend, fun c hc => (List.mem_append.mp hc).elim (hfront c) (hback c)⟩
  | request happlies => exact happlies.proper hs hr.1 hr.2 ih

theorem Applies.succeeds
    {f : Node} {args : List Node} (h : Applies f args fs cs v fs') :
    ∀ c ∈ cs, ∃ w, c.outcome = .ok w := by
  cases h with
  | procedure => simp
  | map _ _ hchain => exact hchain.succeeds
  | lambda _ _ _ _ hv => exact List.forall_mem_singleton.mpr ⟨v, hv⟩

/-- A request succeeds only if all the calls that it makes succeed. -/
theorem Form.succeeds
    {r : Request} {s : Store} (h : Form r s cs v fs) :
    ∀ c ∈ cs, ∃ w, c.outcome = .ok w := by
  cases h with
  | literal | identifier => simp
  | block _ _ hchain | cond _ hchain => exact hchain.succeeds
  | letIn _ _ hw _ _ _ hv => simp [hw, hv]
  | define _ _ hv | assign _ _ hv => simp [hv]
  | apply _ hchain happlies =>
      intro c hc
      exact (List.mem_append.mp hc).elim (hchain.succeeds c) (happlies.succeeds c)
  | request happlies => exact happlies.succeeds

/-! ## All requests of a run -/

/-- A call that the rules account for, that starts with a proper request in
proper frames and succeeds. -/
structure Regular (settings : Settings) (c : EvalCall) : Prop where
  governed : (rules settings).Governs c
  begins : c.Begins
  succeeds : ∃ v, c.outcome = .ok v

variable {settings : Settings}

theorem ends_of_begins
    (c : EvalCall) :
    (rules settings).Governs c → c.Begins → c.Ends := by
  induction c using Call.induction with
  | step c ih =>
      intro hc hbegins v hv
      have hform := form_of_governs hc hv
      exact (hform.proper hbegins.1 hbegins.2 fun d hd => ih d hd (hc.of_mem hd)).1

namespace Regular

variable {c d : EvalCall}

theorem form
    (h : Regular settings c) :
    ∃ v, c.outcome = .ok v ∧ IsValue v ∧ Form c.request c.before.store c.calls v c.framesAfter := by
  obtain ⟨v, hv⟩ := h.succeeds
  exact ⟨v, hv, (ends_of_begins c h.governed h.begins v hv).1, form_of_governs h.governed hv⟩

theorem isValue
    (h : Regular settings c) (hv : c.outcome = .ok v) :
    IsValue v :=
  (ends_of_begins c h.governed h.begins v hv).1

theorem of_mem
    (h : Regular settings c) (hd : d ∈ c.calls) :
    Regular settings d := by
  obtain ⟨v, -, -, hform⟩ := h.form
  have hends : ∀ d ∈ c.calls, d.Begins → d.Ends :=
    fun d hd => ends_of_begins d (h.governed.of_mem hd)
  exact ⟨h.governed.of_mem hd, (hform.proper h.begins.1 h.begins.2 hends).2 d hd,
    hform.succeeds d hd⟩

theorem of_contains
    (h : Regular settings c) (hd : c.Contains d) :
    Regular settings d := by
  induction hd with
  | self => exact h
  | inner _ hmem ih => exact ih.of_mem hmem

end Regular

end Evaluator

end BlockLang
