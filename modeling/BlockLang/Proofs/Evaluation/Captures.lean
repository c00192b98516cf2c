import BlockLang.Proofs.Evaluation.Assembly
import BlockLang.Proofs.Evaluation.Forms

/-!
# Captured frames

A lambda captures the frame in which a definition or a let binds it, unless it has
captured one before. All other requests leave the captured frames alone, apart from
what the calls do that they lead to. So a captured frame stays captured, and each one
goes back to a definition or a let that has bound the lambda there when it had none.
The calls may fail: what is said here holds for every outcome.
-/

namespace BlockLang

/-! ## All outcomes -/

namespace Evaluation

variable {β γ : Type} {settings : Settings} {limit : Nat} {calls : List EvalCall}
  {s s' : State}

/-- From a state, a part of an evaluation makes these calls and comes to this
outcome. -/
def Runs (settings : Settings) (limit : Nat) (x : Evaluation β) (s : State)
    (calls : List EvalCall) (outcome : Except Fault β) (s' : State) : Prop :=
  (x s).replay ((Evaluator.rules settings).call limit) = (calls, outcome, s')

variable {outcome : Except Fault β}

theorem runs_done
    {o : Except Fault β} {t : State} {x : Evaluation β} (hx : x s = .done o t)
    (h : x.Runs settings limit s calls outcome s') :
    calls = [] ∧ outcome = o ∧ s' = t := by
  rw [Runs, hx] at h
  cases h
  exact ⟨rfl, rfl, rfl⟩

theorem runs_request
    {r : Request} {outcome : Except Fault Node}
    (h : (request r).Runs settings limit s calls outcome s') :
    ∃ c : EvalCall, calls = [c] ∧ c.request = r ∧ c.before = s ∧ c.outcome = outcome ∧
      c.after = s' := by
  cases h
  exact ⟨_, rfl, Rules.call_request .., Rules.call_before .., rfl, rfl⟩

theorem runs_read_bind
    {f : State → β} {x : β → Evaluation γ} {outcome : Except Fault γ} :
    (read f >>= x).Runs settings limit s calls outcome s' ↔
      (x (f s)).Runs settings limit s calls outcome s' :=
  Iff.rfl

theorem runs_bind
    {x : Evaluation β} {f : β → Evaluation γ} {outcome : Except Fault γ}
    (h : (x >>= f).Runs settings limit s calls outcome s') :
    (∃ e, x.Runs settings limit s calls (.error e) s' ∧ outcome = .error e) ∨
      ∃ first b mid rest, x.Makes settings limit s first b mid ∧
        (f b).Runs settings limit mid rest outcome s' ∧ calls = first ++ rest := by
  have hreplay : ((x s).andThen f).replay ((Evaluator.rules settings).call limit) =
      (calls, outcome, s') := h
  rcases Computation.replay_andThen (f := f) (x s) with ⟨e, he, hall⟩ | ⟨b, hb, hall⟩
  · cases hall.symm.trans hreplay
    exact .inl ⟨e, Prod.ext rfl (Prod.ext he rfl), rfl⟩
  · obtain ⟨hcalls, hrest⟩ := Prod.mk.inj (hall.symm.trans hreplay)
    exact .inr ⟨_, b, _, _, Prod.ext rfl (Prod.ext hb rfl), Prod.ext rfl hrest, hcalls.symm⟩

/-- A request comes first: it fails, or the rest goes on with its result. -/
theorem runs_request_bind
    {r : Request} {f : Node → Evaluation β}
    (h : (request r >>= f).Runs settings limit s calls outcome s') :
    ∃ (c : EvalCall) (rest : List EvalCall), calls = c :: rest ∧ c.request = r ∧ c.before = s ∧
      ((∃ e, c.outcome = .error e ∧ rest = [] ∧ outcome = .error e ∧ s' = c.after) ∨
        ∃ v, c.outcome = .ok v ∧ (f v).Runs settings limit c.after rest outcome s') := by
  rcases runs_bind h with ⟨e, hfirst, rfl⟩ | ⟨_, v, _, rest, hfirst, hrest, rfl⟩
  · obtain ⟨c, rfl, hr, hs, he, rfl⟩ := runs_request hfirst
    exact ⟨c, [], rfl, hr, hs, .inl ⟨e, he, rfl, rfl, rfl⟩⟩
  · obtain ⟨c, rfl, hr, hs, hv, rfl⟩ := exists_of_makes_request hfirst
    exact ⟨c, rest, rfl, hr, hs, .inr ⟨v, hv, hrest⟩⟩

theorem runs_withCaller
    {env : FrameId} {x : Evaluation β}
    (h : (withCaller env x).Runs settings limit s calls outcome s') :
    ∃ reached mid, x.Runs settings limit (s.pushCaller env) calls reached mid ∧
      s'.store = mid.store := by
  obtain ⟨rfl, hfinish⟩ := Prod.mk.inj
    ((Computation.replay_lastly (x (s.pushCaller env))).symm.trans h)
  refine ⟨_, _, rfl, ?_⟩
  rw [Computation.finish] at hfinish
  split at hfinish
  · rename_i hpop
    cases hfinish
    rw [(State.callers_of_popCaller hpop).2]
  · cases hfinish
    rfl

end Evaluation

/-- Calls in a row, with changes of the store as `R` admits before, between and after
them. -/
inductive Threads (R : Store → Store → Prop) : Store → List EvalCall → Store → Prop where
  | nil {s t : Store} (h : R s t) : Threads R s [] t
  | cons {s t : Store} {c : EvalCall} {cs : List EvalCall} (h : R s c.before.store)
      (hcs : Threads R c.after.store cs t) : Threads R s (c :: cs) t

namespace Threads

variable {R : Store → Store → Prop} {s t u : Store} {cs ds : List EvalCall}

theorem of_step
    (htrans : ∀ {s t u}, R s t → R t u → R s u) (hst : R s t) (h : Threads R t cs u) :
    Threads R s cs u := by
  cases h with
  | nil h => exact .nil (htrans hst h)
  | cons h hcs => exact .cons (htrans hst h) hcs

theorem append
    (htrans : ∀ {s t u}, R s t → R t u → R s u) (hcs : Threads R s cs t)
    (hds : Threads R t ds u) :
    Threads R s (cs ++ ds) u := by
  induction hcs with
  | nil h => exact hds.of_step htrans h
  | cons h _ ih => exact .cons h (ih hds)

/-- A relation that each call stands in as well leads from one end to the other, and
from the end of each call to the end of all. -/
theorem rel
    (htrans : ∀ {s t u}, R s t → R t u → R s u) (h : Threads R s cs t)
    (hcs : ∀ c ∈ cs, R c.before.store c.after.store) :
    R s t ∧ ∀ c ∈ cs, R c.after.store t := by
  induction h with
  | nil h => exact ⟨h, fun c hc => absurd hc List.not_mem_nil⟩
  | @cons s t c cs h _ ih =>
      obtain ⟨hc, hcs⟩ := List.forall_mem_cons.mp hcs
      obtain ⟨hall, hends⟩ := ih hcs
      exact ⟨htrans h (htrans hc hall), List.forall_mem_cons.mpr ⟨hall, hends⟩⟩

/-- What changes from one end to the other changes in one of the calls, if the steps
in between do not touch it. -/
theorem exists_change
    {P : Store → Prop} (h : Threads R s cs t) (hR : ∀ {s t}, R s t → (P s ↔ P t))
    (hs : ¬P s) (ht : P t) :
    ∃ c ∈ cs, ¬P c.before.store ∧ P c.after.store := by
  induction h with
  | nil h => exact absurd ((hR h).mpr ht) hs
  | @cons s t c cs h _ ih =>
      have hbefore : ¬P c.before.store := fun hc => hs ((hR h).mpr hc)
      by_cases hafter : P c.after.store
      · exact ⟨c, List.mem_cons_self, hbefore, hafter⟩
      · obtain ⟨d, hd, hchange⟩ := ih hafter ht
        exact ⟨d, List.mem_cons_of_mem c hd, hchange⟩

end Threads

/-- The calls of a part of an evaluation are threaded on its steps. -/
theorem Evaluation.Assembled.threads
    {β : Type} {R : Store → Store → Prop} {x : Evaluation β} {settings : Settings}
    {limit : Nat} {s s' : State} {calls : List EvalCall} {outcome : Except Fault β}
    (hrefl : ∀ s, R s s) (htrans : ∀ {s t u}, R s t → R t u → R s u) (hx : Assembled R x)
    (h : x.Runs settings limit s calls outcome s') :
    Threads R s.store calls s'.store := by
  induction hx generalizing s s' calls with
  | fault f =>
      obtain ⟨rfl, -, rfl⟩ := runs_done rfl h
      exact .nil (hrefl _)
  | change hf hR =>
      obtain ⟨rfl, -, rfl⟩ := runs_done rfl h
      exact .nil (hR s)
  | request r =>
      obtain ⟨c, rfl, -, rfl, -, rfl⟩ := runs_request h
      exact .cons (hrefl _) (.nil (hrefl _))
  | bind _ _ ihx ihf =>
      rcases runs_bind h with ⟨e, hfirst, rfl⟩ | ⟨_, b, _, _, hfirst, hrest, rfl⟩
      · exact ihx hfirst
      · exact (ihx hfirst).append htrans (ihf b hrest)
  | withCaller env _ ih =>
      obtain ⟨_, mid, hmid, hstore⟩ := runs_withCaller h
      have hthreads := ih hmid
      rw [hstore]
      exact hthreads

namespace Evaluator

open Evaluation

variable {settings : Settings} {limit : Nat} {calls : List EvalCall} {s s' : State}
  {outcome : Except Fault Node} {c d root : EvalCall}

/-! ## Captured frames stay captured -/

theorem store_announce
    (settings : Settings) (r : Request) (s : State) :
    (announce settings r s).store = s.store := by
  unfold announce
  split
  · split
    · exact store_write settings _ s
    · rfl
  · rfl

theorem runs_of_governs
    (hc : (rules settings).Governs c) :
    (c.calls = [] ∧ c.outcome = .error .recursionLimit ∧ c.after = c.before) ∨
      ∃ limit, (carryOut settings c.request).Runs settings limit
        (announce settings c.request c.before) c.calls c.outcome c.after := by
  rcases hc.replay with hcut | ⟨limit, hreplay⟩
  · exact .inl hcut
  · refine .inr ⟨limit, ?_⟩
    rw [Runs, ← body_eq]
    exact hreplay

theorem keepsCaptures_call
    (c : EvalCall) (hc : (rules settings).Governs c) :
    c.before.store.KeepsCaptures c.after.store ∧
      ∀ d ∈ c.calls, d.after.store.KeepsCaptures c.after.store := by
  induction c using Call.induction with
  | step c ih =>
      rcases runs_of_governs hc with ⟨hcalls, -, hafter⟩ | ⟨limit, hruns⟩
      · rw [hcalls, hafter]
        exact ⟨.refl _, fun d hd => absurd hd List.not_mem_nil⟩
      · have hthreads := (freely_carryOut settings c.request).threads .refl .trans hruns
        rw [store_announce] at hthreads
        exact hthreads.rel .trans fun d hd => (ih d hd (hc.of_mem hd)).1

/-- What is captured at the end of a call in a run is captured at the end of the
run. -/
theorem keepsCaptures_of_contains
    (hroot : (rules settings).Governs root) (hc : root.Contains c) :
    (rules settings).Governs c ∧ c.after.store.KeepsCaptures root.after.store := by
  induction hc with
  | self => exact ⟨hroot, .refl _⟩
  | @inner c d _ hd ih =>
      obtain ⟨hgoverned, hkeeps⟩ := ih
      exact ⟨hgoverned.of_mem hd, ((keepsCaptures_call c hgoverned).2 d hd).trans hkeeps⟩

/-! ## Bindings of lambdas -/

/-- The state in which the body of a let is evaluated. -/
def letState (settings : Settings) (x : Text) (v : Node) (env : FrameId) (s : State) : State :=
  capture settings x v s.store.frames.size
    ((s.enclose env).2.mapStore (·.define s.store.frames.size x v))

/-- The state after a definition has bound a name in a frame. -/
def defineState (settings : Settings) (x : Text) (v : Node) (target : FrameId) (s : State) :
    State :=
  (capture settings x v target s).mapStore (·.define target x v)

theorem runs_let
    {i : Label} {x : Text} {value : Node} {body : List Node} {env : FrameId}
    (h : (evaluate settings (.letIn i x value body) env).Runs settings limit s calls outcome s') :
    ∃ a : EvalCall, a.request = .eval value env ∧ a.before = s ∧
      ((calls = [a] ∧ s' = a.after) ∨
        ∃ (v : Node) (b : EvalCall), calls = [a, b] ∧ a.outcome = .ok v ∧
          b.request = .eval (.block i body) a.after.store.frames.size ∧
          b.before = letState settings x v env a.after ∧ s' = b.after) := by
  obtain ⟨a, rest, rfl, hr, hs, ⟨_, -, rfl, -, rfl⟩ | ⟨v, hv, hrest⟩⟩ := runs_request_bind h
  · exact ⟨a, hr, hs, .inl ⟨rfl, rfl⟩⟩
  · have hbody : (request (.eval (.block i body) a.after.store.frames.size)).Runs settings limit
        (letState settings x v env a.after) rest outcome s' := hrest
    obtain ⟨b, rfl, hb, hbefore, -, rfl⟩ := runs_request hbody
    exact ⟨a, hr, hs, .inr ⟨v, b, rfl, hv, hb, hbefore, rfl⟩⟩

theorem runs_define
    {i : Label} {x : Text} {value : Node} {env : FrameId}
    (h : (evaluate settings (.define i x value) env).Runs settings limit s calls outcome s') :
    ∃ a : EvalCall, calls = [a] ∧ a.request = .eval value env ∧ a.before = s ∧
      (((∃ f, outcome = .error f) ∧ s' = a.after) ∨
        ∃ v target, a.outcome = .ok v ∧ a.after.store.findPlaceholder? env x = some target ∧
          outcome = .ok v ∧ s' = defineState settings x v target a.after) := by
  obtain ⟨a, rest, rfl, hr, hs, ⟨f, -, rfl, hf, rfl⟩ | ⟨v, hv, hrest⟩⟩ := runs_request_bind h
  · exact ⟨a, rfl, hr, hs, .inl ⟨⟨f, hf⟩, rfl⟩⟩
  · have hfill : (fillPlaceholder settings x v env).Runs settings limit a.after rest outcome s' :=
      hrest
    rw [fillPlaceholder, runs_read_bind] at hfill
    split at hfill
    · obtain ⟨rfl, hf, rfl⟩ := runs_done rfl hfill
      exact ⟨a, rfl, hr, hs, .inl ⟨⟨_, hf⟩, rfl⟩⟩
    · rename_i target htarget
      obtain ⟨rfl, hv', rfl⟩ := runs_done rfl hfill
      exact ⟨a, rfl, hr, hs, .inr ⟨v, target, hv, htarget, hv', rfl⟩⟩

/-- A definition or a let binds a value in a frame. The state is the one in which it
does so. -/
inductive Binds (c : EvalCall) (v : Node) : FrameId → State → Prop where
  | define {i : Label} {x : Text} {value : Node} {env target : FrameId} {a : EvalCall}
      (hr : c.request = .eval (.define i x value) env) (hcalls : c.calls = [a])
      (hv : a.outcome = .ok v) (htarget : a.after.store.findPlaceholder? env x = some target) :
      Binds c v target a.after
  | letIn {i : Label} {x : Text} {value : Node} {body : List Node} {env : FrameId}
      {a b : EvalCall} (hr : c.request = .eval (.letIn i x value body) env)
      (hcalls : c.calls = [a, b]) (hv : a.outcome = .ok v) :
      Binds c v a.after.store.frames.size a.after

variable {label : Label} {id : FrameId}

/-- Binding a value in a frame has no lambda capture it but the value, and only if
that has captured none. -/
theorem captured?_bind
    {x : Text} {v : Node} {target : FrameId}
    (hbefore : ¬s.store.captured? label = some id)
    (hafter : (capture settings x v target s).store.captured? label = some id) :
    id = target ∧ (∃ xs body, v = .lambda label xs body) ∧ s.store.captured? label = none := by
  rcases captured?_capture settings x v target s label with hsame | ⟨xs, body, hv, hnone, hsome⟩
  · exact absurd (hsame.symm.trans hafter) hbefore
  · exact ⟨Option.some.inj (hafter.symm.trans hsome), ⟨xs, body, hv⟩, hnone⟩

theorem captured?_letState
    {x : Text} {v : Node} {env : FrameId} (hbefore : ¬s.store.captured? label = some id)
    (hafter : (letState settings x v env s).store.captured? label = some id) :
    id = s.store.frames.size ∧ (∃ xs body, v = .lambda label xs body) ∧
      s.store.captured? label = none := by
  let inner := (s.enclose env).2.mapStore (·.define s.store.frames.size x v)
  have hinner : ¬inner.store.captured? label = some id := hbefore
  exact captured?_bind (s := inner) hinner hafter

/-- If a lambda has captured a frame during a call, then in one of the calls that were
made, or the call itself has bound the lambda in this frame. -/
theorem captured_in_call_or_binds
    (hc : (rules settings).Governs c) (hbefore : ¬c.before.store.captured? label = some id)
    (hafter : c.after.store.captured? label = some id) :
    (∃ d ∈ c.calls, ¬d.before.store.captured? label = some id ∧
        d.after.store.captured? label = some id) ∨
      ∃ xs body t, Binds c (.lambda label xs body) id t ∧ t.store.captured? label = none := by
  rcases runs_of_governs hc with ⟨-, -, hcut⟩ | ⟨limit, hruns⟩
  · rw [hcut] at hafter
    exact absurd hafter hbefore
  rw [← store_announce settings c.request] at hbefore
  rcases quietly_carryOut_or settings c.request with
    ⟨i, x, value, env, hr⟩ | ⟨i, x, value, body, env, hr⟩ | hquiet
  · rw [hr] at hruns hbefore
    obtain ⟨a, hcalls, -, hs, hend⟩ := runs_define (i := i) hruns
    rw [← hs] at hbefore
    by_cases hvalue : a.after.store.captured? label = some id
    · exact .inl ⟨a, by simp [hcalls], hbefore, hvalue⟩
    · rcases hend with ⟨-, hsame⟩ | ⟨v, target, hv, htarget, -, hdefined⟩
      · rw [hsame] at hafter
        exact absurd hafter hvalue
      · rw [hdefined] at hafter
        obtain ⟨rfl, ⟨xs, body, rfl⟩, hnone⟩ := captured?_bind hvalue hafter
        exact .inr ⟨xs, body, a.after, .define hr hcalls hv htarget, hnone⟩
  · rw [hr] at hruns hbefore
    obtain ⟨a, -, hs, hend⟩ := runs_let hruns
    rw [← hs] at hbefore
    by_cases hvalue : a.after.store.captured? label = some id
    · refine .inl ⟨a, ?_, hbefore, hvalue⟩
      rcases hend with ⟨hcalls, -⟩ | ⟨_, _, hcalls, -⟩ <;> simp [hcalls]
    · rcases hend with ⟨-, hsame⟩ | ⟨v, b, hcalls, hv, -, hb, hbody⟩
      · rw [hsame] at hafter
        exact absurd hafter hvalue
      · by_cases hbound : b.before.store.captured? label = some id
        · rw [hb] at hbound
          obtain ⟨rfl, ⟨xs, body', rfl⟩, hnone⟩ := captured?_letState hvalue hbound
          exact .inr ⟨xs, body', a.after, .letIn hr hcalls hv, hnone⟩
        · rw [hbody] at hafter
          exact .inl ⟨b, by simp [hcalls], hbound, hafter⟩
  · have hthreads := hquiet.threads .refl .trans hruns
    refine .inl (hthreads.exists_change (P := fun s => s.captured? label = some id) ?_
      hbefore hafter)
    intro s t hst
    rw [Store.captured?_of_captures_eq hst]

/-- A frame that a lambda has captured in a call goes back to a definition or a let
that has bound the lambda there when it had captured none. -/
theorem exists_binds
    (c : EvalCall) (hc : (rules settings).Governs c)
    (hbefore : ¬c.before.store.captured? label = some id)
    (hafter : c.after.store.captured? label = some id) :
    ∃ d xs body t, c.Contains d ∧ Binds d (.lambda label xs body) id t ∧
      t.store.captured? label = none := by
  induction c using Call.induction with
  | step c ih =>
      rcases captured_in_call_or_binds hc hbefore hafter with
        ⟨d, hd, hdbefore, hdafter⟩ | ⟨xs, body, t, hbinds⟩
      · obtain ⟨e, xs, body, t, he, hbinds⟩ := ih d hd (hc.of_mem hd) hdbefore hdafter
        exact ⟨e, xs, body, t, Call.Contains.trans (.inner .self hd) he, hbinds⟩
      · exact ⟨c, xs, body, t, .self, hbinds⟩

end Evaluator

end BlockLang
