import BlockLang.Proofs.Calls
import BlockLang.Proofs.Evaluation.Frames
import BlockLang.Proofs.Evaluation.Values

/-!
# What a successful request does

`Form` lists, for every form of request, the calls that it makes when it succeeds,
the frames that each of them meets and the frames that are left in the end. Every
fact about the requests of a run is read off from this list.
-/

namespace BlockLang

/-- A request of an evaluation that has been carried out. -/
abbrev EvalCall := Call Request Node Fault State

namespace Call

/-- The frames that a call meets. -/
def framesBefore (c : EvalCall) : Array Frame := c.before.store.frames

/-- The frames that a call leaves. -/
def framesAfter (c : EvalCall) : Array Frame := c.after.store.frames

end Call

/-! ## The parts of an evaluation -/

namespace Evaluation

variable {β γ : Type} {settings : Settings} {limit : Nat}
  {calls : List EvalCall} {b : β} {s s' : State}

/-- From a state, a part of an evaluation makes these calls and succeeds. -/
def Makes (settings : Settings) (limit : Nat) (x : Evaluation β) (s : State)
    (calls : List EvalCall) (b : β) (s' : State) : Prop :=
  (x s).Makes ((Evaluator.rules settings).call limit) calls b s'

theorem makes_pure
    {b' : β} :
    (pure b' : Evaluation β).Makes settings limit s calls b s' ↔
      calls = [] ∧ b' = b ∧ s = s' :=
  Computation.makes_done_ok

theorem makes_bind
    {x : Evaluation β} {f : β → Evaluation γ} {b : γ} :
    (x >>= f).Makes settings limit s calls b s' ↔
      ∃ first b' mid rest, x.Makes settings limit s first b' mid ∧
        (f b').Makes settings limit mid rest b s' ∧ calls = first ++ rest :=
  Computation.makes_andThen (x s)

theorem not_makes_fault
    {f : Fault} :
    ¬(fault f : Evaluation β).Makes settings limit s calls b s' :=
  Computation.not_makes_done_error

theorem makes_change
    {f : State → β × State} :
    (change f).Makes settings limit s calls b s' ↔
      calls = [] ∧ (f s).1 = b ∧ (f s).2 = s' :=
  Computation.makes_done_ok

theorem makes_attempt_bind
    {r : Except Fault β} {x : β → Evaluation γ} {b : γ} :
    (attempt r >>= x).Makes settings limit s calls b s' ↔
      ∃ a, r = .ok a ∧ (x a).Makes settings limit s calls b s' := by
  cases r with
  | error f =>
      constructor
      · intro h
        exact (Computation.not_makes_done_error h).elim
      · rintro ⟨_, ⟨⟩, -⟩
  | ok a =>
      constructor
      · intro h
        exact ⟨a, rfl, h⟩
      · rintro ⟨_, ⟨⟩, h⟩
        exact h

theorem makes_read_bind
    {f : State → β} {x : β → Evaluation γ} {b : γ} :
    (read f >>= x).Makes settings limit s calls b s' ↔
      (x (f s)).Makes settings limit s calls b s' :=
  Iff.rfl

theorem makes_update_bind
    {f : State → State} {x : Unit → Evaluation γ} {b : γ} :
    (update f >>= x).Makes settings limit s calls b s' ↔
      (x ()).Makes settings limit (f s) calls b s' :=
  Iff.rfl

theorem makes_change_bind
    {f : State → β × State} {x : β → Evaluation γ} {b : γ} :
    (change f >>= x).Makes settings limit s calls b s' ↔
      (x (f s).1).Makes settings limit (f s).2 calls b s' :=
  Iff.rfl

/-- A request makes one call and has its outcome. -/
theorem makes_request
    {r : Request} {v : Node} :
    (request r).Makes settings limit s calls v s' ↔
      calls = [(Evaluator.rules settings).call limit r s] ∧
        ((Evaluator.rules settings).call limit r s).outcome = .ok v ∧
        ((Evaluator.rules settings).call limit r s).after = s' := by
  constructor
  · intro h
    obtain ⟨rest, rfl, hrest⟩ := Computation.makes_ask.mp h
    have hcalls : [] = rest := congrArg Prod.fst hrest
    have hresult := congrArg Prod.snd hrest
    exact ⟨by rw [hcalls], congrArg Prod.fst hresult, congrArg Prod.snd hresult⟩
  · rintro ⟨rfl, hv, rfl⟩
    refine Computation.makes_ask.mpr ⟨[], rfl, ?_⟩
    rw [hv]
    exact Computation.makes_done_ok.mpr ⟨rfl, rfl, rfl⟩

theorem exists_of_makes_request
    {r : Request} {v : Node} (h : (request r).Makes settings limit s calls v s') :
    ∃ c : EvalCall, calls = [c] ∧ c.request = r ∧ c.before = s ∧ c.outcome = .ok v ∧
      c.after = s' := by
  obtain ⟨hcalls, hv, hafter⟩ := makes_request.mp h
  exact ⟨_, hcalls, Rules.call_request .., Rules.call_before .., hv, hafter⟩

theorem exists_of_makes_request_bind
    {r : Request} {x : Node → Evaluation β}
    (h : (request r >>= x).Makes settings limit s calls b s') :
    ∃ (c : EvalCall) (v : Node) (rest : List EvalCall), calls = c :: rest ∧ c.request = r ∧
      c.before = s ∧ c.outcome = .ok v ∧ (x v).Makes settings limit c.after rest b s' := by
  obtain ⟨_, v, _, rest, hfirst, hrest, rfl⟩ := makes_bind.mp h
  obtain ⟨c, rfl, hr, hbefore, hv, rfl⟩ := exists_of_makes_request hfirst
  exact ⟨c, v, rest, rfl, hr, hbefore, hv, hrest⟩

theorem makes_withCaller
    {env : FrameId} {x : Evaluation β} :
    (withCaller env x).Makes settings limit s calls b s' ↔
      ∃ mid, x.Makes settings limit (s.pushCaller env) calls b mid ∧ mid.popCaller = .ok s' :=
  Computation.makes_lastly (x (s.pushCaller env))

end Evaluation

/-! ## Calls in a row -/

/-- Calls that succeed one after the other, the frames between them being left
alone, with their results. -/
inductive Chain : Array Frame → List EvalCall → List Node → Array Frame → Prop where
  | nil (fs : Array Frame) : Chain fs [] [] fs
  | cons {c : EvalCall} {v : Node} {cs : List EvalCall} {vs : List Node} {fs : Array Frame}
      (hv : c.outcome = .ok v) (hcs : Chain c.framesAfter cs vs fs) :
      Chain c.framesBefore (c :: cs) (v :: vs) fs

theorem exists_of_map_request
    {α : Type} {cs : List EvalCall} {as : List α} {r : α → Request}
    (h : cs.map Call.request = as.map r) {c : EvalCall} (hc : c ∈ cs) :
    ∃ a ∈ as, c.request = r a := by
  have hmem : c.request ∈ as.map r := h ▸ List.mem_map_of_mem hc
  obtain ⟨a, ha, heq⟩ := List.mem_map.mp hmem
  exact ⟨a, ha, heq.symm⟩

namespace Evaluator

open Evaluation

variable {settings : Settings} {limit : Nat} {cs : List EvalCall} {s s' : State}

theorem chain_of_statements
    {env : FrameId} {es : List Node} {v₀ v : Node}
    (h : (statements env es v₀).Makes settings limit s cs v s') :
    ∃ vs, cs.map Call.request = es.map (.eval · env) ∧
      Chain s.store.frames cs vs s'.store.frames ∧ (v = v₀ ∨ v ∈ vs) := by
  induction es generalizing v₀ s cs with
  | nil =>
      obtain ⟨rfl, rfl, rfl⟩ := makes_pure.mp h
      exact ⟨[], rfl, .nil _, .inl rfl⟩
  | cons e es ih =>
      obtain ⟨c, w, rest, rfl, hr, rfl, hw, hrest⟩ := exists_of_makes_request_bind h
      obtain ⟨vs, hrequests, hchain, hv⟩ := ih hrest
      refine ⟨w :: vs, ?_, .cons hw hchain, .inr ?_⟩
      · simp [hr, hrequests]
      · rcases hv with rfl | hv
        · exact List.mem_cons_self
        · exact List.mem_cons_of_mem _ hv

/-- A loop that makes one request for every element and collects the results,
last first. -/
theorem chain_of_collect
    {collect : List Node → List Node → Evaluation (List Node)} {r : Node → Request}
    (hnil : ∀ done, collect [] done = pure done.reverse)
    (hcons : ∀ e es done, collect (e :: es) done =
      request (r e) >>= fun v => collect es (v :: done))
    {es done results : List Node}
    (h : (collect es done).Makes settings limit s cs results s') :
    ∃ vs, cs.map Call.request = es.map r ∧
      Chain s.store.frames cs vs s'.store.frames ∧ results = done.reverse ++ vs := by
  induction es generalizing done s cs with
  | nil =>
      rw [hnil] at h
      obtain ⟨rfl, rfl, rfl⟩ := makes_pure.mp h
      exact ⟨[], rfl, .nil _, (List.append_nil _).symm⟩
  | cons e es ih =>
      rw [hcons] at h
      obtain ⟨c, w, rest, rfl, hr, rfl, hw, hrest⟩ := exists_of_makes_request_bind h
      obtain ⟨vs, hrequests, hchain, rfl⟩ := ih hrest
      refine ⟨w :: vs, ?_, .cons hw hchain, ?_⟩
      · simp [hr, hrequests]
      · simp

theorem chain_of_operands
    {env : FrameId} {es args : List Node}
    (h : (operands env es []).Makes settings limit s cs args s') :
    cs.map Call.request = es.map (.eval · env) ∧
      Chain s.store.frames cs args s'.store.frames := by
  obtain ⟨vs, hrequests, hchain, rfl⟩ :=
    chain_of_collect (fun _ => rfl) (fun _ _ _ => rfl) h
  exact ⟨hrequests, hchain⟩

theorem chain_of_applyEach
    {f : Node} {elements results : List Node}
    (h : (applyEach f elements []).Makes settings limit s cs results s') :
    cs.map Call.request = elements.map (.apply f [·]) ∧
      Chain s.store.frames cs results s'.store.frames := by
  obtain ⟨vs, hrequests, hchain, rfl⟩ :=
    chain_of_collect (fun _ => rfl) (fun _ _ _ => rfl) h
  exact ⟨hrequests, hchain⟩

theorem chain_of_clauses
    {env : FrameId} {clauses : List (Node × Node)} {v : Node}
    (h : (Evaluator.clauses env clauses).Makes settings limit s cs v s') :
    ∃ vs, (∀ c ∈ cs, ∃ clause ∈ clauses,
        c.request = .eval clause.1 env ∨ c.request = .eval clause.2 env) ∧
      Chain s.store.frames cs vs s'.store.frames ∧ (v = .boolean false ∨ v ∈ vs) := by
  induction clauses generalizing s cs with
  | nil =>
      obtain ⟨rfl, rfl, rfl⟩ := makes_pure.mp h
      exact ⟨[], by simp, .nil _, .inl rfl⟩
  | cons clause rest ih =>
      obtain ⟨test, result⟩ := clause
      obtain ⟨c, w, later, rfl, hr, rfl, hw, hlater⟩ := exists_of_makes_request_bind h
      split at hlater
      · obtain ⟨d, rfl, hd, hbefore, hv, rfl⟩ := exists_of_makes_request hlater
        refine ⟨[.boolean true, v], ?_, ?_, .inr (by simp)⟩
        · simp [hr, hd]
        · refine .cons hw ?_
          have hframes : c.framesAfter = d.framesBefore :=
            congrArg (·.store.frames) hbefore.symm
          rw [hframes]
          exact .cons hv (.nil _)
      · obtain ⟨vs, hrequests, hchain, hv⟩ := ih hlater
        refine ⟨_ :: vs, ?_, .cons hw hchain, hv.imp_right (List.mem_cons_of_mem _)⟩
        intro d hd
        rcases List.mem_cons.mp hd with rfl | hd
        · exact ⟨_, List.mem_cons_self, .inl hr⟩
        · obtain ⟨clause, hmem, hrequest⟩ := hrequests d hd
          exact ⟨clause, List.mem_cons_of_mem _ hmem, hrequest⟩
      · exact (not_makes_fault hlater).elim

/-! ## Applications -/

/-- The calls of a successful application. A procedure leaves the frames alone;
map makes one call for every element of its list; a lambda runs its body in a new
frame, in which its parameters are bound to the arguments. -/
inductive Applies (f : Node) (args : List Node) :
    Array Frame → List EvalCall → Node → Array Frame → Prop where
  | procedure {fs : Array Frame} {v : Node} (hv : (∀ a ∈ args, IsValue a) → IsValue v) :
      Applies f args fs [] v fs
  | map {fs fs' : Array Frame} {cs : List EvalCall} {i j : Label} {g : Node}
      {elements vs : List Node} (hargs : args = [g, .list i elements])
      (hcs : cs.map Call.request = elements.map (.apply g [·])) (hchain : Chain fs cs vs fs') :
      Applies f args fs cs (.list j vs) fs'
  | lambda {fs : Array Frame} {i : Label} {xs : List Text} {body : List Node} {frame : Frame}
      {c : EvalCall} {v : Node} (hf : f = .lambda i xs body)
      (hframe : ∀ x w, frame.get? x = some w → w ∈ args)
      (hc : c.request = .eval (.block i body) fs.size)
      (hbefore : c.framesBefore = fs.push frame) (hv : c.outcome = .ok v) :
      Applies f args fs [c] v c.framesAfter

theorem frames_of_makes_newList
    {elements : List Node} {v : Node}
    (h : (newList elements).Makes settings limit s cs v s') :
    cs = [] ∧ v = .list s.store.nextLabel elements ∧ s'.store.frames = s.store.frames := by
  obtain ⟨rfl, rfl, rfl⟩ := makes_change.mp h
  exact ⟨rfl, rfl, rfl⟩

theorem applies_of_map
    {wired : Bool} {args : List Node} {v f : Node}
    (h : (map settings wired args).Makes settings limit s cs v s') :
    Applies f args s.store.frames cs v s'.store.frames := by
  obtain ⟨⟨g, elements⟩, hread, h⟩ := makes_attempt_bind.mp h
  obtain ⟨i, hargs⟩ := Procedure.eq_of_functionAndList hread
  dsimp only at h
  split at h
  · obtain ⟨first, results, mid, rest, hfirst, hrest, rfl⟩ := makes_bind.mp h
    obtain ⟨hrequests, hchain⟩ := chain_of_applyEach hfirst
    obtain ⟨rfl, rfl, hframes⟩ := frames_of_makes_newList hrest
    rw [hframes, List.append_nil]
    exact .map hargs hrequests hchain
  · exact (not_makes_fault h).elim

/-- A part of an evaluation that makes no calls, leaves the store alone and
results in a string. -/
def Quiet (x : Evaluation Node) : Prop :=
  ∀ {settings : Settings} {limit : Nat} {s s' : State} {cs : List EvalCall} {v : Node},
    x.Makes settings limit s cs v s' → cs = [] ∧ (∃ t, v = .string t) ∧ s'.store = s.store

theorem quiet_string
    (t : Text) :
    Quiet (pure (.string t)) := by
  intro _ _ _ _ _ _ h
  obtain ⟨rfl, rfl, rfl⟩ := makes_pure.mp h
  exact ⟨rfl, ⟨t, rfl⟩, rfl⟩

theorem quiet_fault
    (f : Fault) :
    Quiet (fault f) := by
  intro _ _ _ _ _ _ h
  exact (not_makes_fault h).elim

theorem quiet_bind_change
    {β : Type} {f : State → β × State} {x : β → Evaluation Node}
    (hf : ∀ s, (f s).2.store = s.store) (hx : ∀ b, Quiet (x b)) :
    Quiet (change f >>= x) := by
  intro _ _ _ _ _ _ h
  obtain ⟨hcs, hv, hstore⟩ := hx _ (makes_change_bind.mp h)
  exact ⟨hcs, hv, hstore.trans (hf _)⟩

theorem quiet_bind_update
    {f : State → State} {x : Evaluation Node}
    (hf : ∀ s, (f s).store = s.store) (hx : Quiet x) :
    Quiet (update f >>= fun _ => x) :=
  quiet_bind_change (f := fun s => ((), f s)) hf fun _ => hx

theorem quiet_attempt_bind
    {β : Type} {r : Except Fault β} {x : β → Evaluation Node} (hx : ∀ b, Quiet (x b)) :
    Quiet (attempt r >>= x) := by
  intro _ _ _ _ _ _ h
  obtain ⟨b, -, hb⟩ := makes_attempt_bind.mp h
  exact hx b hb

theorem store_write
    (settings : Settings) (line : Output) (s : State) :
    (s.write settings line).store = s.store := by
  unfold State.write
  split <;> rfl

theorem quiet_print
    (settings : Settings) (line : Text) :
    Quiet (print settings line) := by
  unfold print
  split
  · exact quiet_fault _
  · exact quiet_bind_update (store_write settings _) (quiet_string _)

theorem quiet_readInput :
    Quiet readInput := by
  refine quiet_bind_change (fun _ => rfl) fun input => ?_
  split
  · exact quiet_fault _
  · exact quiet_string _

theorem quiet_readLine :
    Quiet readLine := by
  refine quiet_bind_change (fun _ => rfl) fun input => ?_
  dsimp only
  split
  · exact quiet_fault _
  · exact quiet_string _

theorem applies_of_quiet
    {x : Evaluation Node} {args : List Node} {v f : Node}
    (hx : Quiet x) (h : x.Makes settings limit s cs v s') :
    Applies f args s.store.frames cs v s'.store.frames := by
  obtain ⟨rfl, ⟨t, rfl⟩, hstore⟩ := hx h
  rw [hstore]
  exact .procedure fun _ => .string t

theorem applies_of_callProcedure
    {p : Procedure} {wired : Bool} {args : List Node} {v f : Node}
    (h : (callProcedure settings p wired args).Makes settings limit s cs v s') :
    Applies f args s.store.frames cs v s'.store.frames := by
  unfold callProcedure at h
  split at h
  · rename_i hcompute
    obtain ⟨answer, rfl, h⟩ := makes_attempt_bind.mp h
    cases answer with
    | value w =>
        obtain ⟨rfl, rfl, rfl⟩ := makes_pure.mp h
        refine .procedure fun hargs => ?_
        exact (Procedure.gives_compute hereditary_isValueOf hargs hcompute).value _ rfl
    | newList elements =>
        obtain ⟨rfl, rfl, hframes⟩ := frames_of_makes_newList h
        rw [hframes]
        refine .procedure fun hargs => .list _ ?_
        exact (Procedure.gives_compute hereditary_isValueOf hargs hcompute).value _ rfl
  · split at h
    · refine applies_of_quiet ?_ h
      dsimp only
      split
      · exact quiet_print settings _
      · exact quiet_string _
    · refine applies_of_quiet (quiet_attempt_bind fun _ => ?_) h
      split
      · exact quiet_readInput
      · exact quiet_string _
    · refine applies_of_quiet (quiet_attempt_bind fun _ => ?_) h
      split
      · exact quiet_readLine
      · exact quiet_string _
    · refine applies_of_quiet (quiet_attempt_bind fun path => ?_) h
      split
      · exact quiet_bind_update (fun _ => rfl) (quiet_fault _)
      · exact quiet_string _
    · exact applies_of_map h

theorem applies_of_applyFrom
    {f : Node} {args : List Node} {caller : FrameId} {v : Node}
    (h : (applyFrom settings f args caller).Makes settings limit s cs v s') :
    Applies f args s.store.frames cs v s'.store.frames := by
  cases f
  case procedure i name wired =>
    simp only [applyFrom] at h
    split at h
    · obtain ⟨mid, hmid, hpop⟩ := makes_withCaller.mp h
      rw [(State.callers_of_popCaller hpop).2]
      have happlies := applies_of_callProcedure (f := .procedure i name wired) hmid
      exact happlies
    · exact (not_makes_fault h).elim
  case lambda i xs body =>
    simp only [applyFrom] at h
    split at h
    · rw [makes_read_bind, makes_change_bind, makes_update_bind] at h
      obtain ⟨c, rfl, hr, hbefore, hv, rfl⟩ := exists_of_makes_request h
      obtain ⟨frame, hframe, -, hget, -⟩ := bindParameters_push (xs.zip args)
        (s := (s.enclose (parentFrame settings i caller s)).2.store) rfl
      have hbound : ∀ x w, frame.get? x = some w → w ∈ args := by
        intro x w hw
        rcases hget x w hw with hmem | hnone
        · obtain ⟨b, hb, rfl⟩ := List.mem_map.mp hmem
          exact (List.of_mem_zip hb).2
        · cases hnone
      have hpush : c.framesBefore = s.store.frames.push frame := by
        rw [Call.framesBefore, hbefore]
        exact hframe
      exact .lambda rfl hbound hr hpush hv
    · exact (not_makes_fault h).elim
  all_goals exact (not_makes_fault h).elim

/-! ## Requests -/

/-- The calls of a request that succeeds with a value, by the form of the
request, and the frames it leaves. -/
inductive Form : Request → Store → List EvalCall → Node → Array Frame → Prop where
  | literal {e : Node} {env : FrameId} {s : Store} (he : e.isLiteral) :
      Form (.eval e env) s [] e s.frames
  | identifier {x : Text} {env : FrameId} {s : Store} {v : Node}
      (hget : s.get? env x = some v) (hv : v.isPlaceholder = false) :
      Form (.eval (.identifier x) env) s [] v s.frames
  | block {i : Label} {es vs : List Node} {env : FrameId} {s : Store} {frame : Frame}
      {cs : List EvalCall} {v : Node} {fs : Array Frame}
      (hframe : ∀ x, frame.get? x = if x ∈ definedNames es then some .placeholder else none)
      (hcs : cs.map Call.request = es.map (.eval · s.frames.size))
      (hchain : Chain (s.frames.push frame) cs vs fs) (hv : v = .boolean false ∨ v ∈ vs) :
      Form (.eval (.block i es) env) s cs v fs
  | cond {i : Label} {clauses : List (Node × Node)} {env : FrameId} {s : Store}
      {cs : List EvalCall} {vs : List Node} {v : Node} {fs : Array Frame}
      (hcs : ∀ c ∈ cs, ∃ clause ∈ clauses,
        c.request = .eval clause.1 env ∨ c.request = .eval clause.2 env)
      (hchain : Chain s.frames cs vs fs) (hv : v = .boolean false ∨ v ∈ vs) :
      Form (.eval (.cond i clauses) env) s cs v fs
  | letIn {i : Label} {x : Text} {value : Node} {body : List Node} {env : FrameId} {s : Store}
      {frame : Frame} {c d : EvalCall} {w v : Node}
      (hc : c.request = .eval value env) (hbefore : c.framesBefore = s.frames)
      (hw : c.outcome = .ok w) (hframe : ∀ y u, frame.get? y = some u → u = w)
      (hd : d.request = .eval (.block i body) c.framesAfter.size)
      (hpush : d.framesBefore = c.framesAfter.push frame) (hv : d.outcome = .ok v) :
      Form (.eval (.letIn i x value body) env) s [c, d] v d.framesAfter
  | define {i : Label} {x : Text} {value : Node} {env target : FrameId} {s : Store}
      {c : EvalCall} {v : Node} (hc : c.request = .eval value env)
      (hbefore : c.framesBefore = s.frames) (hv : c.outcome = .ok v)
      (htarget : c.after.store.findPlaceholder? env x = some target) :
      Form (.eval (.define i x value) env) s [c] v (c.framesAfter.modify target (·.define x v))
  | assign {i : Label} {x : Text} {value : Node} {env target : FrameId} {s : Store}
      {c : EvalCall} {v : Node} (hc : c.request = .eval value env)
      (hbefore : c.framesBefore = s.frames) (hv : c.outcome = .ok v)
      (htarget : c.after.store.findBinding? env x = some target) :
      Form (.eval (.assign i x value) env) s [c] v (c.framesAfter.modify target (·.define x v))
  | apply {i : Label} {operator f : Node} {es args : List Node} {env : FrameId} {s : Store}
      {cs cs' : List EvalCall} {v : Node} {fs fs' : Array Frame}
      (hcs : cs.map Call.request = (operator :: es).map (.eval · env))
      (hchain : Chain s.frames cs (f :: args) fs) (happlies : Applies f args fs cs' v fs') :
      Form (.eval (.apply i operator es) env) s (cs ++ cs') v fs'
  | request {f : Node} {args : List Node} {s : Store} {cs : List EvalCall} {v : Node}
      {fs : Array Frame} (happlies : Applies f args s.frames cs v fs) :
      Form (.apply f args) s cs v fs

theorem frames_capture
    (settings : Settings) (x : Text) (v : Node) (env : FrameId) (s : State) :
    (capture settings x v env s).store.frames = s.store.frames := by
  unfold capture
  split
  · split <;> rfl
  · rfl

theorem form_of_evaluate
    {e : Node} {env : FrameId} {v : Node}
    (h : (evaluate settings e env).Makes settings limit s cs v s') :
    Form (.eval e env) s.store cs v s'.store.frames := by
  cases e
  case identifier x =>
    simp only [evaluate, Evaluator.identifier, makes_read_bind] at h
    split at h
    · exact (not_makes_fault h).elim
    · exact (not_makes_fault h).elim
    · rename_i w hplaceholder hget
      obtain ⟨rfl, rfl, rfl⟩ := makes_pure.mp h
      exact .identifier hget (by cases w <;> first | rfl | exact absurd rfl hplaceholder)
  case block i es =>
    simp only [evaluate, makes_change_bind, makes_update_bind] at h
    obtain ⟨vs, hcs, hchain, hv⟩ := chain_of_statements h
    obtain ⟨frame, hpush, -, hframe⟩ := declareAll_push es (s := (s.enclose env).2.store) rfl
    have hstart : ((s.enclose env).2.mapStore (declareAll (s.enclose env).1 es)).store.frames =
        s.store.frames.push frame := hpush
    rw [hstart] at hchain
    exact .block hframe hcs hchain hv
  case cond i clauses =>
    obtain ⟨vs, hcs, hchain, hv⟩ := chain_of_clauses h
    exact .cond hcs hchain hv
  case letIn i x value body =>
    obtain ⟨c, w, _, rfl, hc, rfl, hw, hrest⟩ := exists_of_makes_request_bind h
    simp only [makes_change_bind, makes_update_bind] at hrest
    obtain ⟨d, rfl, hd, hbefore, hv, rfl⟩ := exists_of_makes_request hrest
    have hpush : d.framesBefore = c.framesAfter.push (Frame.define ⟨some env, []⟩ x w) := by
      rw [Call.framesBefore, hbefore, frames_capture]
      exact Store.frames_define_push rfl x w
    refine .letIn hc rfl hw (fun y u hu => ?_) hd hpush hv
    rw [Frame.get?_define] at hu
    split at hu
    · cases hu
      rfl
    · cases hu
  case define i x value =>
    obtain ⟨c, w, _, rfl, hc, rfl, hw, hrest⟩ := exists_of_makes_request_bind h
    simp only [fillPlaceholder, makes_read_bind] at hrest
    split at hrest
    · exact (not_makes_fault hrest).elim
    · rename_i target htarget
      rw [makes_update_bind] at hrest
      obtain ⟨rfl, rfl, rfl⟩ := makes_pure.mp hrest
      have hframes : ((capture settings x w target c.after).mapStore
          (·.define target x w)).store.frames = c.framesAfter.modify target (·.define x w) :=
        congrArg (·.modify target (·.define x w)) (frames_capture settings x w target c.after)
      rw [hframes]
      exact .define hc rfl hw htarget
  case assign i x value =>
    obtain ⟨c, w, _, rfl, hc, rfl, hw, hrest⟩ := exists_of_makes_request_bind h
    simp only [Evaluator.assign, makes_read_bind] at hrest
    split at hrest
    · exact (not_makes_fault hrest).elim
    · rename_i target htarget
      rw [makes_update_bind] at hrest
      obtain ⟨rfl, rfl, rfl⟩ := makes_pure.mp hrest
      exact .assign hc rfl hw htarget
  case apply i operator es =>
    obtain ⟨c, f, _, rfl, hc, rfl, hf, hrest⟩ := exists_of_makes_request_bind h
    obtain ⟨cs, args, mid, cs', hoperands, happly, rfl⟩ := makes_bind.mp hrest
    obtain ⟨hcs, hchain⟩ := chain_of_operands hoperands
    have hrequests : (c :: cs).map Call.request = (operator :: es).map (.eval · env) := by
      simp [hc, hcs]
    exact .apply hrequests (.cons hf hchain) (applies_of_applyFrom happly)
  case placeholder | parameters | clause | absent => exact (not_makes_fault h).elim
  all_goals
    obtain ⟨rfl, rfl, rfl⟩ := makes_pure.mp h
    exact .literal rfl

theorem form_of_body
    {r : Request} {v : Node}
    (h : (body settings r).Makes settings limit s cs v s') :
    Form r s.store cs v s'.store.frames := by
  cases r with
  | eval e env =>
      simp only [body] at h
      split at h
      · have hform := form_of_evaluate (makes_update_bind.mp h)
        rw [store_write] at hform
        exact hform
      · exact form_of_evaluate h
  | apply f args =>
      simp only [body, makes_read_bind] at h
      split at h
      · exact (not_makes_fault h).elim
      · exact .request (applies_of_applyFrom h)

/-- A call that succeeds has one of the forms. -/
theorem form_of_governs
    {c : EvalCall} {v : Node}
    (hc : (rules settings).Governs c) (hv : c.outcome = .ok v) :
    Form c.request c.before.store c.calls v c.framesAfter := by
  obtain ⟨limit, hmakes⟩ := hc.makes hv
  exact form_of_body hmakes

end Evaluator

end BlockLang
