import BlockLang.Proofs.Session.Inputs

/-!
# The soundness of sessions

Expressions and values are of one type, so nothing but the rules of evaluation keeps
a placeholder, a clause or a parameter list from being a result. They do: whatever
the inputs of a session are, all results, operands, elements of lists and bindings
are values, and only two faults show a program that should not have been accepted:
the evaluation of a parameter list and a definition without a reservation.
-/

namespace BlockLang

namespace Evaluator

/-- A call applies a function to operands: it was asked to, or it evaluates an
application and has got the values of its parts. -/
inductive Invokes (c : EvalCall) : Node → List Node → Prop where
  | request {f : Node} {args : List Node} (hr : c.request = .apply f args) : Invokes c f args
  | apply {i : Label} {operator : Node} {es : List Node} {env : FrameId} {f : Node}
      {args : List Node} {front rest : List EvalCall}
      (hr : c.request = .eval (.apply i operator es) env) (hcalls : c.calls = front ++ rest)
      (hfront : front.map Call.request = (operator :: es).map (.eval · env))
      (hvalues : front.map Call.outcome = (f :: args).map .ok) :
      Invokes c f args

/-- The two ways in which a program can lead to a fault of the internal kind. -/
inductive RaisesInternal (c : EvalCall) : Fault → Prop where
  | parameters {i : Label} {xs : List Text} {env : FrameId} {typeName : Text}
      (hr : c.request = .eval (.parameters i xs) env) : RaisesInternal c (.notEvaluable typeName)
  | define {i : Label} {x : Text} {value : Node} {env : FrameId}
      (hr : c.request = .eval (.define i x value) env)
      (hnone : c.after.store.findPlaceholder? env x = none) : RaisesInternal c (.noPlaceholder x)

/-- A call in which everything is a value that should be one. Running procedures
are there again at its end, so none is ever missing: a missing caller, which is a
fault of the internal kind, is not among the two. -/
structure Sound (c : EvalCall) : Prop where
  value : ∀ v, c.outcome = .ok v → IsValueOf Head.ofProgram v
  operands : ∀ f args, Invokes c f args →
    IsValueOf Head.ofProgram f ∧ ∀ a ∈ args, IsValueOf Head.ofProgram a
  bindings : ∀ f, f ∈ c.before.store.frames ∨ f ∈ c.after.store.frames →
    ∀ x v, f.get? x = some v → v = .placeholder ∨ IsValueOf Head.ofProgram v
  callers : c.after.callers = c.before.callers
  running : ∀ f args, c.request = .apply f args → c.before.callers ≠ []
  internal : ∀ f, c.outcome = .error f → f.kind = .internal ∨ f = .placeholderEvaluated →
    f = .recursionLimit ∨ ∃ d, c.Contains d ∧ d.outcome = .error f ∧ RaisesInternal d f

variable {settings : Settings} {p : Head → Bool}

/-- A fault is raised by one of the calls that it ends. -/
theorem exists_raises
    {f : Fault} (root : EvalCall)
    (hroot : ∀ c, root.Contains c → (contract settings p).post c)
    (hf : root.outcome = .error f) :
    ∃ c, root.Contains c ∧ c.outcome = .error f ∧ Raises settings p c.request c.after f := by
  induction root using Call.induction with
  | step root ih =>
      rcases (hroot root .self).fault f hf with ⟨d, hd, hdf⟩ | hraises
      · obtain ⟨c, hc, hcf, hraises⟩ := ih d hd
          (fun c hc => hroot c (Call.Contains.trans (.inner .self hd) hc)) hdf
        exact ⟨c, Call.Contains.trans (.inner .self hd) hc, hcf, hraises⟩
      · exact ⟨root, .self, hf, hraises⟩

theorem raisesInternal_of_raises
    {c : EvalCall} {f : Fault} (happly : settings.canApply = true)
    (h : Raises settings Head.ofProgram c.request c.after f)
    (hf : f.kind = .internal ∨ f = .placeholderEvaluated) :
    f = .recursionLimit ∨ RaisesInternal c f := by
  cases f
  case recursionLimit => exact .inl rfl
  case notEvaluable typeName =>
    rcases h with ⟨i, xs, env, hr⟩ | h
    · exact .inr (.parameters hr)
    · cases h
  case noPlaceholder x =>
    obtain ⟨i, value, env, hr, hnone⟩ := h
    exact .inr (.define hr hnone)
  case mapUnavailable =>
    rcases h with h | ⟨name, h⟩
    · cases happly.symm.trans h
    · cases h
  case unknownExpression | placeholderEvaluated | applyOutsideProcedure | noCaller => cases h
  all_goals simp [Fault.kind] at hf

theorem isValueOf_of_invokes
    {c : EvalCall} {f : Node} {args : List Node}
    (hpre : (contract settings p).pre c.request c.before)
    (hcalls : ∀ d ∈ c.calls, (contract settings p).post d) (h : Invokes c f args) :
    IsValueOf p f ∧ ∀ a ∈ args, IsValueOf p a := by
  cases h with
  | request hr =>
      have hfits := hpre.2
      rw [hr] at hfits
      exact ⟨hfits.1, hfits.2.1⟩
  | @apply _ _ _ _ _ _ front rest _ hsplit _ hvalues =>
      have hall : ∀ v ∈ f :: args, IsValueOf p v := by
        intro v hv
        have hmem : Except.ok v ∈ front.map Call.outcome := hvalues ▸ List.mem_map_of_mem hv
        obtain ⟨d, hd, hdv⟩ := List.mem_map.mp hmem
        have hd : d ∈ c.calls := hsplit ▸ List.mem_append_left rest hd
        exact (hcalls d hd).value v hdv
      exact List.forall_mem_cons.mp hall

end Evaluator

namespace Session

theorem Reached.settings_eq
    {settings : Settings} {input : Input} {s : Session} (hs : Reached settings input s) :
    s.settings = settings := by
  induction hs with
  | start => rfl
  | @eval s _ source ih =>
      rw [s.eval_eq_call]
      split <;> exact ih
  | forget _ ih => exact ih

theorem Ready.sound
    {s : Session} {source : Text} {e : Source} {c : EvalCall} (hs : s.Ready)
    (happly : s.settings.canApply = true) (hcompile : compile source = .ok e)
    (hc : (s.call e).Contains c) :
    Evaluator.Sound c := by
  obtain ⟨-, hpre, hpost⟩ := hs.contract_of_contains hcompile hc
  have hcontract : ∀ d, c.Contains d → (Evaluator.contract s.settings Head.ofProgram).post d :=
    fun d hd => (hs.contract_of_contains hcompile (hc.trans hd)).2.2
  refine ⟨hpost.value, fun f args => ?_, fun f hf => ?_, hpost.proceeds.callers,
    fun f args hr => ?_, fun f hf hkind => ?_⟩
  · exact Evaluator.isValueOf_of_invokes hpre fun d hd => hcontract d (.inner .self hd)
  · exact hf.elim (hpre.1.bindings f) (hpost.proceeds.wellFormed.bindings f)
  · have hfits := hpre.2
    rw [hr] at hfits
    exact hfits.2.2
  · obtain ⟨d, hd, hdf, hraises⟩ := Evaluator.exists_raises c hcontract hf
    refine (Evaluator.raisesInternal_of_raises happly hraises hkind).imp_right fun h => ?_
    exact ⟨d, hd, hdf, h⟩

theorem ne_runtime_of_compile
    {source : Text} {f : Failure} (h : compile source = .error f) (kind : ErrorKind)
    (message : Text) (cause : Option Failure) :
    f ≠ .runtime kind message cause := by
  unfold compile at h
  split at h
  · cases h
    exact nofun
  · split at h
    · cases h
    · cases h
      exact nofun

theorem kind_of_toFailure
    {f : Fault} {kind : ErrorKind} {message : Text} {cause : Option Failure}
    (h : f.toFailure = .runtime kind message cause) :
    f.kind = kind ∧ f ≠ .recursionLimit := by
  cases f <;> cases h <;> exact ⟨rfl, nofun⟩

/-- Whatever the inputs of a session are, all calls are sound. So are the outcome of
the next input and the bindings it leaves, and a failure of the internal kind has
one of two origins. -/
theorem inputs_are_sound
    {settings : Settings} {input : Input} {s : Session} (hs : Reached settings input s)
    (happly : settings.canApply = true) (source : Text) :
    (∀ e, compile source = .ok e → ∀ c, (s.call e).Contains c → Evaluator.Sound c) ∧
      (∀ v, (s.eval source).1 = .ok v → IsValueOf Head.ofProgram v) ∧
      (∀ f ∈ (s.eval source).2.state.store.frames, ∀ x v, f.get? x = some v →
        v = .placeholder ∨ IsValueOf Head.ofProgram v) ∧
      ∀ message cause, (s.eval source).1 = .error (.runtime .internal message cause) →
        ∃ e c f, compile source = .ok e ∧ (s.call e).Contains c ∧ c.outcome = .error f ∧
          f.toFailure = .runtime .internal message cause ∧ Evaluator.RaisesInternal c f := by
  have hready := hs.ready
  rw [← hs.settings_eq] at happly
  refine ⟨fun e hcompile c hc => hready.sound happly hcompile hc, fun v hv => ?_,
    (hready.eval source).wellFormed.bindings, fun message cause hfailure => ?_⟩
  · obtain ⟨e, hcompile, hv, -⟩ := eval_eq_ok_iff.mp (Prod.ext hv rfl)
    exact (hready.sound happly hcompile .self).value v hv
  · rw [s.eval_eq_call] at hfailure
    split at hfailure
    · rename_i hcompile
      exact absurd (Except.error.inj hfailure) (ne_runtime_of_compile hcompile _ _ _)
    · rename_i e hcompile
      cases houtcome : (s.call e).outcome with
      | ok v =>
          rw [houtcome] at hfailure
          cases hfailure
      | error f =>
          rw [houtcome] at hfailure
          have hf : f.toFailure = .runtime .internal message cause := Except.error.inj hfailure
          obtain ⟨hkind, hlimit⟩ := kind_of_toFailure hf
          have hsound := hready.sound happly hcompile .self
          obtain ⟨c, hc, hcf, hraises⟩ :=
            (hsound.internal f houtcome (.inl hkind)).resolve_left hlimit
          exact ⟨e, c, f, hcompile, hc, hcf, hf, hraises⟩

/-- A function that defines a name only if it is called with zero, and then
evaluates a parameter list. -/
def lateDefinition : Text :=
  "map(lambda (n) \x7b cond (zero?(n) => \x7b def k = n; (k, n) \x7d) (true => n) \x7d, " ++
    "cons(1, cons(0, cons())))"

theorem lateDefinition_is_sound :
    let s := Session.start dynamicSettings ⟨[], none⟩
    Reached dynamicSettings ⟨[], none⟩ s ∧ dynamicSettings.canApply = true ∧
      (match (s.eval lateDefinition).1 with
        | .error (.runtime .internal _ _) => true
        | _ => false : Bool) ∧
      (∀ e, compile lateDefinition = .ok e → ∀ c, (s.call e).Contains c → Evaluator.Sound c) ∧
      (∀ v, (s.eval lateDefinition).1 = .ok v → IsValueOf Head.ofProgram v) ∧
      (∀ f ∈ (s.eval lateDefinition).2.state.store.frames, ∀ x v, f.get? x = some v →
        v = .placeholder ∨ IsValueOf Head.ofProgram v) ∧
      ∀ message cause, (s.eval lateDefinition).1 = .error (.runtime .internal message cause) →
        ∃ e c f, compile lateDefinition = .ok e ∧ (s.call e).Contains c ∧
          c.outcome = .error f ∧ f.toFailure = .runtime .internal message cause ∧
          Evaluator.RaisesInternal c f := by
  intro s
  refine ⟨.start, rfl, ?_, inputs_are_sound .start rfl lateDefinition⟩
  rw [s.eval_eq_call]
  decide +kernel

end Session

end BlockLang
