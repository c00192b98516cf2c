import BlockLang.Proofs.Evaluation.Assembly
import BlockLang.Proofs.Evaluation.Counting
import BlockLang.Session

/-!
# Definitions land in their own block

A definition fills the nearest reservation of its name, which may lie in a frame
further out than the block it stands in. In a run that succeeds this never
happens. No reservation is lost in such a run, so each block makes one definition
for each name that it reserves, and nobody else makes definitions or fills
reservations. By induction, every other call leaves all reservations as it found
them, and so the reservation that a definition finds is the one of its own block.
-/

namespace BlockLang

namespace Evaluator

/-- A definition writes the value of its expression into one frame and changes
nothing else. Before that its name was reserved in this frame. -/
def Lands (c : EvalCall) (frame : FrameId) (x : Text) : Prop :=
  ∃ i value env d v, c.request = .eval (.define i x value) env ∧ c.calls = [d] ∧
    d.request = .eval value env ∧ d.outcome = .ok v ∧ Reserved d.framesAfter frame x ∧
    c.framesAfter = d.framesAfter.modify frame (·.define x v)

/-- A call leaves reservations as it found them. A definition whose name is
reserved in its own frame fills this reservation only, and the definitions that a
block makes fill those of the frame it has made. -/
structure Settled (c : EvalCall) : Prop where
  keeps : c.request.definedName? = none →
    ∀ id x, Reserved c.framesAfter id x ↔ Reserved c.framesBefore id x
  fills : ∀ i y value env, c.request = .eval (.define i y value) env →
    Reserved c.framesBefore env y →
      Lands c env y ∧
        ∀ id x, Reserved c.framesAfter id x ↔
          Reserved c.framesBefore id x ∧ ¬(id = env ∧ x = y)
  lands : ∀ i es env, c.request = .eval (.block i es) env →
    ∀ d ∈ c.calls, ∀ x, d.request.definedName? = some x → Lands d c.framesBefore.size x

variable {fs fs' : Array Frame} {cs : List EvalCall} {vs : List Node}

theorem reserved_of_passes
    (h : Passes fs cs fs') (hcs : ∀ c ∈ cs, Settled c)
    (hnone : ∀ c ∈ cs, c.request.definedName? = none) (id : FrameId) (x : Text) :
    Reserved fs' id x ↔ Reserved fs id x := by
  induction h with
  | nil => exact Iff.rfl
  | push hframe _ ih =>
      rw [ih hcs hnone, reserved_push]
      simp [hframe]
  | call _ ih =>
      obtain ⟨hc, hcs⟩ := List.forall_mem_cons.mp hcs
      obtain ⟨hc', hnone⟩ := List.forall_mem_cons.mp hnone
      rw [ih hcs hnone]
      exact hc.keeps hc' id x

/-- The statements of a block: each definition fills the reservation of its name
in the frame of the block, and no other reservations go. -/
theorem reserved_of_statements
    {frame : FrameId} (h : Chain fs cs vs fs') (hcs : ∀ c ∈ cs, Settled c)
    (hframe : ∀ c ∈ cs, ∃ e, c.request = .eval e frame)
    (hnodup : (definitions cs).Nodup) (hfs : ∀ x ∈ definitions cs, Reserved fs frame x) :
    (∀ c ∈ cs, ∀ x, c.request.definedName? = some x → Lands c frame x) ∧
      ∀ id x, Reserved fs' id x ↔ Reserved fs id x ∧ ¬(id = frame ∧ x ∈ definitions cs) := by
  induction h with
  | nil => simp [definitions]
  | @cons c v cs vs fs' _ _ ih =>
      obtain ⟨hc, hcs⟩ := List.forall_mem_cons.mp hcs
      obtain ⟨⟨e, he⟩, hframe⟩ := List.forall_mem_cons.mp hframe
      cases hname : c.request.definedName? with
      | none =>
          have hdefinitions : definitions (c :: cs) = definitions cs :=
            List.filterMap_cons_none hname
          rw [hdefinitions] at hnodup hfs ⊢
          have hkeeps := hc.keeps hname
          obtain ⟨hlands, hrest⟩ := ih hcs hframe hnodup fun x hx => (hkeeps _ _).mpr (hfs x hx)
          refine ⟨List.forall_mem_cons.mpr ⟨?_, hlands⟩, fun id x => ?_⟩
          · intro x hx
            cases hname.symm.trans hx
          · rw [hrest, hkeeps]
      | some y =>
          have hdefinitions : definitions (c :: cs) = y :: definitions cs :=
            List.filterMap_cons_some hname
          rw [hdefinitions] at hnodup hfs ⊢
          obtain ⟨hfresh, hnodup⟩ := List.nodup_cons.mp hnodup
          obtain ⟨hy, hfs⟩ := List.forall_mem_cons.mp hfs
          obtain ⟨i, value, env, hdefine⟩ := Request.eq_of_definedName? hname
          cases he.symm.trans hdefine
          obtain ⟨hown, hfills⟩ := hc.fills _ _ _ _ hdefine hy
          -- no name comes twice, so the names still to be defined stay reserved
          obtain ⟨hlands, hrest⟩ := ih hcs hframe hnodup fun x hx =>
            (hfills _ _).mpr ⟨hfs x hx, fun h => hfresh (h.2 ▸ hx)⟩
          refine ⟨List.forall_mem_cons.mpr ⟨?_, hlands⟩, fun id x => ?_⟩
          · intro x hx
            cases hname.symm.trans hx
            exact hown
          · rw [hrest, hfills, List.mem_cons, and_assoc, ← not_or, ← and_or_left]

theorem definedName?_of_tidy
    {c d : EvalCall} (htidy : ∀ x, Tidy x c)
    (hblock : ∀ i es env, c.request ≠ .eval (.block i es) env) (hd : d ∈ c.calls) :
    d.request.definedName? = none := by
  cases hname : d.request.definedName? with
  | none => rfl
  | some x =>
      obtain ⟨i, es, env, hr⟩ := (htidy x).direct d hd hname
      exact absurd hr (hblock i es env)

theorem settled_of_block
    {c : EvalCall} {i : Label} {es : List Node} {env : FrameId} {frame : Frame}
    (hr : c.request = .eval (.block i es) env)
    (hframe : ∀ x, frame.reserves x ↔ x ∈ definedNames es)
    (hrequests : c.calls.map Call.request = es.map (.eval · c.framesBefore.size))
    (hchain : Chain (c.framesBefore.push frame) c.calls vs c.framesAfter)
    (hnodup : (definedNames es).Nodup) (hcalls : ∀ d ∈ c.calls, Settled d) :
    Settled c := by
  have hnames := definitions_eq_definedNames hrequests
  have hmade : ∀ d ∈ c.calls, ∃ e, d.request = .eval e c.framesBefore.size := by
    intro d hd
    obtain ⟨e, -, he⟩ := exists_of_map_request hrequests hd
    exact ⟨e, he⟩
  have hreserved : ∀ x ∈ definitions c.calls,
      Reserved (c.framesBefore.push frame) c.framesBefore.size x := by
    intro x hx
    rw [hnames] at hx
    exact reserved_push.mpr (.inl ⟨rfl, (hframe x).mpr hx⟩)
  obtain ⟨hlands, hrest⟩ :=
    reserved_of_statements hchain hcalls hmade (hnames ▸ hnodup) hreserved
  refine ⟨fun _ id x => ?_, fun i' y value env' hdefine => ?_, fun _ _ _ _ => hlands⟩
  · rw [hrest, reserved_push, hnames, hframe]
    constructor
    · rintro ⟨hown | hx, hnot⟩
      · exact absurd hown hnot
      · exact hx
    · intro hx
      refine ⟨.inr hx, ?_⟩
      rintro ⟨rfl, -⟩
      exact not_reserved_of_size_le (Nat.le_refl _) hx
  · cases hr.symm.trans hdefine

/-- One call: where definitions are made by blocks only and assignments spare
reservations, all is settled if it is settled in the calls that are made. -/
theorem settled_of_shape
    {c : EvalCall} (hshape : Shape c) (htidy : ∀ x, Tidy x c) (hcalls : ∀ d ∈ c.calls, Settled d) :
    Settled c := by
  cases hshape with
  | plain hplain hpasses =>
      have hblock := Request.isPlain_ne_block hplain
      have hkeeps := reserved_of_passes hpasses hcalls fun d => definedName?_of_tidy htidy hblock
      refine ⟨fun _ => hkeeps, fun i y value env hr => ?_, fun i es env hr => ?_⟩
      · rw [hr] at hplain
        cases hplain
      · exact absurd hr (hblock i es env)
  | @block i es vs env frame hr hframe hrequests hchain =>
      have hnodup := List.nodup_iff_count.mpr fun x => (htidy x).once i es env hr
      exact settled_of_block hr hframe hrequests hchain hnodup hcalls
  | @define i y value v env target d hr hsingle hvalue hbefore hd hv htarget hafter =>
      have hmem : d ∈ c.calls := hsingle ▸ List.mem_singleton_self d
      have hnone := definedName?_of_tidy htidy (by simp [hr]) hmem
      have hkeeps := (hcalls d hmem).keeps hnone
      rw [hbefore] at hkeeps
      refine ⟨fun hname => ?_, fun i' y' value' env' hdefine hreserved => ?_,
        fun i' es env' hblock => ?_⟩
      · rw [hr] at hname
        cases hname
      · cases hr.symm.trans hdefine
        -- making the value has left the reservation in place, and it is the nearest one
        have hown : Reserved d.framesAfter env y := (hkeeps env y).mpr hreserved
        cases htarget.symm.trans (Store.findPlaceholder?_of_reserved hown)
        refine ⟨⟨i, value, env, d, v, hr, hsingle, hvalue, hd, hown, hafter⟩, fun id x => ?_⟩
        rw [hafter, reserved_define hv, hkeeps]
      · cases hr.symm.trans hblock
  | @assign i y value v env target d hr hsingle hbefore hd hv htarget hafter =>
      have hmem : d ∈ c.calls := hsingle ▸ List.mem_singleton_self d
      have hnone := definedName?_of_tidy htidy (by simp [hr]) hmem
      have hkeeps := (hcalls d hmem).keeps hnone
      rw [hbefore] at hkeeps
      have hspared := (htidy y).spared i value env hr d hmem target htarget
      refine ⟨fun _ id x => ?_, fun i' y' value' env' hdefine => ?_, fun i' es env' hblock => ?_⟩
      · rw [hafter, reserved_define hv, ← hkeeps, and_iff_left_iff_imp]
        rintro hx ⟨rfl, rfl⟩
        exact hspared hx
      · cases hr.symm.trans hdefine
      · cases hr.symm.trans hblock

/-- All calls of a run are settled if no reservation is lost in it. -/
theorem settled_of_tidy
    {settings : Settings} (c : EvalCall) :
    Regular settings c → (∀ d, c.Contains d → ∀ x, Tidy x d) → Settled c := by
  induction c using Call.induction with
  | step c ih =>
      intro hc htidy
      refine settled_of_shape hc.shape (htidy c .self) fun d hd => ?_
      exact ih d hd (hc.of_mem hd) fun e he => htidy e (Call.Contains.trans (.inner .self hd) he)

end Evaluator

/-! ## Programs -/

namespace Session

/-- The state in which an expression is evaluated at the top: the name of a
definition is reserved. -/
def reserve (frame : FrameId) (e : Node) (s : State) : State :=
  match e with
  | .define _ x _ => s.mapStore (·.declare frame x)
  | _ => s

theorem balanced_reserve
    (frame : FrameId) (e : Node) (s : State) :
    s.Balanced (reserve frame e s) := by
  cases e <;> exact ⟨rfl, rfl⟩

/-- The call that evaluates a program in a session. -/
def call (s : Session) (e : Source) : EvalCall :=
  let (node, state) := loadTree s.state e
  (Evaluator.rules s.settings).call (s.settings.limit - s.state.depth) (.eval node s.frame)
    (reserve s.frame node state)

theorem balanced_call
    (s : Session) (e : Source) :
    s.state.Balanced (s.call e).after := by
  have hafter : (s.call e).after =
      ((Evaluator.rules s.settings).perform (s.settings.limit - s.state.depth)
        (.eval (loadTree s.state e).1 s.frame)
        (reserve s.frame (loadTree s.state e).1 (loadTree s.state e).2)).2 := by
    rw [← Rules.call_eq_perform]
    rfl
  have hloaded : s.state.Balanced (loadTree s.state e).2 := ⟨rfl, rfl⟩
  rw [hafter]
  exact (hloaded.trans (balanced_reserve _ _ _)).trans (Evaluator.balanced_perform _ _ _ _)

/-- The state after a call that evaluates a program in a session. A definition that
has failed gives its name back. -/
def settle (s : Session) (c : EvalCall) : State :=
  match c.request.definedName?, c.outcome with
  | some x, .error _ => c.after.mapStore (restore s.frame x (s.state.store.getLocal? s.frame x))
  | _, _ => c.after

theorem settle_of_ok
    {s : Session} {c : EvalCall} {v : Node} (hv : c.outcome = .ok v) :
    s.settle c = c.after := by
  rw [settle, hv]
  cases c.request.definedName? <;> rfl

theorem evalTop_eq
    (s : Session) (e : Source) :
    evalTop s.settings s.frame (loadTree s.state e).1 (loadTree s.state e).2 =
      ((s.call e).outcome, s.settle (s.call e)) := by
  have hrequest : (s.call e).request = .eval (loadTree s.state e).1 s.frame :=
    Rules.call_request _ _ _ _
  have hrun : Evaluator.eval s.settings (loadTree s.state e).1 s.frame
      (reserve s.frame (loadTree s.state e).1 (loadTree s.state e).2) =
        ((s.call e).outcome, (s.call e).after) := by
    rw [Evaluator.eval_eq_perform, ← Rules.call_eq_perform, (balanced_reserve _ _ _).depth]
    rfl
  have hlocal : (loadTree s.state e).2.store.getLocal? = s.state.store.getLocal? := rfl
  revert hrequest hrun
  rw [settle]
  generalize (loadTree s.state e).1 = node
  intro hrequest hrun
  rw [hrequest]
  cases node
  case define i x value =>
    rw [evalTop, hlocal]
    rw [reserve] at hrun
    rw [hrun]
    cases (s.call e).outcome <;> rfl
  all_goals exact hrun

/-- A source that is a program is evaluated by one call. -/
theorem eval_eq
    {source : Text} {e : Source} (s : Session) (hcompile : compile source = .ok e) :
    s.eval source =
      ((s.call e).outcome.mapError Fault.toFailure,
        { s with state := s.settle (s.call e) }) := by
  have htop := s.evalTop_eq e
  unfold Session.eval
  rw [hcompile]
  dsimp only
  rw [htop]

theorem eval_eq_call
    (s : Session) (source : Text) :
    s.eval source =
      match compile source with
      | .error f => (.error f, s)
      | .ok e =>
        ((s.call e).outcome.mapError Fault.toFailure, { s with state := s.settle (s.call e) }) := by
  cases hcompile : compile source with
  | error f => rw [Session.eval, hcompile]
  | ok e => exact s.eval_eq hcompile

/-- A source succeeds if it is a program whose call succeeds. -/
theorem eval_eq_ok_iff
    {s s' : Session} {source : Text} {v : Node} :
    s.eval source = (.ok v, s') ↔
      ∃ e, compile source = .ok e ∧ (s.call e).outcome = .ok v ∧
        s' = { s with state := (s.call e).after } := by
  cases hcompile : compile source with
  | error f => simp [Session.eval, hcompile]
  | ok e =>
      rw [s.eval_eq hcompile]
      constructor
      · intro h
        obtain ⟨houtcome, hsession⟩ := Prod.mk.inj h
        cases hv : (s.call e).outcome with
        | error f =>
            rw [hv] at houtcome
            cases houtcome
        | ok w =>
            rw [hv] at houtcome
            cases houtcome
            exact ⟨e, rfl, hv, by rw [← hsession, settle_of_ok hv]⟩
      · rintro ⟨_, ⟨⟩, hv, rfl⟩
        rw [hv, settle_of_ok hv]
        rfl

theorem exists_ok_of_call
    {settings : Settings} {input : Input} {source : Text} {p : Node → Bool}
    (h : (compile source).toOption.any fun e =>
      ((start settings input).call e).outcome.toOption.any p) :
    ∃ v, (runProgram settings input source).1 = .ok v ∧ p v := by
  cases hcompile : compile source with
  | error f =>
      rw [hcompile] at h
      cases h
  | ok e =>
      rw [hcompile] at h
      cases hv : ((start settings input).call e).outcome with
      | error f => simp [Except.toOption, hv] at h
      | ok v =>
          have heval := eval_eq_ok_iff.mpr ⟨e, hcompile, hv, rfl⟩
          refine ⟨v, congrArg Prod.fst heval, ?_⟩
          simpa [Except.toOption, hv] using h

/-- Evaluates sources one after the other. Each outcome comes with the session after
it. -/
def evalEach (s : Session) : List Text → List (Except Failure Node × Session)
  | [] => []
  | source :: sources => s.eval source :: (s.eval source).2.evalEach sources

/-- The outcomes of sources that are evaluated one after the other, and the session in
the end. -/
def evalAll (s : Session) (sources : List Text) : List (Except Failure Node) × Session :=
  ((s.evalEach sources).map Prod.fst, ((s.evalEach sources).map Prod.snd).getLastD s)

theorem evalAll_cons
    (s : Session) (source : Text) (sources : List Text) :
    s.evalAll (source :: sources) =
      ((s.eval source).1 :: ((s.eval source).2.evalAll sources).1,
        ((s.eval source).2.evalAll sources).2) := by
  rw [evalAll, evalEach, List.map_cons, List.map_cons, List.getLastD_cons]
  rfl

/-! ## A new session -/

/-- The frames that a new session is placed in. -/
def library : Array Frame :=
  #[⟨none, Library.constants ++ Library.procedures 0⟩]

theorem mem_of_library
    {f : Frame} (hf : f ∈ library) {x : Text} {v : Node} (hv : f.get? x = some v) :
    (x, v) ∈ Library.constants ++ Library.procedures 0 := by
  rw [library, List.mem_toArray, List.mem_singleton] at hf
  subst hf
  obtain ⟨front, back, heq, -⟩ := List.lookup_eq_some_iff.mp hv
  simp only at heq
  rw [heq]
  simp

theorem isValueOf_library
    {p : Head → Bool} (hp : ∀ q : Procedure, p (.procedure q.name true)) {f : Frame}
    (hf : f ∈ library) {x : Text} {v : Node} (hv : f.get? x = some v) :
    IsValueOf p v := by
  rcases List.mem_append.mp (mem_of_library hf hv) with hconstant | hprocedure
  · simp only [Library.constants, List.mem_cons, Prod.mk.injEq, List.not_mem_nil, or_false]
      at hconstant
    rcases hconstant with ⟨-, rfl⟩ | ⟨-, rfl⟩ | ⟨-, rfl⟩ | ⟨-, rfl⟩ | ⟨-, rfl⟩ <;> constructor
  · obtain ⟨⟨q, i⟩, -, heq⟩ := List.mem_map.mp hprocedure
    cases heq
    exact .procedure _ (hp q)

theorem proper_library :
    Proper library :=
  fun _ hf _ _ hv => .inr (isValueOf_library (fun _ => rfl) hf hv)

theorem reservations_library
    (x : Text) :
    reservations library x = 0 := by
  refine Array.countP_eq_zero.mpr fun f hf => ?_
  rw [Evaluator.reserves_eq_false (fun _ _ => isValueOf_library (fun _ => rfl) hf) x]
  exact Bool.false_ne_true

theorem frames_reserve
    {s : State} {fs : Array Frame} {outer : Option FrameId}
    (hs : s.store.frames = fs.push ⟨outer, []⟩) (e : Node) :
    ∃ f, (reserve fs.size e s).store.frames = fs.push f ∧
      ∀ x, f.get? x = if e.definedName? = some x then some .placeholder else none := by
  cases e
  case define i y value =>
    refine ⟨_, Store.frames_define_push hs y .placeholder, fun x => ?_⟩
    rw [Frame.get?_define]
    by_cases hx : x = y
    · simp [Expr.definedName?, hx]
    · have hy : ¬y = x := fun h => hx h.symm
      simp [Expr.definedName?, Frame.get?, hx, hy]
  all_goals exact ⟨_, hs, fun x => by simp [Expr.definedName?, Frame.get?]⟩

/-- A program starts in the frame of the library and the frame of the session,
which reserves the name of a definition and binds nothing else. -/
theorem framesBefore_call_start
    (settings : Settings) (input : Input) (e : Source) :
    ∃ f, ((start settings input).call e).framesBefore = library.push f ∧
      ∀ x, f.get? x =
        if ((start settings input).call e).request.definedName? = some x then some .placeholder
        else none := by
  have hframes : (loadTree (start settings input).state e).2.store.frames =
      library.push ⟨some 0, []⟩ := rfl
  obtain ⟨f, hf, hget⟩ := frames_reserve hframes (loadTree (start settings input).state e).1
  refine ⟨f, ?_, ?_⟩
  · rw [Call.framesBefore, call, Rules.call_before]
    exact hf
  · rw [call, Rules.call_request]
    exact hget

theorem regular_call_start
    {settings : Settings} {input : Input} {source : Text} {e : Source} {v : Node}
    (hcompile : compile source = .ok e)
    (hv : ((start settings input).call e).outcome = .ok v) :
    Evaluator.Regular settings ((start settings input).call e) := by
  obtain ⟨f, hf, hget⟩ := framesBefore_call_start settings input e
  refine ⟨Rules.governs_call _ _ _ _, ⟨?_, ?_⟩, v, hv⟩
  · rw [call, Rules.call_request]
    obtain ⟨_, -, hlift⟩ := exists_of_compile hcompile
    have hfree := within_notList_of_lift hlift
    rw [← Expr.within_labelled e (start settings input).state.store.nextLabel] at hfree
    exact hfree
  · rw [hf]
    refine proper_push proper_library fun x w hw => .inl ?_
    rw [hget] at hw
    split at hw <;> cases hw
    rfl

/-- The only reservation at the start is the one for a definition at the top. -/
theorem reservations_call_start
    (settings : Settings) (input : Input) (e : Source) (x : Text) :
    reservations ((start settings input).call e).framesBefore x =
      Evaluator.due ((start settings input).call e).request x := by
  obtain ⟨f, hf, hget⟩ := framesBefore_call_start settings input e
  rw [hf, reservations_push, reservations_library, Frame.reserves, hget, Evaluator.due]
  split <;> simp [Expr.isPlaceholder]

theorem reserved_call_start
    {settings : Settings} {input : Input} {e : Source} {x : Text}
    (hx : ((start settings input).call e).request.definedName? = some x) :
    Reserved ((start settings input).call e).framesBefore (start settings input).frame x := by
  obtain ⟨f, hf, hget⟩ := framesBefore_call_start settings input e
  rw [hf]
  refine reserved_push.mpr (.inl ⟨rfl, ?_⟩)
  rw [Frame.reserves, hget, if_pos hx]
  rfl

end Session

/-! ## Runs -/

/-- How definitions and assignments go in a run that starts with one call in a
frame. All calls succeed. A definition at the top lands in that frame; every other
definition is a statement of a block and lands in the frame that this block has
made. An assignment does not write over a reserved name. No block defines a name
twice. -/
structure DefinesInOwnBlocks (frame : FrameId) (root : EvalCall) : Prop where
  succeeds : ∀ c, root.Contains c → ∃ v, c.outcome = .ok v
  top : ∀ x, root.request.definedName? = some x → Evaluator.Lands root frame x
  direct : ∀ c, root.Contains c → ∀ d ∈ c.calls, ∀ x, d.request.definedName? = some x →
    ∃ i es env, c.request = .eval (.block i es) env ∧
      (∃ e ∈ es, d.request = .eval e (c.before.enclose env).1) ∧
      Evaluator.Lands d (c.before.enclose env).1 x
  spared : ∀ c, root.Contains c → ∀ i x value env, c.request = .eval (.assign i x value) env →
    ∃ d v target, c.calls = [d] ∧ d.outcome = .ok v ∧ ¬Reserved d.framesAfter target x ∧
      c.framesAfter = d.framesAfter.modify target (·.define x v)
  once : ∀ c, root.Contains c → ∀ i es env, c.request = .eval (.block i es) env →
    (definedNames es).Nodup

/-- Definitions land in their own block if the run starts with no reservations
but the one for its own definition. -/
theorem definesInOwnBlocks_of_regular
    {settings : Settings} {frame : FrameId} {root : EvalCall} {e : Node}
    (hroot : Evaluator.Regular settings root) (hr : root.request = .eval e frame)
    (hcount : ∀ x, reservations root.framesBefore x = Evaluator.due root.request x)
    (hreserved : ∀ x, root.request.definedName? = some x → Reserved root.framesBefore frame x) :
    DefinesInOwnBlocks frame root := by
  have hregular : ∀ c, root.Contains c → Evaluator.Regular settings c :=
    fun c hc => hroot.of_contains hc
  have htidy : ∀ c, root.Contains c → ∀ x, Evaluator.Tidy x c := by
    intro c hc x
    refine (hroot.balanced x root).2 ?_ c hc
    rw [hcount]
    exact Nat.le_add_left _ _
  have hsettled : ∀ c, root.Contains c → Evaluator.Settled c := fun c hc =>
    Evaluator.settled_of_tidy c (hregular c hc) fun d hd => htidy d (hc.trans hd)
  refine ⟨fun c hc => (hregular c hc).succeeds, ?_, ?_, ?_, ?_⟩
  · intro x hx
    obtain ⟨i, value, env, hdefine⟩ := Request.eq_of_definedName? hx
    cases hr.symm.trans hdefine
    exact ((hsettled root .self).fills _ _ _ _ hdefine (hreserved x hx)).1
  · intro c hc d hd x hx
    obtain ⟨i, es, env, hblock⟩ := (htidy c hc x).direct d hd hx
    obtain ⟨_, -, -, hform⟩ := (hregular c hc).form
    rw [hblock] at hform
    obtain ⟨_, _, -, hrequests, -⟩ := hform.exists_frame
    exact ⟨i, es, env, hblock, exists_of_map_request hrequests hd,
      (hsettled c hc).lands i es env hblock d hd x hx⟩
  · intro c hc i x value env hassign
    obtain ⟨v, -, -, hform⟩ := (hregular c hc).form
    rw [hassign] at hform
    obtain ⟨d, target, hcalls, -, hv, htarget, hafter⟩ := hform.exists_binding
    have hmem : d ∈ c.calls := hcalls ▸ List.mem_singleton_self d
    have hspared := (htidy c hc x).spared i value env hassign d hmem target htarget
    exact ⟨d, v, target, hcalls, hv, hspared, hafter⟩
  · intro c hc i es env hblock
    exact List.nodup_iff_count.mpr fun x => (htidy c hc x).once i es env hblock

/-- In every run that succeeds, definitions land in their own block. -/
theorem run_defines_in_own_blocks
    {settings : Settings} {input : Input} {source : Text} {v : Node}
    (h : (runProgram settings input source).1 = .ok v) :
    ∃ e root, compile source = .ok e ∧ root = (Session.start settings input).call e ∧
      root.outcome = .ok v ∧ root.after = (runProgram settings input source).2.state ∧
      DefinesInOwnBlocks (Session.start settings input).frame root := by
  have heval : (Session.start settings input).eval source =
      (.ok v, (runProgram settings input source).2) := Prod.ext h rfl
  obtain ⟨e, he, hv, hsession⟩ := Session.eval_eq_ok_iff.mp heval
  refine ⟨e, _, he, rfl, hv, by rw [hsession], ?_⟩
  exact definesInOwnBlocks_of_regular (Session.regular_call_start he hv)
    (Rules.call_request _ _ _ _) (Session.reservations_call_start settings input e)
    (fun _ => Session.reserved_call_start)

/-- A function that counts its calls: every call defines the same names again,
and the whole program is the value of a definition. -/
def countCalls : Text :=
  "def r = \x7b def f = lambda (n) \x7b def m = sub(n, 1); cond (zero?(m) => 1) (true => " ++
    "\x7b def k = f(m); k = add(k, 1); k \x7d) \x7d; f(3) \x7d"

/-- Settings under which calls extend the frame of the caller. -/
def dynamicSettings : Settings :=
  ⟨false, false, 50, true, none, fun _ => .error "no file"⟩

theorem countCalls_yields :
    ∃ v, (runProgram dynamicSettings ⟨[], none⟩ countCalls).1 = .ok v ∧ v.same (.integer 3) :=
  Session.exists_ok_of_call (by decide +kernel)

/-- Three calls of one function are in progress, each with a definition of the
same name that is still to be made. -/
theorem countCalls_defines_in_own_blocks :
    ∃ v, (runProgram dynamicSettings ⟨[], none⟩ countCalls).1 = .ok v ∧ v.same (.integer 3) ∧
      ∃ e root, compile countCalls = .ok e ∧
        root = (Session.start dynamicSettings ⟨[], none⟩).call e ∧ root.outcome = .ok v ∧
        root.after = (runProgram dynamicSettings ⟨[], none⟩ countCalls).2.state ∧
        DefinesInOwnBlocks (Session.start dynamicSettings ⟨[], none⟩).frame root := by
  obtain ⟨v, hv, hsame⟩ := countCalls_yields
  exact ⟨v, hv, hsame, run_defines_in_own_blocks hv⟩

end BlockLang
