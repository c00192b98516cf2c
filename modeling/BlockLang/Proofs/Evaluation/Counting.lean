import BlockLang.Proofs.Evaluation.Regular

/-!
# Counting reservations

A block reserves each name that it defines once and runs all its definitions. A
definition fills one reservation, an assignment may fill one, and nothing else
changes their number. So a call never leaves more reservations of a name than it
found, and a definition of the name leaves fewer. If no reservation is lost on the
way, then definitions are made by blocks only, by each block at most once for a
name, and no assignment fills a reservation.
-/

namespace BlockLang

/-- The name that a request is a definition of. -/
def Request.definedName? : Request → Option Text
  | .eval e _ => e.definedName?
  | .apply .. => none

/-- Whether a request is no block, no definition and no assignment. -/
def Request.isPlain : Request → Bool
  | .eval (.block ..) _ | .eval (.define ..) _ | .eval (.assign ..) _ => false
  | _ => true

theorem Request.definedName?_of_isPlain
    {r : Request} (h : r.isPlain) :
    r.definedName? = none := by
  cases r with
  | eval e env => cases e <;> first | rfl | cases h
  | apply => rfl

theorem Request.isPlain_ne_block
    {r : Request} (h : r.isPlain) (i : Label) (es : List Node) (env : FrameId) :
    r ≠ .eval (.block i es) env := by
  rintro rfl
  cases h

theorem Request.isPlain_ne_assign
    {r : Request} (h : r.isPlain) (i : Label) (x : Text) (value : Node) (env : FrameId) :
    r ≠ .eval (.assign i x value) env := by
  rintro rfl
  cases h

theorem Request.eq_of_definedName?
    {r : Request} {x : Text} (h : r.definedName? = some x) :
    ∃ i value env, r = .eval (.define i x value) env := by
  cases r with
  | eval e env =>
      cases e <;> cases h
      exact ⟨_, _, env, rfl⟩
  | apply => cases h

/-- The names that calls are definitions of. -/
def definitions (cs : List EvalCall) : List Text :=
  cs.filterMap (·.request.definedName?)

theorem definitions_eq_definedNames
    {cs : List EvalCall} {es : List Node} {env : FrameId}
    (h : cs.map Call.request = es.map (.eval · env)) :
    definitions cs = definedNames es := by
  calc
    definitions cs = (cs.map Call.request).filterMap Request.definedName? := by
      rw [List.filterMap_map]
      rfl
    _ = (es.map (.eval · env)).filterMap Request.definedName? := by rw [h]
    _ = definedNames es := by
      rw [List.filterMap_map]
      rfl

namespace Evaluator

/-! ## Requests by what they do to reservations -/

/-- Frames pass through calls, and between them nothing happens but that frames
without reservations are added. -/
inductive Passes : Array Frame → List EvalCall → Array Frame → Prop where
  | nil (fs : Array Frame) : Passes fs [] fs
  | push {fs fs' : Array Frame} {cs : List EvalCall} {frame : Frame}
      (hframe : ∀ x, frame.reserves x = false) (hrest : Passes (fs.push frame) cs fs') :
      Passes fs cs fs'
  | call {c : EvalCall} {cs : List EvalCall} {fs : Array Frame}
      (hrest : Passes c.framesAfter cs fs) :
      Passes c.framesBefore (c :: cs) fs

/-- What a call does to reservations: a block adds those of the names it
defines, a definition fills one and an assignment writes somewhere. -/
inductive Shape (c : EvalCall) : Prop where
  | plain (hr : c.request.isPlain) (hpasses : Passes c.framesBefore c.calls c.framesAfter)
  | block {i : Label} {es vs : List Node} {env : FrameId} {frame : Frame}
      (hr : c.request = .eval (.block i es) env)
      (hframe : ∀ x, frame.reserves x ↔ x ∈ definedNames es)
      (hcalls : c.calls.map Call.request = es.map (.eval · c.framesBefore.size))
      (hchain : Chain (c.framesBefore.push frame) c.calls vs c.framesAfter)
  | define {i : Label} {x : Text} {value v : Node} {env target : FrameId} {d : EvalCall}
      (hr : c.request = .eval (.define i x value) env) (hcalls : c.calls = [d])
      (hvalue : d.request = .eval value env)
      (hbefore : d.framesBefore = c.framesBefore) (hd : d.outcome = .ok v)
      (hv : v.isPlaceholder = false)
      (htarget : d.after.store.findPlaceholder? env x = some target)
      (hafter : c.framesAfter = d.framesAfter.modify target (·.define x v))
  | assign {i : Label} {x : Text} {value v : Node} {env target : FrameId} {d : EvalCall}
      (hr : c.request = .eval (.assign i x value) env) (hcalls : c.calls = [d])
      (hbefore : d.framesBefore = c.framesBefore) (hd : d.outcome = .ok v)
      (hv : v.isPlaceholder = false)
      (htarget : d.after.store.findBinding? env x = some target)
      (hafter : c.framesAfter = d.framesAfter.modify target (·.define x v))

variable {fs fs' : Array Frame} {cs cs' : List EvalCall} {vs : List Node} {v : Node}

theorem Passes.append
    {fs'' : Array Frame} (h : Passes fs cs fs') (h' : Passes fs' cs' fs'') :
    Passes fs (cs ++ cs') fs'' := by
  induction h with
  | nil => exact h'
  | push hframe _ ih => exact .push hframe (ih h')
  | call _ ih => exact .call (ih h')

theorem passes_of_chain
    (h : Chain fs cs vs fs') :
    Passes fs cs fs' := by
  induction h with
  | nil => exact .nil _
  | cons _ _ ih => exact .call ih

theorem reserves_eq_false
    {frame : Frame} (h : ∀ x w, frame.get? x = some w → IsValue w) (x : Text) :
    frame.reserves x = false := by
  cases hget : frame.get? x with
  | none => simp [Frame.reserves, hget]
  | some w => simp [Frame.reserves, hget, (h x w hget).isPlaceholder_eq_false]

theorem passes_of_applies
    {f : Node} {args : List Node} (h : Applies f args fs cs v fs')
    (hargs : ∀ a ∈ args, IsValue a) :
    Passes fs cs fs' := by
  cases h with
  | procedure => exact .nil _
  | map _ _ hchain => exact passes_of_chain hchain
  | @lambda _ _ _ frame c _ _ hframe _ hpush _ =>
      have hnone := reserves_eq_false fun x w hw => hargs w (hframe x w hw)
      refine .push hnone ?_
      rw [← hpush]
      exact .call (.nil _)

theorem isValue_of_chain
    {settings : Settings} (h : Chain fs cs vs fs') (hcs : ∀ c ∈ cs, Regular settings c) :
    ∀ v ∈ vs, IsValue v := by
  induction h with
  | nil => simp
  | cons hv _ ih =>
      obtain ⟨hc, hcs⟩ := List.forall_mem_cons.mp hcs
      exact List.forall_mem_cons.mpr ⟨hc.isValue hv, ih hcs⟩

theorem Form.passes
    {settings : Settings} {r : Request} {s : Store} (h : Form r s cs v fs)
    (hr : r.IsProper) (hplain : r.isPlain) (hcs : ∀ c ∈ cs, Regular settings c) :
    Passes s.frames cs fs := by
  cases h with
  | literal | identifier => exact .nil _
  | block | define | assign => cases hplain
  | cond _ hchain => exact passes_of_chain hchain
  | letIn _ hbefore hw hframe _ hpush _ =>
      have hvalue := (hcs _ List.mem_cons_self).isValue hw
      have hnone := reserves_eq_false fun y u hu => hframe y u hu ▸ hvalue
      rw [← hbefore]
      refine .call (.push hnone ?_)
      rw [← hpush]
      exact .call (.nil _)
  | apply _ hchain happlies =>
      have hvalues := isValue_of_chain hchain fun c hc => hcs c (List.mem_append_left _ hc)
      have hargs := (List.forall_mem_cons.mp hvalues).2
      exact (passes_of_chain hchain).append (passes_of_applies happlies hargs)
  | request happlies => exact passes_of_applies happlies hr.2

theorem Form.exists_frame
    {i : Label} {es : List Node} {env : FrameId} {s : Store}
    (h : Form (.eval (.block i es) env) s cs v fs) :
    ∃ frame vs, (∀ x, frame.reserves x ↔ x ∈ definedNames es) ∧
      cs.map Call.request = es.map (.eval · s.frames.size) ∧
      Chain (s.frames.push frame) cs vs fs := by
  cases h with
  | literal he => cases he
  | @block _ _ vs _ _ frame _ _ _ hframe hcs hchain _ =>
      refine ⟨frame, vs, fun x => ?_, hcs, hchain⟩
      rw [Frame.reserves, hframe]
      split <;> simp [*, Expr.isPlaceholder]

theorem Form.exists_target
    {i : Label} {x : Text} {value : Node} {env : FrameId} {s : Store}
    (h : Form (.eval (.define i x value) env) s cs v fs) :
    ∃ d target, cs = [d] ∧ d.request = .eval value env ∧ d.framesBefore = s.frames ∧
      d.outcome = .ok v ∧ d.after.store.findPlaceholder? env x = some target ∧
      fs = d.framesAfter.modify target (·.define x v) := by
  cases h with
  | literal he => cases he
  | define hd hbefore hv htarget => exact ⟨_, _, rfl, hd, hbefore, hv, htarget, rfl⟩

theorem Form.exists_binding
    {i : Label} {x : Text} {value : Node} {env : FrameId} {s : Store}
    (h : Form (.eval (.assign i x value) env) s cs v fs) :
    ∃ d target, cs = [d] ∧ d.framesBefore = s.frames ∧ d.outcome = .ok v ∧
      d.after.store.findBinding? env x = some target ∧
      fs = d.framesAfter.modify target (·.define x v) := by
  cases h with
  | literal he => cases he
  | assign _ hbefore hv htarget => exact ⟨_, _, rfl, hbefore, hv, htarget, rfl⟩

/-- Every regular call has one of the shapes. -/
theorem Regular.shape
    {settings : Settings} {c : EvalCall} (h : Regular settings c) :
    Shape c := by
  obtain ⟨v, -, hvalue, hform⟩ := h.form
  by_cases hplain : c.request.isPlain
  · exact .plain hplain (hform.passes h.begins.1 hplain fun d hd => h.of_mem hd)
  · generalize hr : c.request = r at hplain hform
    rcases r with ⟨e, env⟩ | ⟨f, args⟩
    · cases e
      case block i es =>
        obtain ⟨frame, vs, hframe, hcalls, hchain⟩ := hform.exists_frame
        exact .block hr hframe hcalls hchain
      case define i x value =>
        obtain ⟨d, target, hcalls, hd, hbefore, hv, htarget, hafter⟩ := hform.exists_target
        exact .define hr hcalls hd hbefore hv hvalue.isPlaceholder_eq_false htarget hafter
      case assign i x value =>
        obtain ⟨d, target, hcalls, hbefore, hv, htarget, hafter⟩ := hform.exists_binding
        exact .assign hr hcalls hbefore hv hvalue.isPlaceholder_eq_false htarget hafter
      all_goals exact absurd rfl hplain
    · exact absurd rfl hplain

/-! ## The number of reservations -/

/-- The number of reservations of a name that a request must fill: one if it is
a definition of the name. -/
def due (r : Request) (x : Text) : Nat :=
  if r.definedName? = some x then 1 else 0

/-- What holds of a call when no reservation of a name is lost in it. Only
blocks make definitions of the name, no block makes two of them, and an
assignment to the name does not fill a reservation. -/
structure Tidy (x : Text) (c : EvalCall) : Prop where
  direct : ∀ d ∈ c.calls, d.request.definedName? = some x →
    ∃ i es env, c.request = .eval (.block i es) env
  once : ∀ i es env, c.request = .eval (.block i es) env → (definedNames es).count x ≤ 1
  spared : ∀ i value env, c.request = .eval (.assign i x value) env →
    ∀ d ∈ c.calls, ∀ target, d.after.store.findBinding? env x = some target →
      ¬Reserved d.framesAfter target x

/-- A call leaves no more reservations of a name than it found, and if none is
lost then all calls within it are tidy. -/
def Balanced (x : Text) (c : EvalCall) : Prop :=
  reservations c.framesAfter x + due c.request x ≤ reservations c.framesBefore x ∧
    (reservations c.framesBefore x ≤ reservations c.framesAfter x + due c.request x →
      ∀ d, c.Contains d → Tidy x d)

theorem count_definitions_cons
    (c : EvalCall) (cs : List EvalCall) (x : Text) :
    (definitions (c :: cs)).count x = due c.request x + (definitions cs).count x := by
  rw [definitions, List.filterMap_cons, due, ← definitions]
  cases c.request.definedName? with
  | none => simp
  | some y => simp [List.count_cons, Nat.add_comm]

theorem Passes.balanced
    {x : Text} (h : Passes fs cs fs') (hcs : ∀ c ∈ cs, Balanced x c) :
    reservations fs' x + (definitions cs).count x ≤ reservations fs x ∧
      (reservations fs x ≤ reservations fs' x + (definitions cs).count x →
        ∀ c ∈ cs, ∀ d, c.Contains d → Tidy x d) := by
  induction h with
  | nil => simp [definitions]
  | push hframe _ ih =>
      have hpushed := ih hcs
      rw [reservations_push, hframe] at hpushed
      exact hpushed
  | @call c cs fs _ ih =>
      obtain ⟨hc, hcs⟩ := List.forall_mem_cons.mp hcs
      obtain ⟨hfirst, htidy⟩ := hc
      obtain ⟨hrest, hrests⟩ := ih hcs
      rw [count_definitions_cons]
      refine ⟨by omega, fun htight => List.forall_mem_cons.mpr ⟨?_, ?_⟩⟩
      · exact htidy (by omega)
      · exact hrests (by omega)

theorem not_mem_definitions
    {x : Text} (h : (definitions cs).count x = 0) :
    ∀ c ∈ cs, c.request.definedName? ≠ some x := by
  intro c hc hx
  exact List.count_eq_zero.mp h (List.mem_filterMap.mpr ⟨c, hc, hx⟩)

/-- A call is balanced if the reservations that it adds before its calls and
fills after them are made up for by definitions among its calls. -/
theorem balanced_of_passes
    {x : Text} {c : EvalCall} {start mid : Array Frame}
    (hpasses : Passes start c.calls mid) (hcalls : ∀ d ∈ c.calls, Balanced x d)
    (hle : reservations start x + reservations c.framesAfter x + due c.request x ≤
      reservations c.framesBefore x + reservations mid x + (definitions c.calls).count x)
    (htidy : reservations c.framesBefore x + reservations mid x + (definitions c.calls).count x ≤
      reservations start x + reservations c.framesAfter x + due c.request x → Tidy x c) :
    Balanced x c := by
  obtain ⟨hmid, hall⟩ := hpasses.balanced hcalls
  refine ⟨by omega, fun htight d hd => ?_⟩
  rcases hd.eq_or_exists with rfl | ⟨e, he, hcontains⟩
  · exact htidy (by omega)
  · exact hall (by omega) e he d hcontains

theorem tidy_of_count_eq_zero
    {x : Text} {c : EvalCall} (hcount : (definitions c.calls).count x = 0)
    (hblock : ∀ i es env, c.request ≠ .eval (.block i es) env)
    (hassign : ∀ i value env, c.request ≠ .eval (.assign i x value) env) :
    Tidy x c := by
  refine ⟨fun d hd hx => ?_, fun i es env hr => ?_, fun i value env hr => ?_⟩
  · exact absurd hx (not_mem_definitions hcount d hd)
  · exact absurd hr (hblock i es env)
  · exact absurd hr (hassign i value env)

theorem passes_of_single
    {c d : EvalCall} (hcalls : c.calls = [d]) (hbefore : d.framesBefore = c.framesBefore) :
    Passes c.framesBefore c.calls d.framesAfter := by
  rw [hcalls, ← hbefore]
  exact .call (.nil _)

/-- A block reserves a name once and makes at least one definition of it. -/
theorem balanced_of_block
    {x : Text} {c : EvalCall} {i : Label} {es : List Node} {env : FrameId} {frame : Frame}
    (hr : c.request = .eval (.block i es) env)
    (hframe : ∀ x, frame.reserves x ↔ x ∈ definedNames es)
    (hrequests : c.calls.map Call.request = es.map (.eval · c.framesBefore.size))
    (hchain : Chain (c.framesBefore.push frame) c.calls vs c.framesAfter)
    (hcalls : ∀ d ∈ c.calls, Balanced x d) :
    Balanced x c := by
  have hdue : due c.request x = 0 := by
    rw [due, hr]
    rfl
  have hstart := reservations_push c.framesBefore frame x
  have hnames := definitions_eq_definedNames hrequests
  have hcount : (if frame.reserves x then 1 else 0) ≤ (definitions c.calls).count x := by
    rw [hnames]
    split
    · rename_i hx
      exact List.count_pos_iff.mpr ((hframe x).mp hx)
    · exact Nat.zero_le _
  refine balanced_of_passes (passes_of_chain hchain) hcalls (by omega) fun htight => ?_
  refine ⟨fun d hd hx => ⟨i, es, env, hr⟩, fun i' es' env' hblock => ?_,
    fun i' value env' hassign => ?_⟩
  · cases hr.symm.trans hblock
    have hone : (if frame.reserves x then 1 else 0) ≤ 1 := by split <;> omega
    rw [← hnames]
    omega
  · cases hr.symm.trans hassign

theorem balanced_of_shape
    {x : Text} {c : EvalCall} (hshape : Shape c) (hcalls : ∀ d ∈ c.calls, Balanced x d) :
    Balanced x c := by
  cases hshape with
  | plain hplain hpasses =>
      have hdue : due c.request x = 0 := by
        rw [due, Request.definedName?_of_isPlain hplain]
        rfl
      refine balanced_of_passes hpasses hcalls (by omega) fun htight => ?_
      exact tidy_of_count_eq_zero (by omega) (Request.isPlain_ne_block hplain)
        fun i => Request.isPlain_ne_assign hplain i x
  | block hr hframe hrequests hchain =>
      exact balanced_of_block hr hframe hrequests hchain hcalls
  | @define i y value v env target d hr hsingle _ hbefore _ hv htarget hafter =>
      -- the name is reserved where the value is written, so one reservation goes
      have hfilled : Reserved d.framesAfter target y :=
        Store.reserved_of_findPlaceholder? htarget
      have hdue : due c.request x = if x = y ∧ Reserved d.framesAfter target y then 1 else 0 := by
        rw [due, hr]
        simp [Request.definedName?, Expr.definedName?, hfilled, eq_comm]
      have hwritten := reservations_define hv d.framesAfter target x y
      rw [← hafter] at hwritten
      refine balanced_of_passes (passes_of_single hsingle hbefore) hcalls (by omega)
        fun htight => ?_
      exact tidy_of_count_eq_zero (by omega) (by simp [hr]) (by simp [hr])
  | @assign i y value v env target d hr hsingle hbefore _ hv htarget hafter =>
      have hdue : due c.request x = 0 := by
        rw [due, hr]
        rfl
      have hwritten := reservations_define hv d.framesAfter target x y
      rw [← hafter] at hwritten
      refine balanced_of_passes (passes_of_single hsingle hbefore) hcalls (by omega)
        fun htight => ?_
      refine ⟨fun e he hx => ?_, fun i' es env' hblock => ?_, fun i' value' env' hassign => ?_⟩
      · exact absurd hx (not_mem_definitions (by omega) e he)
      · cases hr.symm.trans hblock
      · cases hr.symm.trans hassign
        intro e he target' htarget' hreserved
        rw [hsingle, List.mem_singleton] at he
        subst he
        cases htarget.symm.trans htarget'
        -- a reservation that was written over would be missing in the count
        rw [if_pos ⟨rfl, hreserved⟩] at hwritten
        omega

/-- No call of a run leaves more reservations of a name than it found. -/
theorem Regular.balanced
    {settings : Settings} (x : Text) (c : EvalCall) :
    Regular settings c → Balanced x c := by
  induction c using Call.induction with
  | step c ih =>
      intro hc
      exact balanced_of_shape hc.shape fun d hd => ih d hd (hc.of_mem hd)

end Evaluator

end BlockLang
