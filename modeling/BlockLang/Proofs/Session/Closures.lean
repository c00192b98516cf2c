import BlockLang.Proofs.Evaluation.Captures
import BlockLang.Proofs.Refinement.Sessions
import BlockLang.Proofs.Session.Soundness

/-!
# Closures

Under lexical scoping a lambda looks its free names up in the frame that it has
captured. This is the frame in which a definition or a let binds it first. A lambda
expression is one value however often it is evaluated, so a function that defines a
lambda and returns it gives the same closure on every call: all of them see the frame
of the first call.
-/

namespace BlockLang

theorem Store.lt_size_of_findPlaceholder?
    {s : Store} {id target : FrameId} {x : Text} (h : s.findPlaceholder? id x = some target) :
    target < s.frames.size := by
  have hreserved := Store.reserved_of_findPlaceholder? h
  by_contra hsize
  exact not_reserved_of_size_le (Nat.le_of_not_lt hsize) hreserved

namespace Evaluator

open Evaluation

variable {settings : Settings} {limit : Nat} {calls : List EvalCall} {s s' : State}
  {c d : EvalCall} {label : Label} {xs : List Text} {body : List Node}

/-! ## Bound lambdas -/

theorem captured?_capture_lambda
    (hlexical : settings.lexical = true) (x : Text) (env : FrameId) (s : State) :
    (capture settings x (.lambda label xs body) env s).store.captured? label =
      some ((s.store.captured? label).getD env) := by
  simp only [capture, hlexical, Bool.true_and]
  cases hcaptured : s.store.captured? label with
  | none =>
      have hnew := s.store.captured?_capture label env label
      rw [if_pos rfl] at hnew
      exact hnew
  | some id => exact hcaptured

theorem frames_letState
    (settings : Settings) (x : Text) (v : Node) (env : FrameId) (s : State) :
    (letState settings x v env s).store.frames = s.store.frames.push ⟨some env, [(x, v)]⟩ := by
  rw [letState, frames_capture]
  exact Store.frames_define_push (s := (s.enclose env).2.store) rfl x v

/-- A lambda is its own value. -/
theorem lambda_of_governs
    {env : FrameId} {v : Node} (hc : (rules settings).Governs c)
    (hr : c.request = .eval (.lambda label xs body) env) (hv : c.outcome = .ok v) :
    v = .lambda label xs body ∧ c.after.store = c.before.store := by
  rcases runs_of_governs hc with ⟨-, hcut, -⟩ | ⟨limit, hruns⟩
  · cases hv.symm.trans hcut
  · rw [hr] at hruns
    obtain ⟨-, houtcome, hafter⟩ := runs_done rfl hruns
    refine ⟨Except.ok.inj (hv.symm.trans houtcome), ?_⟩
    rw [hafter, store_announce]

/-- A definition of a lambda binds it where its name was reserved. If the lambda had
captured no frame, it captures this one. -/
theorem captured?_of_define
    {i : Label} {x : Text} {env : FrameId} {v : Node} (hlexical : settings.lexical = true)
    (hc : (rules settings).Governs c)
    (hr : c.request = .eval (.define i x (.lambda label xs body)) env) (hv : c.outcome = .ok v) :
    v = .lambda label xs body ∧
      ∃ target, c.before.store.findPlaceholder? env x = some target ∧
        c.after.store.getLocal? target x = some v ∧
        c.after.store.captured? label = some ((c.before.store.captured? label).getD target) := by
  rcases runs_of_governs hc with ⟨-, hcut, -⟩ | ⟨limit, hruns⟩
  · cases hv.symm.trans hcut
  · rw [hr] at hruns
    obtain ⟨a, hcalls, ha, hs, ⟨⟨f, hf⟩, -⟩ | ⟨w, target, hw, htarget, hwv, hafter⟩⟩ :=
      runs_define (i := i) hruns
    · cases hv.symm.trans hf
    · cases hv.symm.trans hwv
      have hgoverned := hc.of_mem (hcalls ▸ List.mem_singleton_self a)
      obtain ⟨rfl, hstore⟩ := lambda_of_governs hgoverned ha hw
      rw [hs, store_announce] at hstore
      rw [hstore] at htarget
      refine ⟨rfl, target, htarget, ?_, ?_⟩
      · have htarget' : target < (capture settings x (.lambda label xs body) target
            a.after).store.frames.size := by
          rw [frames_capture, hstore]
          exact Store.lt_size_of_findPlaceholder? htarget
        have hlocal := Store.getLocal?_define htarget' x (.lambda label xs body) target x
        rw [if_pos ⟨rfl, rfl⟩] at hlocal
        rw [hafter]
        exact hlocal
      · rw [hafter, ← hstore]
        exact captured?_capture_lambda hlexical x target a.after

/-- A let of a lambda binds it in a new frame. If the lambda had captured no frame, it
captures this one. -/
theorem captured?_of_let
    {i : Label} {x : Text} {es : List Node} {env inner : FrameId}
    (hlexical : settings.lexical = true) (hc : (rules settings).Governs c)
    (hr : c.request = .eval (.letIn i x (.lambda label xs body) es) env) (hd : d ∈ c.calls)
    (hblock : d.request = .eval (.block i es) inner) :
    d.before.store.frames = c.before.store.frames.push ⟨some env, [(x, .lambda label xs body)]⟩ ∧
      inner = c.before.store.frames.size ∧
      d.before.store.captured? label = some ((c.before.store.captured? label).getD inner) := by
  rcases runs_of_governs hc with ⟨hcut, -, -⟩ | ⟨limit, hruns⟩
  · rw [hcut] at hd
    exact absurd hd List.not_mem_nil
  · rw [hr] at hruns
    obtain ⟨a, ha, hs, hend⟩ := runs_let hruns
    have hvalue : d ≠ a := by
      rintro rfl
      cases ha.symm.trans hblock
    rcases hend with ⟨hcalls, -⟩ | ⟨v, b, hcalls, hv, hb, hbefore, -⟩
    · rw [hcalls] at hd
      exact absurd (List.mem_singleton.mp hd) hvalue
    · have hgoverned : (rules settings).Governs a := hc.of_mem (by simp [hcalls])
      obtain ⟨rfl, hstore⟩ := lambda_of_governs hgoverned ha hv
      rw [hs, store_announce] at hstore
      have hdb : d = b := by
        rw [hcalls] at hd
        simpa [hvalue] using hd
      subst hdb
      cases hb.symm.trans hblock
      rw [hstore]
      refine ⟨?_, rfl, ?_⟩
      · rw [hbefore, frames_letState, hstore]
      · rw [hbefore, letState, ← hstore]
        exact captured?_capture_lambda hlexical x _ _

/-! ## Applied lambdas -/

/-- A name that is not bound in a frame is looked up in the frame around it. -/
theorem get?_of_outer
    {s : Store} (hs : s.Ordered) {id outer : FrameId} {f : Frame} {x : Text}
    (hf : s.frames[id]? = some f) (houter : f.outer = some outer) (hx : f.get? x = none) :
    s.get? id x = s.get? outer x := by
  have hlt := hs id f outer hf houter
  have hnearest : s.nearest? (·.get? x) id = s.nearest? (·.get? x) outer := by
    rw [Store.nearest?, hf]
    simp only [hx, houter, if_pos hlt]
  rw [Store.get?, Store.get?, hnearest]

/-- A call applies a function, and another one is made for that: it was asked for the
application, or it evaluates one and has got the values of its parts. -/
inductive Enters (c : EvalCall) : Node → EvalCall → Prop where
  | request {f : Node} {args : List Node} {d : EvalCall} (hr : c.request = .apply f args)
      (hd : d ∈ c.calls) : Enters c f d
  | apply {i : Label} {operator : Node} {es : List Node} {env : FrameId} {f : Node}
      {a d : EvalCall} {front rest : List EvalCall}
      (hr : c.request = .eval (.apply i operator es) env)
      (hcalls : c.calls = a :: (front ++ d :: rest)) (hfront : front.length = es.length)
      (hf : a.outcome = .ok f) : Enters c f d

theorem Enters.mem
    {f : Node} (h : Enters c f d) :
    d ∈ c.calls := by
  cases h with
  | request _ hd => exact hd
  | apply _ hcalls =>
      rw [hcalls]
      simp

/-- The body of a lambda is evaluated in a frame in which the names that are not
parameters are those of the captured frame. -/
def ResolvesInCaptured (d : EvalCall) (label : Label) (xs : List Text) (body : List Node) :
    Prop :=
  ∃ inner, d.request = .eval (.block label body) inner ∧
    ∀ id, d.before.store.captured? label = some id →
      ∀ x, x ∉ xs → d.before.store.get? inner x = d.before.store.get? id x

theorem resolvesInCaptured_of_applyFrom
    {args : List Node} {caller : FrameId} {outcome : Except Fault Node}
    (hlexical : settings.lexical = true) (hordered : d.before.store.Ordered)
    (h : (applyFrom settings (.lambda label xs body) args caller).Runs settings limit s calls
      outcome s')
    (hd : d ∈ calls) :
    ResolvesInCaptured d label xs body := by
  simp only [applyFrom] at h
  split at h
  · -- the lambda has got as many arguments as it has parameters
    let parent := parentFrame settings label caller s
    let entered := (s.enclose parent).2.mapStore
      (bindParameters s.store.frames.size (xs.zip args))
    have hbody : (request (.eval (.block label body) s.store.frames.size)).Runs settings limit
        entered calls outcome s' := h
    obtain ⟨c, rfl, hr, hbefore, -, -⟩ := runs_request hbody
    obtain rfl := List.mem_singleton.mp hd
    refine ⟨s.store.frames.size, hr, fun id hid x hx => ?_⟩
    have hcaptures : entered.store.captured? label = s.store.captured? label := by
      refine Store.captured?_of_captures_eq ?_ label
      dsimp only [entered, State.mapStore]
      rw [bindParameters_eq]
      rfl
    have hparent : parent = id := by
      rw [hbefore, hcaptures] at hid
      simp [parent, parentFrame, hlexical, hid]
    have hopened : (s.enclose parent).2.store.frames =
        s.store.frames.push ⟨some parent, []⟩ := rfl
    obtain ⟨f, hf, houter, -, hget⟩ := bindParameters_push (xs.zip args) hopened
    have hframes : d.before.store.frames = s.store.frames.push f := by
      rw [hbefore]
      exact hf
    have hnone : f.get? x = none := by
      refine hget x fun hmem => ?_
      obtain ⟨b, hb, rfl⟩ := List.mem_map.mp hmem
      exact hx (List.of_mem_zip hb).1
    refine get?_of_outer hordered (f := f) ?_ (houter.trans (congrArg some hparent)) hnone
    rw [hframes, Array.getElem?_push_size]
  · obtain ⟨rfl, -, -⟩ := runs_done rfl h
    exact absurd hd List.not_mem_nil

theorem length_le_of_operands
    {env : FrameId} {es done : List Node} {outcome : Except Fault (List Node)}
    (h : (operands env es done).Runs settings limit s calls outcome s') :
    calls.length ≤ es.length := by
  induction es generalizing done s calls with
  | nil =>
      obtain ⟨rfl, -, -⟩ := runs_done rfl h
      exact Nat.le_refl 0
  | cons e es ih =>
      obtain ⟨c, rest, rfl, -, -, ⟨_, -, rfl, -⟩ | ⟨v, -, hrest⟩⟩ := runs_request_bind h
      · exact Nat.succ_le_succ (Nat.zero_le _)
      · exact Nat.succ_le_succ (ih hrest)

/-- Wherever a lambda is applied, its free names are looked up in the frame that it
has captured. -/
theorem Enters.resolvesInCaptured
    (hlexical : settings.lexical = true) (hc : (rules settings).Governs c)
    (hordered : d.before.store.Ordered) (h : Enters c (.lambda label xs body) d) :
    ResolvesInCaptured d label xs body := by
  rcases runs_of_governs hc with ⟨hcut, -, -⟩ | ⟨limit, hruns⟩
  · cases h with
    | request _ hd => simp [hcut] at hd
    | apply _ hcalls => simp [hcut] at hcalls
  · cases h with
    | @request _ args _ hr hd =>
        rw [hr, carryOut, Evaluator.body, runs_read_bind] at hruns
        split at hruns
        · obtain ⟨hcalls, -, -⟩ := runs_done rfl hruns
          simp [hcalls] at hd
        · exact resolvesInCaptured_of_applyFrom hlexical hordered hruns hd
    | @apply i operator es env _ a _ front rest hr hcalls hfront hf =>
        rw [hr] at hruns
        obtain ⟨a', later, hlater, -, -, ⟨_, -, rfl, -⟩ | ⟨f, hf', hrest⟩⟩ :=
          runs_request_bind (r := .eval operator env) hruns
        · simp [hcalls] at hlater
        · obtain ⟨rfl, rfl⟩ := List.cons.inj (hlater.symm.trans hcalls)
          cases hf.symm.trans hf'
          rcases runs_bind hrest with
            ⟨_, hoperands, -⟩ | ⟨first, args, _, last, hfirst, hlast, hsplit⟩
          · -- the operands lead to too few calls
            have hle := length_le_of_operands hoperands
            simp only [List.length_append, List.length_cons] at hle
            omega
          · have hlength : front.length = first.length := by
              have hrequests := congrArg List.length (chain_of_operands hfirst).1
              simp only [List.length_map] at hrequests
              omega
            obtain ⟨-, rfl⟩ := List.append_inj hsplit hlength
            exact resolvesInCaptured_of_applyFrom hlexical hordered hlast List.mem_cons_self

end Evaluator

/-! ## Runs -/

/-- How lambdas come by the frames in which they look their free names up. When a
definition or a let has bound a lambda expression, the frame captured by it is the one
it was just bound in if it had captured none, and the one captured before otherwise.
All through the run a lambda has captured no frame, or the one that it has captured at
the end. A frame that is captured during the run goes back to the definition or let
that was the first to bind the lambda. Wherever the lambda is applied, its free names
are looked up there. -/
structure CapturesFirstBinding (root : EvalCall) : Prop where
  define : ∀ c, root.Contains c → ∀ i x label xs body env v,
    c.request = .eval (.define i x (.lambda label xs body)) env → c.outcome = .ok v →
      v = .lambda label xs body ∧
        ∃ target, c.before.store.findPlaceholder? env x = some target ∧
          c.after.store.getLocal? target x = some v ∧
          c.after.store.captured? label = some ((c.before.store.captured? label).getD target)
  letIn : ∀ c, root.Contains c → ∀ d ∈ c.calls, ∀ i x label xs body es env inner,
    c.request = .eval (.letIn i x (.lambda label xs body) es) env →
      d.request = .eval (.block i es) inner →
        d.before.store.frames =
            c.before.store.frames.push ⟨some env, [(x, .lambda label xs body)]⟩ ∧
          inner = c.before.store.frames.size ∧
          d.before.store.captured? label = some ((c.before.store.captured? label).getD inner)
  keeps : ∀ c, root.Contains c → ∀ label id,
    c.before.store.captured? label = some id ∨ c.after.store.captured? label = some id →
      root.after.store.captured? label = some id
  origin : ∀ label id, root.after.store.captured? label = some id →
    root.before.store.captured? label = some id ∨
      ∃ c xs body t, root.Contains c ∧ Evaluator.Binds c (.lambda label xs body) id t ∧
        t.store.captured? label = none
  resolves : ∀ c, root.Contains c → ∀ d label xs body,
    Evaluator.Enters c (.lambda label xs body) d → Evaluator.ResolvesInCaptured d label xs body

namespace Session

/-- Under lexical scoping, in every run of a program in a session, lambdas look their
free names up in the frame in which they were bound first. -/
theorem lambdas_capture_first_binding
    {settings : Settings} {input : Input} {s : Session} (hs : Reached settings input s)
    (hlexical : settings.lexical = true) {source : Text} {e : Source}
    (hcompile : compile source = .ok e) :
    CapturesFirstBinding (s.call e) := by
  rw [← hs.settings_eq] at hlexical
  have hroot : (Evaluator.rules s.settings).Governs (s.call e) := Rules.governs_call _ _ _ _
  have hgoverned : ∀ c, (s.call e).Contains c → (Evaluator.rules s.settings).Governs c :=
    fun c hc => (Evaluator.keepsCaptures_of_contains hroot hc).1
  refine ⟨?_, ?_, ?_, ?_, ?_⟩
  · intro c hc i x label xs body env v hr hv
    exact Evaluator.captured?_of_define hlexical (hgoverned c hc) hr hv
  · intro c hc d hd i x label xs body es env inner hr hblock
    exact Evaluator.captured?_of_let hlexical (hgoverned c hc) hr hd hblock
  · intro c hc label id hid
    have hafter : c.after.store.captured? label = some id := by
      rcases hid with hbefore | hafter
      · exact (Evaluator.keepsCaptures_call c (hgoverned c hc)).1 label id hbefore
      · exact hafter
    exact (Evaluator.keepsCaptures_of_contains hroot hc).2 label id hafter
  · intro label id hid
    by_cases hbefore : (s.call e).before.store.captured? label = some id
    · exact .inl hbefore
    · exact .inr (Evaluator.exists_binds (s.call e) hroot hbefore hid)
  · intro c hc d label xs body henters
    have hd : (s.call e).Contains d := hc.inner henters.mem
    have hordered := (hs.ready.contract_of_contains hcompile hd).2.1.1.ordered
    exact henters.resolvesInCaptured hlexical (hgoverned c hc) hordered

/-- A function that defines a lambda and returns it is called twice, and the second
closure is applied. -/
def twoGetters : Text :=
  "\x7b def mk = lambda (n) \x7b def get = lambda () \x7b n \x7d; get \x7d; " ++
    "def one = mk(1); def two = mk(2); two() \x7d"

theorem exists_compile_twoGetters :
    ∃ e, compile twoGetters = .ok e := by
  have hok : (compile twoGetters).isOk := by decide +kernel
  cases hcompile : compile twoGetters with
  | error f =>
      rw [hcompile] at hok
      cases hok
  | ok e => exact ⟨e, rfl⟩

theorem twoGetters_capture_first_binding :
    let s := start lexicalSettings ⟨[], none⟩
    Reached lexicalSettings ⟨[], none⟩ s ∧ lexicalSettings.lexical = true ∧
      ∃ e, compile twoGetters = .ok e ∧ CapturesFirstBinding (s.call e) := by
  obtain ⟨e, hcompile⟩ := exists_compile_twoGetters
  exact ⟨.start, rfl, e, hcompile, lambdas_capture_first_binding .start rfl hcompile⟩

/-- A definition of a lambda that leaves it with another captured frame than the one
it was bound in. -/
def bindsElsewhere (c : EvalCall) : Bool :=
  match c.request, c.outcome with
  | .eval (.define _ x (.lambda label _ _)) env, .ok _ =>
    (c.before.store.findPlaceholder? env x).any fun target =>
      c.after.store.captured? label != some target
  | _, _ => false

theorem exists_of_bindsElsewhere
    {c : EvalCall} (h : bindsElsewhere c = true) :
    ∃ i x label xs body env v target,
      c.request = .eval (.define i x (.lambda label xs body)) env ∧ c.outcome = .ok v ∧
        c.before.store.findPlaceholder? env x = some target ∧
        c.after.store.captured? label ≠ some target := by
  unfold bindsElsewhere at h
  split at h
  · rename_i i x label xs body env v hr hv
    obtain ⟨target, htarget, hne⟩ := (Option.any_eq_true ..).mp h
    exact ⟨i, x, label, xs, body, env, v, target, hr, hv, htarget, by simpa using hne⟩
  · cases h

/-- The lambda of the second call has captured the frame of the first call, and so it
sees the argument of that one. -/
theorem twoGetters_share_first_frame :
    ∃ e c i x label xs body env v target w,
      compile twoGetters = .ok e ∧
        ((start lexicalSettings ⟨[], none⟩).call e).Contains c ∧
        c.request = .eval (.define i x (.lambda label xs body)) env ∧ c.outcome = .ok v ∧
        c.before.store.findPlaceholder? env x = some target ∧
        c.after.store.captured? label ≠ some target ∧
        (runProgram lexicalSettings ⟨[], none⟩ twoGetters).1 = .ok w ∧ w.same (.integer 1) := by
  obtain ⟨e, hcompile⟩ := exists_compile_twoGetters
  have hrun : ∃ w, (runProgram lexicalSettings ⟨[], none⟩ twoGetters).1 = .ok w ∧
      w.same (.integer 1) := exists_ok_of_call (by decide +kernel)
  have hany : (compile twoGetters).toOption.any fun e =>
      ((start lexicalSettings ⟨[], none⟩).call e).any bindsElsewhere := by decide +kernel
  rw [hcompile] at hany
  obtain ⟨c, hc, helsewhere⟩ := Call.exists_of_any _ hany
  obtain ⟨w, hw, hsame⟩ := hrun
  obtain ⟨i, x, label, xs, body, env, v, target, hr, hv, htarget, hne⟩ :=
    exists_of_bindsElsewhere helsewhere
  exact ⟨e, c, i, x, label, xs, body, env, v, target, w, hcompile, hc, hr, hv, htarget, hne, hw,
    hsame⟩

end Session

end BlockLang
