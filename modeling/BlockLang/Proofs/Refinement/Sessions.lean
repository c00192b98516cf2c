import BlockLang.Proofs.Evaluation.Definitions
import BlockLang.Proofs.Refinement.Blocks
import BlockLang.Proofs.Refinement.Simulation

/-!
# A session refines a block

If a block of programs succeeds, a session that takes the programs one after the
other succeeds as well, with the same value in the end and the same output. The two
runs are followed statement by statement. A statement whose tree was labelled with
the block is loaded by the session on its own, so its labels come to belong to new
ones, and if it is a definition its name comes out of hiding.
-/

namespace BlockLang

/-! ## The calls of the block -/

namespace Session

variable {settings : Settings} {input : Input} {source : Text} {e : Source} {v : Node}

theorem definesInOwnBlocks_call_start
    (hcompile : compile source = .ok e) (hv : ((start settings input).call e).outcome = .ok v) :
    DefinesInOwnBlocks (start settings input).frame ((start settings input).call e) :=
  definesInOwnBlocks_of_regular (regular_call_start hcompile hv) (Rules.call_request _ _ _ _)
    (reservations_call_start settings input e) (fun _ => reserved_call_start)

theorem tidy_of_contains
    (hcompile : compile source = .ok e) (hv : ((start settings input).call e).outcome = .ok v)
    {c : EvalCall} (hc : ((start settings input).call e).Contains c) (x : Text) :
    Evaluator.Tidy x c := by
  have hbalanced := (regular_call_start hcompile hv).balanced x
  refine hbalanced.2 ?_ c hc
  rw [reservations_call_start]
  exact Nat.le_add_left _ _

theorem orderly_of_contains
    (hcompile : compile source = .ok e) (hv : ((start settings input).call e).outcome = .ok v)
    (hnone : ((start settings input).call e).request.definedName? = none) {c : EvalCall}
    (hc : ((start settings input).call e).Contains c) :
    Evaluator.Orderly c := by
  have hblocks := definesInOwnBlocks_call_start hcompile hv
  refine ⟨fun i x value env hdefine d hd => ?_, fun d hd i x value env hdefine => ?_, ?_⟩
  · have hname : c.request.definedName? = some x := by
      rw [hdefine]
      rfl
    cases hc with
    | self => cases hnone.symm.trans hname
    | @inner p _ hp hmem =>
        obtain ⟨_, _, env', -, ⟨_, -, hrequest⟩, hlands⟩ := hblocks.direct p hp c hmem x hname
        obtain ⟨_, _, _, d', _, -, hcalls, -, -, hreserved, -⟩ := hlands
        rw [hcalls, List.mem_singleton] at hd
        have henv : env = (p.before.enclose env').1 :=
          (Request.eval.inj (hdefine.symm.trans hrequest)).2
        rw [hd, henv]
        exact hreserved
  · have hname : d.request.definedName? = some x := by
      rw [hdefine]
      rfl
    obtain ⟨_, _, env', -, ⟨_, -, hrequest⟩, -⟩ := hblocks.direct c hc d hd x hname
    exact (Request.eval.inj (hdefine.symm.trans hrequest)).2
  · intro i x value env hassign
    exact (tidy_of_contains hcompile hv hc x).spared i value env hassign

/-! ## Before the first statement -/

/-- The labels of the library belong to themselves. -/
def libraryLabels : Pairing :=
  fun a b => a = b ∧ a < Procedure.all.length

theorem alike_library
    {f : Frame} (hf : f ∈ library) {x : Text} {v : Node} (hv : f.get? x = some v) :
    Alike libraryLabels v v := by
  rcases List.mem_append.mp (mem_of_library hf hv) with hconstant | hprocedure
  · simp only [Library.constants, List.mem_cons, Prod.mk.injEq, List.not_mem_nil, or_false]
      at hconstant
    rcases hconstant with ⟨-, rfl⟩ | ⟨-, rfl⟩ | ⟨-, rfl⟩ | ⟨-, rfl⟩ | ⟨-, rfl⟩ <;> rfl
  · obtain ⟨⟨q, i⟩, hmem, heq⟩ := List.mem_map.mp hprocedure
    cases heq
    obtain ⟨-, hlt, -⟩ := List.mem_zipIdx hmem
    rw [Nat.zero_add] at hlt ⊢
    exact ⟨i, ⟨rfl, hlt⟩, rfl⟩

theorem unique_libraryLabels :
    libraryLabels.Unique := by
  constructor
  · rintro a b b' ⟨rfl, -⟩ ⟨rfl, -⟩
    rfl
  · rintro a a' b ⟨rfl, -⟩ ⟨rfl, -⟩
    rfl

/-- The frame of the library is the same in both runs. -/
theorem mirrors_libraryFrame
    {f : Frame} (hf : library[0]? = some f) {hidden : Text → Prop} (hhidden : ∀ x, ¬hidden x) :
    f.Mirrors libraryLabels hidden f := by
  refine ⟨?_, fun x hx => absurd hx (hhidden x), fun x _ => ?_⟩
  · cases hf
    rfl
  · cases hv : f.get? x with
    | none => exact .none
    | some v => exact .some (alike_library (Array.mem_of_getElem? hf) hv)

/-- The frame of the block, with all its names reserved, mirrors the empty frame of
the session. -/
theorem mirrors_blockFrame
    {f : Frame} {names : List Text} (houter : f.outer = some 1)
    (hget : ∀ x, f.get? x = if x ∈ names then some .placeholder else none) :
    f.Mirrors libraryLabels (Hidden names blockFrame) ⟨some 0, []⟩ := by
  refine ⟨?_, fun x hx => ?_, fun x hx => ?_⟩
  · rw [houter]
    rfl
  · rw [hget, if_pos hx.2]
  · rw [hget, if_neg fun hmem => hx ⟨rfl, hmem⟩]
    exact .none

theorem eq_zero_or_eq_two
    {n : Nat} (hlt : n < 3) (hne : n ≠ 1) :
    n = 0 ∨ n = 2 := by
  omega

theorem mirrors_start
    {s : Store} {f : Frame} {names : List Text}
    (hframes : s.frames = (library.push ⟨some 0, []⟩).push f) (houter : f.outer = some 1)
    (hget : ∀ x, f.get? x = if x ∈ names then some .placeholder else none)
    (hcaptures : s.captures = []) (hnext : Procedure.all.length ≤ s.nextLabel) :
    s.Mirrors libraryLabels names (start settings input).state.store := by
  have hsize : s.frames.size = 3 := by
    rw [hframes]
    rfl
  have hfirst : s.frames[0]? = library[0]? := by
    rw [hframes]
    rfl
  have hlast : s.frames[2]? = some f := by
    rw [hframes]
    rfl
  have hcaptured : ∀ a, s.captured? a = none := fun a => by
    rw [Store.captured?, hcaptures]
    rfl
  refine ⟨unique_libraryLabels, ?_, hsize, ?_, ?_, ?_, ?_, ?_, ?_⟩
  · rintro a b ⟨rfl, ha⟩
    exact ⟨Nat.lt_of_lt_of_le ha hnext, ha⟩
  · rw [hsize]
    decide
  · rw [hframes]
    rfl
  · intro id g hid hg
    have hlt : id < 3 := hsize ▸ (Array.getElem?_eq_some_iff.mp hg).1
    rcases eq_zero_or_eq_two hlt hid with rfl | rfl
    · rw [hfirst] at hg
      exact ⟨g, hg, mirrors_libraryFrame hg fun x hx => absurd hx.1 (by decide)⟩
    · cases hlast.symm.trans hg
      exact ⟨⟨some 0, []⟩, rfl, mirrors_blockFrame houter hget⟩
  · intro a b _
    rw [hcaptured]
    rfl
  · intro a id ha
    rw [hcaptured] at ha
    cases ha
  · intro b id hb
    cases hb

/-! ## One statement -/

/-- Between two statements the labels from `base` up to `last` are those of the
statements to come, and they belong to no labels of the session yet. -/
structure Follows (R : Pairing) (base last : Label) (pending : List Text) (s t : State) :
    Prop where
  mirrors : s.Mirrors R pending t
  fresh : ∀ {a b}, R a b → a < base ∨ last ≤ a
  loaded : last ≤ s.store.nextLabel

theorem mirrors_reserve
    {R : Pairing} {pending : List Text} {s t : State} {e : Node}
    (h : s.Mirrors R (e.definedName?.toList ++ pending) t) :
    s.Mirrors R pending (reserve (blockFrame - 1) e t) := by
  cases e
  case define i x value => exact ⟨h.store.declare, h.callers, h.input, h.output⟩
  all_goals exact h

theorem mirrors_loadTree
    {R : Pairing} {base : Label} {pending : List Text} {s t : State} {e : Source}
    (hm : s.Mirrors R pending t) (hnew : ∀ k < e.labelCount, ∀ j, ¬R (base + k) j)
    (hlast : base + e.labelCount ≤ s.store.nextLabel) :
    s.Mirrors (R.extend base t.store.nextLabel e.labelCount) pending (loadTree t e).2 := by
  have hstore : (loadTree t e).2.store =
      { t.store with nextLabel := t.store.nextLabel + e.labelCount } :=
    congrArg (fun next => { t.store with nextLabel := next })
      (Expr.labelled_snd e t.store.nextLabel)
  refine ⟨?_, hm.callers, hm.input, hm.output⟩
  rw [hstore]
  exact hm.store.extend hnew (Nat.le_refl _) hlast

/-- The session takes a statement of the block. -/
theorem exists_ok_of_statement
    {R : Pairing} {base last : Label} {pending : List Text} {l : Nat} {s : State} {t : Session}
    {e : Source} {v : Node} {c : EvalCall}
    (htrace : t.settings.trace = false) (hframe : t.frame = blockFrame - 1)
    (hle : l ≤ t.settings.limit - t.state.depth)
    (hfollows : Follows R base last ((e.labelled base).1.definedName?.toList ++ pending) s t.state)
    (hlast : base + e.labelCount ≤ last)
    (hpending : ∀ x, (e.labelled base).1.definedName? = some x → x ∉ pending)
    (hc : c = (Evaluator.rules t.settings).call l (.eval (e.labelled base).1 blockFrame) s)
    (horderly : ∀ d, c.Contains d → Evaluator.Orderly d) (hv : c.outcome = .ok v) :
    ∃ w R', (t.call e).outcome = .ok w ∧ Alike R' v w ∧
      Follows R' (base + e.labelCount) last pending c.after (t.call e).after := by
  obtain ⟨hm, hfresh, hloaded⟩ := hfollows
  have hnew : ∀ k < e.labelCount, ∀ j, ¬R (base + k) j := by
    intro k hk j hj
    rcases hfresh hj with hlt | hge
    · exact Nat.not_lt_of_le (Nat.le_add_right base k) hlt
    · exact Nat.not_lt_of_le hge (Nat.lt_of_lt_of_le (Nat.add_lt_add_left hk base) hlast)
  have halike : Alike (R.extend base t.state.store.nextLabel e.labelCount) (e.labelled base).1
      (loadTree t.state e).1 := alike_labelled e Pairing.rows_extend
  have hmLoaded := mirrors_loadTree hm hnew (Nat.le_trans hlast hloaded)
  rw [← halike.definedName?_eq] at hmLoaded
  have hmReserved := mirrors_reserve hmLoaded
  rw [← hframe] at hmReserved
  have hmimicked : Evaluator.Mimicked t.settings (t.settings.limit - t.state.depth) pending c := by
    subst hc
    refine Evaluator.mimicked_call htrace hle horderly fun i x value env hr hhidden => ?_
    refine hpending x ?_ hhidden.2
    rw [(Request.eval.inj hr).1]
    rfl
  have hbefore : c.before = s := by rw [hc, Rules.call_before]
  have hmatches : c.request.Matches (R.extend base t.state.store.nextLabel e.labelCount)
      (.eval (loadTree t.state e).1 t.frame) := by
    rw [hc, Rules.call_request, hframe]
    exact .eval halike
  obtain ⟨w, R', hw, hm', hwidens, hvw⟩ := hmimicked hv (hbefore ▸ hmReserved) hmatches
  rw [hbefore] at hwidens
  refine ⟨w, R', hw, hvw, hm', fun {a b} hab => ?_, Nat.le_trans hloaded hwidens.le⟩
  rcases hwidens.new a b hab with (hab | ⟨k, hk, rfl, -⟩) | hge
  · exact (hfresh hab).imp_left fun hlt => Nat.lt_of_lt_of_le hlt (Nat.le_add_right _ _)
  · exact .inl (Nat.add_lt_add_left hk base)
  · exact .inr (Nat.le_trans hloaded hge)

/-! ## All statements -/

theorem labelledAll_cons
    (base : Label) (e : Source) (es : List Source) :
    (Expr.labelledAll base (e :: es)).1 =
      (e.labelled base).1 :: (Expr.labelledAll (base + e.labelCount) es).1 := by
  rw [Expr.labelledAll, ← Expr.labelled_snd]

theorem definedNames_cons
    (e : Node) (es : List Node) :
    definedNames (e :: es) = e.definedName?.toList ++ definedNames es := by
  rw [definedNames, List.filterMap_cons]
  cases e.definedName? <;> rfl

/-- The session takes the statements of the block one after the other. Its last
value is like the last one of the block. -/
theorem exists_ok_of_statements
    {sources : List Text} {es : List Source}
    (hcompile : List.Forall₂ (fun source e => compile source = .ok e) sources es)
    {R : Pairing} {base last : Label} {l : Nat} {s s' : State} {t : Session} {v₀ w₀ v : Node}
    {cs : List EvalCall} (htrace : t.settings.trace = false) (hframe : t.frame = blockFrame - 1)
    (hle : l ≤ t.settings.limit - t.state.depth)
    (hfollows : Follows R base last (definedNames (Expr.labelledAll base es).1) s t.state)
    (hlast : base + Expr.labelCountAll es ≤ last)
    (hnodup : (definedNames (Expr.labelledAll base es).1).Nodup) (hvalue : Alike R v₀ w₀)
    (hmakes : (Evaluator.statements blockFrame (Expr.labelledAll base es).1 v₀).Makes t.settings l
      s cs v s')
    (horderly : ∀ c ∈ cs, ∀ d, c.Contains d → Evaluator.Orderly d) :
    ∃ (ws : List Node) (R' : Pairing), (t.evalAll sources).1 = ws.map .ok ∧
      Alike R' v (ws.getLastD w₀) ∧ s'.Mirrors R' [] (t.evalAll sources).2.state := by
  induction hcompile generalizing R base s t v₀ w₀ cs with
  | nil =>
      obtain ⟨rfl, rfl, rfl⟩ := Evaluation.makes_pure.mp hmakes
      exact ⟨[], R, rfl, hvalue, hfollows.mirrors⟩
  | @cons source e sources es he _ ih =>
      rw [labelledAll_cons] at hfollows hnodup hmakes
      rw [definedNames_cons] at hfollows hnodup
      rw [Expr.labelCountAll, ← Nat.add_assoc] at hlast
      obtain ⟨-, hrest, hdisjoint⟩ := List.nodup_append.mp hnodup
      obtain ⟨_, v₁, _, rest, hfirst, hlater, rfl⟩ := Evaluation.makes_bind.mp hmakes
      obtain ⟨rfl, hv₁, rfl⟩ := Evaluation.makes_request.mp hfirst
      have hpending : ∀ x, (e.labelled base).1.definedName? = some x →
          x ∉ definedNames (Expr.labelledAll (base + e.labelCount) es).1 := by
        intro x hx hmem
        exact hdisjoint x (by simp [hx]) x hmem rfl
      obtain ⟨w, R₁, hw, hvw, hfollows₁⟩ := exists_ok_of_statement htrace hframe hle hfollows
        (Nat.le_trans (Nat.le_add_right _ _) hlast) hpending rfl
        (horderly _ (List.mem_append_left _ (List.mem_singleton_self _))) hv₁
      have heval : t.eval source = (.ok w, { t with state := (t.call e).after }) :=
        eval_eq_ok_iff.mpr ⟨e, he, hw, rfl⟩
      have hle : l ≤ t.settings.limit - (t.call e).after.depth := by
        rwa [(t.balanced_call e).depth]
      obtain ⟨ws, R₂, hws, hlastValue, hm₂⟩ := ih (t := { t with state := (t.call e).after })
        htrace hframe hle hfollows₁ hlast hrest hvw hlater
        fun c hc => horderly c (List.mem_append_right _ hc)
      rw [evalAll_cons, heval]
      refine ⟨w :: ws, R₂, by rw [hws]; rfl, ?_, hm₂⟩
      rw [List.getLastD_cons]
      exact hlastValue

/-! ## The block -/

/-- The first label of the statements of a block that a session begins with. -/
def firstLabel : Label :=
  Procedure.all.length + 1

/-- The statements of a block that a session begins with. -/
def blockNodes (es : List Source) : List Node :=
  (Expr.labelledAll firstLabel es).1

/-- The state in which the first statement of such a block is evaluated. -/
def blockState (settings : Settings) (input : Input) (es : List Source) : State :=
  let s := (loadTree (start settings input).state (.block () es)).2
  (s.enclose (start settings input).frame).2.mapStore
    (Evaluator.declareAll blockFrame (blockNodes es))

theorem follows_start
    (settings : Settings) (input : Input) (es : List Source) :
    Follows libraryLabels firstLabel (firstLabel + Expr.labelCountAll es)
      (definedNames (blockNodes es)) (blockState settings input es)
      (start settings input).state := by
  let s := (loadTree (start settings input).state (.block () es)).2
  let store := (s.enclose (start settings input).frame).2.store
  have hframes : store.frames = (library.push ⟨some 0, []⟩).push ⟨some 1, []⟩ := rfl
  obtain ⟨f, hpush, houter, hget⟩ := Evaluator.declareAll_push (blockNodes es) hframes
  have hrest := Evaluator.declareAll_eq blockFrame (blockNodes es) store
  have hcaptures : (blockState settings input es).store.captures = [] :=
    congrArg Store.captures hrest
  have hnext : (blockState settings input es).store.nextLabel =
      firstLabel + Expr.labelCountAll es :=
    (congrArg Store.nextLabel hrest).trans (Expr.labelledAll_snd es firstLabel)
  refine ⟨⟨mirrors_start hpush houter hget hcaptures ?_, rfl, rfl, rfl⟩, ?_,
    Nat.le_of_eq hnext.symm⟩
  · rw [hnext]
    exact Nat.le_trans (Nat.le_succ _) (Nat.le_add_right _ _)
  · rintro a b ⟨rfl, ha⟩
    exact .inl (Nat.lt_succ_of_lt ha)

theorem exists_makes_of_block
    {settings : Settings} {input : Input} {es : List Source} {v : Node}
    (htrace : settings.trace = false)
    (hv : ((start settings input).call (.block () es)).outcome = .ok v) :
    ∃ l ≤ settings.limit,
      (Evaluator.statements blockFrame (blockNodes es) (.boolean false)).Makes settings l
        (blockState settings input es) ((start settings input).call (.block () es)).calls v
        ((start settings input).call (.block () es)).after := by
  let s := (loadTree (start settings input).state (.block () es)).2
  let r : Request :=
    .eval (.block Procedure.all.length (blockNodes es)) (start settings input).frame
  have hcall : (start settings input).call (.block () es) =
      (Evaluator.rules settings).call settings.limit r s := rfl
  rw [hcall] at hv ⊢
  cases hlimit : settings.limit with
  | zero =>
      rw [hlimit] at hv
      cases hv
  | succ l =>
      rw [hlimit] at hv
      have hmakes := Evaluator.makes_of_call hv
      simp only [Evaluator.body, htrace, Bool.false_eq_true, if_false, r, Evaluator.evaluate,
        Evaluation.makes_change_bind, Evaluation.makes_update_bind] at hmakes
      exact ⟨l, Nat.le_succ l, hmakes⟩

/-- A session takes the statements of a block that succeeds. -/
theorem exists_ok_of_block
    {settings : Settings} {input : Input} {sources : List Text} {es : List Source} {v : Node}
    (htrace : settings.trace = false)
    (hcompile : List.Forall₂ (fun source e => compile source = .ok e) sources es)
    (hblock : compile (blockOf sources) = .ok (.block () es))
    (hv : ((start settings input).call (.block () es)).outcome = .ok v) :
    ∃ (ws : List Node) (R : Pairing),
      ((start settings input).evalAll sources).1 = ws.map .ok ∧
      Alike R v (ws.getLastD (.boolean false)) ∧
      ((start settings input).call (.block () es)).after.Mirrors R []
        ((start settings input).evalAll sources).2.state := by
  have hrequest : ((start settings input).call (.block () es)).request =
      .eval (.block Procedure.all.length (blockNodes es)) (start settings input).frame :=
    Rules.call_request _ _ _ _
  have hnone : ((start settings input).call (.block () es)).request.definedName? = none := by
    rw [hrequest]
    rfl
  have hnodup := (definesInOwnBlocks_call_start hblock hv).once _ .self _ _ _ hrequest
  obtain ⟨l, hle, hmakes⟩ := exists_makes_of_block htrace hv
  have hfalse : Alike libraryLabels (.boolean false) (.boolean false) := rfl
  refine exists_ok_of_statements (t := start settings input) hcompile htrace rfl hle
    (follows_start settings input es) (Nat.le_refl _) hnodup hfalse hmakes fun c hc d hd => ?_
  exact orderly_of_contains hblock hv hnone (Call.Contains.trans (.inner .self hc) hd)

theorem exists_forall₂_compile
    {sources : List Text} (h : ∀ source ∈ sources, ∃ e, compile source = .ok e) :
    ∃ es, List.Forall₂ (fun source e => compile source = .ok e) sources es := by
  induction sources with
  | nil => exact ⟨[], .nil⟩
  | cons source sources ih =>
      obtain ⟨⟨e, he⟩, hrest⟩ := List.forall_mem_cons.mp h
      obtain ⟨es, hes⟩ := ih hrest
      exact ⟨e :: es, .cons he hes⟩

theorem length_evalAll
    (s : Session) (sources : List Text) :
    (s.evalAll sources).1.length = sources.length := by
  induction sources generalizing s with
  | nil => rfl
  | cons source sources ih =>
      rw [evalAll_cons, List.length_cons, ih, List.length_cons]

/-- If a block of programs succeeds, a session that takes the programs one after the
other succeeds with each of them. Its last value prints as the value of the block,
and it has written the same in the end. -/
theorem evalAll_refines_block
    {settings : Settings} {input : Input} {sources : List Text} {v : Node}
    (htrace : settings.trace = false) (hne : sources ≠ [])
    (hcompile : ∀ source ∈ sources, ∃ e, compile source = .ok e)
    (hopen : ∀ source ∈ sources, ∀ e, parse (scan source) = .ok e → e.isOpenLet = false)
    (h : (runProgram settings input (blockOf sources)).1 = .ok v) :
    ∃ (ws : List Node) (w : Node),
      ((start settings input).evalAll sources).1 = (ws ++ [w]).map .ok ∧
      w.inspect = v.inspect ∧
      ((start settings input).evalAll sources).2.state.written =
        (runProgram settings input (blockOf sources)).2.state.written := by
  obtain ⟨es, hes⟩ := exists_forall₂_compile hcompile
  have hblock := compile_blockOf hne hes hopen
  have heval : (start settings input).eval (blockOf sources) =
      (.ok v, (runProgram settings input (blockOf sources)).2) := Prod.ext h rfl
  obtain ⟨_, hcompiled, hv, hsession⟩ := eval_eq_ok_iff.mp heval
  cases hblock.symm.trans hcompiled
  obtain ⟨ws, R, hws, hvalue, hm⟩ := exists_ok_of_block htrace hes hblock hv
  have hwsne : ws ≠ [] := by
    rintro rfl
    have hlength := length_evalAll (start settings input) sources
    rw [hws] at hlength
    exact hne (List.length_eq_zero_iff.mp hlength.symm)
  refine ⟨ws.dropLast, ws.getLast hwsne, ?_, ?_, ?_⟩
  · rw [hws, List.dropLast_append_getLast hwsne]
  · rw [List.getLastD_eq_getLast?, List.getLast?_eq_some_getLast hwsne] at hvalue
    exact hvalue.inspect_eq
  · rw [State.written, hm.output, hsession]
    rfl

/-- Two functions that call each other. The session takes the first one before the
second one is defined. -/
def countDown : List Text :=
  ["def f = lambda (n) \x7b cond (zero?(n) => \"done\") (true => g(n)) \x7d",
    "def g = lambda (n) \x7b print(n); f(sub(n, 1)) \x7d", "f(2)"]

/-- Settings under which calls extend the frame that a lambda has captured. -/
def lexicalSettings : Settings :=
  { dynamicSettings with lexical := true }

theorem countDown_compiles :
    ∀ source ∈ countDown, ∃ e, compile source = .ok e := by
  have hok : ∀ source ∈ countDown, (compile source).isOk := by decide +kernel
  intro source hsource
  have h := hok source hsource
  cases hcompile : compile source with
  | error f =>
      rw [hcompile] at h
      cases h
  | ok e => exact ⟨e, rfl⟩

theorem countDown_has_no_open_let :
    ∀ source ∈ countDown, ∀ e, parse (scan source) = .ok e → e.isOpenLet = false := by
  have hok : ∀ source ∈ countDown, (parse (scan source)).toOption.any Expr.isOpenLet = false := by
    decide +kernel
  intro source hsource e he
  have h := hok source hsource
  rw [he] at h
  exact h

theorem countDown_refines_block :
    lexicalSettings.trace = false ∧ countDown ≠ [] ∧
      (∀ source ∈ countDown, ∃ e, compile source = .ok e) ∧
      (∀ source ∈ countDown, ∀ e, parse (scan source) = .ok e → e.isOpenLet = false) ∧
      ∃ v, (runProgram lexicalSettings ⟨[], none⟩ (blockOf countDown)).1 = .ok v ∧
        v.same (.string "done") ∧
        ∃ (ws : List Node) (w : Node),
          ((start lexicalSettings ⟨[], none⟩).evalAll countDown).1 = (ws ++ [w]).map .ok ∧
          w.inspect = v.inspect ∧
          ((start lexicalSettings ⟨[], none⟩).evalAll countDown).2.state.written =
            (runProgram lexicalSettings ⟨[], none⟩ (blockOf countDown)).2.state.written := by
  have hne : countDown ≠ [] := List.cons_ne_nil _ _
  have hrun : ∃ v, (runProgram lexicalSettings ⟨[], none⟩ (blockOf countDown)).1 = .ok v ∧
      v.same (.string "done") := exists_ok_of_call (by decide +kernel)
  obtain ⟨v, hv, hsame⟩ := hrun
  exact ⟨rfl, hne, countDown_compiles, countDown_has_no_open_let, v, hv, hsame,
    evalAll_refines_block rfl hne countDown_compiles countDown_has_no_open_let hv⟩

end Session

end BlockLang
