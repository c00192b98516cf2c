import BlockLang.Proofs.Evaluation.Evolution

/-!
# The inputs of a session

Between two inputs the frames of the session and of the library hold no
reservations. An input adds at most one name to them, the one that it defines, and
only if it succeeds. A definition that fails, after whatever assignments to its
name, leaves the binding as it was.
-/

namespace BlockLang

/-! ## Bindings in one frame -/

namespace Store

theorem reserved_iff
    {s : Store} {id : FrameId} {x : Text} :
    Reserved s.frames id x ↔ s.getLocal? id x = some .placeholder := by
  unfold Reserved getLocal? Frame.reserves
  cases s.frames[id]? with
  | none => simp
  | some f =>
      simp only [Option.any_some, Option.bind_some]
      cases f.get? x with
      | none => simp
      | some v => cases v <;> simp [Expr.isPlaceholder]

theorem getLocal?_define
    {s : Store} {id : FrameId} (hid : id < s.frames.size) (y : Text) (v : Node) (id' : FrameId)
    (x : Text) :
    (s.define id y v).getLocal? id' x =
      if id' = id ∧ x = y then some v else s.getLocal? id' x := by
  unfold getLocal? define
  rw [Array.getElem?_modify]
  by_cases h : id = id'
  · subst h
    rw [if_pos rfl, Array.getElem?_eq_getElem hid]
    simp [Frame.get?_define]
  · have h' : ¬id' = id := fun heq => h heq.symm
    simp [h, h']

theorem getLocal?_erase
    (s : Store) (id : FrameId) (y : Text) (id' : FrameId) (x : Text) :
    (s.erase id y).getLocal? id' x =
      if id' = id ∧ x = y then none else s.getLocal? id' x := by
  unfold getLocal? erase
  rw [Array.getElem?_modify]
  by_cases h : id = id'
  · subst h
    rw [if_pos rfl]
    cases s.frames[id]? with
    | none => simp
    | some f => simp [Frame.get?_erase]
  · have h' : ¬id' = id := fun heq => h heq.symm
    simp [h, h']

theorem Grows.isSome_getLocal?
    {s t : Store} (h : s.Grows t) {id : FrameId} (hid : id < s.frames.size) (x : Text) :
    (t.getLocal? id x).isSome = (s.getLocal? id x).isSome := by
  have hf := Array.getElem?_eq_getElem hid
  obtain ⟨g, hg, hgrows⟩ := h.frames id _ hf
  rw [getLocal?, getLocal?, hg, hf]
  exact hgrows.isSome_get? x

theorem mem_names_iff
    {s : Store} {id : FrameId} {x : Text} :
    x ∈ s.names id ↔ (s.getLocal? id x).isSome := by
  unfold names getLocal?
  cases s.frames[id]? with
  | none => simp
  | some f =>
      rw [Option.map_some, Option.getD_some, Option.bind_some, Frame.isSome_get?_iff]
      exact List.mem_mergeSort

end Store

namespace Session

theorem getLocal?_reserve
    {s : State} {frame : FrameId} (hframe : frame < s.store.frames.size) (e : Node)
    (id : FrameId) (x : Text) :
    (reserve frame e s).store.getLocal? id x =
      if id = frame ∧ e.definedName? = some x then some .placeholder
      else s.store.getLocal? id x := by
  cases e
  case define i y value =>
    have hdefine := Store.getLocal?_define hframe y .placeholder id x
    simp only [Expr.definedName?, Option.some.injEq, eq_comm (a := y)]
    exact hdefine
  all_goals simp [reserve, Expr.definedName?]

theorem settle_of_none
    {s : Session} {c : EvalCall} (h : c.request.definedName? = none) :
    s.settle c = c.after := by
  rw [settle, h]

/-- A definition that has failed has the binding of its name as it was before. -/
theorem getLocal?_settle_of_error
    {s : Session} {c : EvalCall} {f : Fault} {y : Text} (hname : c.request.definedName? = some y)
    (hf : c.outcome = .error f) (hframe : s.frame < c.after.store.frames.size) (id : FrameId)
    (x : Text) :
    (s.settle c).store.getLocal? id x =
      if id = s.frame ∧ x = y then s.state.store.getLocal? s.frame y
      else c.after.store.getLocal? id x := by
  have hsettle : (s.settle c).store =
      restore s.frame y (s.state.store.getLocal? s.frame y) c.after.store := by
    rw [settle, hname, hf]
    rfl
  rw [hsettle]
  cases s.state.store.getLocal? s.frame y with
  | none => exact Store.getLocal?_erase _ _ _ _ _
  | some v => exact Store.getLocal?_define hframe _ _ _ _

theorem definedName?_loadTree
    {s : State} {e : Source} {x : Text} :
    (loadTree s e).1.definedName? = some x ↔ ∃ value, e = .define () x value := by
  cases e <;> simp [loadTree, Expr.labelled, Expr.definedName?]

/-! ## Between two inputs -/

/-- The frame that the library is loaded into. It is the first one. -/
def outermost : FrameId := 0

/-- The sessions that inputs lead to. The output of earlier inputs may be forgotten
in between. -/
inductive Reached (settings : Settings) (input : Input) : Session → Prop where
  | start : Reached settings input (start settings input)
  | eval {s : Session} (hs : Reached settings input s) (source : Text) :
      Reached settings input (s.eval source).2
  | forget {s : Session} (hs : Reached settings input s) : Reached settings input s.forget

/-- A session between two inputs: no procedure is running, and the frames of the
session and of the library bind names to values only. -/
structure Ready (s : Session) : Prop where
  wellFormed : s.state.WellFormed s.settings Head.ofProgram
  idle : s.state.callers = []
  inside : outermost < s.frame
  exists_frame : s.frame < s.state.store.frames.size
  defined : ∀ id, id ≤ s.frame → ∀ x, s.state.store.getLocal? id x ≠ some .placeholder

theorem ofProgram_procedure
    (q : Procedure) :
    Head.ofProgram (.procedure q.name true) := by
  cases q <;> decide

theorem isVocabulary_ofProgram : IsVocabulary Head.ofProgram :=
  ⟨rfl, rfl⟩

theorem ready_start
    (settings : Settings) (input : Input) :
    Ready (start settings input) := by
  refine ⟨wellFormed_start ofProgram_procedure settings input, rfl, Nat.zero_lt_one,
    Nat.lt_succ_self 1, fun id _ x hx => ?_⟩
  have hframes : (start settings input).state.store.frames = library.push ⟨some 0, []⟩ := rfl
  rw [← Store.reserved_iff, hframes] at hx
  rcases reserved_push.mp hx with ⟨-, hx⟩ | hx
  · cases hx
  · obtain ⟨f, hf, hx⟩ := (Option.any_eq_true ..).mp hx
    have hvalues : ∀ y w, f.get? y = some w → IsValue w := fun _ _ hw =>
      isValueOf_library (fun _ => rfl) (Array.mem_of_getElem? hf) hw
    rw [Evaluator.reserves_eq_false hvalues] at hx
    cases hx

section Call

variable {s : Session} {source : Text} {e : Source} {c : EvalCall}

theorem call_request
    (s : Session) (e : Source) :
    (s.call e).request = .eval (loadTree s.state e).1 s.frame :=
  Rules.call_request _ _ _ _

theorem call_before
    (s : Session) (e : Source) :
    (s.call e).before = reserve s.frame (loadTree s.state e).1 (loadTree s.state e).2 :=
  Rules.call_before _ _ _ _

/-- Every call that an input leads to keeps the contract. -/
theorem Ready.contract_of_contains
    (hs : s.Ready) (hcompile : compile source = .ok e) (hc : (s.call e).Contains c) :
    (Evaluator.rules s.settings).Governs c ∧
      (Evaluator.contract s.settings Head.ofProgram).pre c.request c.before ∧
      (Evaluator.contract s.settings Head.ofProgram).post c := by
  have hgoverned : (Evaluator.rules s.settings).Governs (s.call e) :=
    Rules.governs_call _ _ _ _
  refine (Evaluator.honours_contract isVocabulary_ofProgram).of_contains hgoverned ?_ hc
  rw [call_request, call_before]
  refine ⟨wellFormed_reserve (wellFormed_loadTree hs.wellFormed e) _ _, ?_, ?_⟩
  · have hin := within_of_compile hcompile
    rw [← Expr.within_labelled e s.state.store.nextLabel] at hin
    exact hin
  · rw [size_reserve]
    exact hs.exists_frame

theorem getLocal?_before
    (hs : s.Ready) (e : Source) (id : FrameId) (x : Text) :
    (s.call e).before.store.getLocal? id x =
      if id = s.frame ∧ (s.call e).request.definedName? = some x then some .placeholder
      else s.state.store.getLocal? id x := by
  rw [call_before, call_request]
  exact getLocal?_reserve (s := (loadTree s.state e).2) hs.exists_frame _ id x

/-- After the call of an input, nothing is reserved in the frames of the session
and of the library but the name of a definition that has failed. -/
theorem error_of_getLocal?_after
    (hs : s.Ready) (hcompile : compile source = .ok e) {id : FrameId} {x : Text}
    (hid : id ≤ s.frame) (hx : (s.call e).after.store.getLocal? id x = some .placeholder) :
    id = s.frame ∧ (s.call e).request.definedName? = some x ∧
      ∃ f, (s.call e).outcome = .error f := by
  obtain ⟨hgoverned, -, hpost⟩ := hs.contract_of_contains hcompile .self
  have hsize : id < (s.call e).before.store.frames.size := by
    rw [call_before, size_reserve]
    exact Nat.lt_of_le_of_lt hid hs.exists_frame
  have hbefore := hpost.proceeds.grows.reserved hsize (Store.reserved_iff.mpr hx)
  rw [Store.reserved_iff, getLocal?_before hs] at hbefore
  split at hbefore
  · rename_i hname
    obtain ⟨rfl, hname⟩ := hname
    refine ⟨rfl, hname, ?_⟩
    cases houtcome : (s.call e).outcome with
    | error f => exact ⟨f, rfl⟩
    | ok v =>
        obtain ⟨i, value, env, hdefine⟩ := Request.eq_of_definedName? hname
        have henv := (call_request s e).symm.trans hdefine
        cases (Request.eval.inj henv).2
        have hvalue := (hpost.value v houtcome).isPlaceholder_eq_false
        have hfilled := Evaluator.not_reserved_of_define hgoverned houtcome hvalue hdefine
        exact absurd (Store.reserved_iff.mpr hx) hfilled
  · exact absurd hbefore (hs.defined id hid x)

theorem isSome_getLocal?_after
    (hs : s.Ready) (hcompile : compile source = .ok e) {id : FrameId} (hid : id ≤ s.frame)
    (x : Text) :
    ((s.call e).after.store.getLocal? id x).isSome ↔
      (id = s.frame ∧ (s.call e).request.definedName? = some x) ∨
        (s.state.store.getLocal? id x).isSome := by
  obtain ⟨-, -, hpost⟩ := hs.contract_of_contains hcompile .self
  have hsize : id < (s.call e).before.store.frames.size := by
    rw [call_before, size_reserve]
    exact Nat.lt_of_le_of_lt hid hs.exists_frame
  rw [hpost.proceeds.grows.isSome_getLocal? hsize, getLocal?_before hs]
  split
  · simp [*]
  · simp [*]

theorem settle_cases
    (s : Session) (c : EvalCall) :
    (s.settle c = c.after ∧
        ∀ y, c.request.definedName? = some y → ∃ v, c.outcome = .ok v) ∨
      ∃ y f, c.request.definedName? = some y ∧ c.outcome = .error f := by
  cases hname : c.request.definedName? with
  | none => exact .inl ⟨settle_of_none hname, nofun⟩
  | some y =>
      cases houtcome : c.outcome with
      | error f => exact .inr ⟨y, f, rfl, rfl⟩
      | ok v => exact .inl ⟨settle_of_ok houtcome, fun _ _ => ⟨v, rfl⟩⟩

theorem Ready.lt_size_after
    (hs : s.Ready) (hcompile : compile source = .ok e) :
    s.frame < (s.call e).after.store.frames.size := by
  obtain ⟨-, ⟨-, hfits⟩, hpost⟩ := hs.contract_of_contains hcompile .self
  rw [call_request] at hfits
  exact hpost.proceeds.lt_size hfits.2

theorem Ready.settle
    (hs : s.Ready) (hcompile : compile source = .ok e) :
    Ready { s with state := s.settle (s.call e) } := by
  obtain ⟨-, -, hpost⟩ := hs.contract_of_contains hcompile .self
  have hidle : (s.call e).after.callers = [] := by
    rw [hpost.proceeds.callers, call_before, callers_reserve]
    exact hs.idle
  have hsize := hs.lt_size_after hcompile
  rcases s.settle_cases (s.call e) with ⟨hsettle, hok⟩ | ⟨y, f, hname, hf⟩
  · rw [hsettle]
    refine ⟨hpost.proceeds.wellFormed, hidle, hs.inside, hsize, fun id hid x hx => ?_⟩
    obtain ⟨-, hname, f, hf⟩ := error_of_getLocal?_after hs hcompile hid hx
    obtain ⟨v, hv⟩ := hok x hname
    cases hf.symm.trans hv
  · have hsettle : s.settle (s.call e) = (s.call e).after.mapStore
        (restore s.frame y (s.state.store.getLocal? s.frame y)) := by
      rw [Session.settle, hname, hf]
    refine ⟨?_, ?_, hs.inside, ?_, fun id hid x => ?_⟩
    · rw [hsettle]
      exact wellFormed_restore hpost.proceeds.wellFormed _ _ fun v =>
        isValueOf_getLocal? hs.wellFormed
    · rw [hsettle]
      exact hidle
    · rw [hsettle]
      show _ < (restore s.frame y (s.state.store.getLocal? s.frame y) _).frames.size
      cases s.state.store.getLocal? s.frame y with
      | none => exact Nat.lt_of_lt_of_eq hsize Array.size_modify.symm
      | some v => exact Nat.lt_of_lt_of_eq hsize Array.size_modify.symm
    · rw [getLocal?_settle_of_error hname hf hsize]
      split
      · exact hs.defined s.frame (Nat.le_refl _) y
      · rename_i hother
        intro hx
        obtain ⟨rfl, hx, -⟩ := error_of_getLocal?_after hs hcompile hid hx
        cases hname.symm.trans hx
        exact hother ⟨rfl, rfl⟩

end Call

theorem Ready.eval
    {s : Session} (hs : s.Ready) (source : Text) :
    (s.eval source).2.Ready := by
  cases hcompile : compile source with
  | error f =>
      rw [Session.eval, hcompile]
      exact hs
  | ok e =>
      rw [s.eval_eq hcompile]
      exact hs.settle hcompile

/-- Every session that inputs lead to is ready for the next one. -/
theorem Reached.ready
    {settings : Settings} {input : Input} {s : Session} (hs : Reached settings input s) :
    s.Ready := by
  induction hs with
  | start => exact ready_start settings input
  | eval _ source ih => exact ih.eval source
  | forget _ ih =>
      obtain ⟨hwellFormed, hidle, hinside, hexists, hdefined⟩ := ih
      have hproceeds : State.Proceeds _ _ _ (State.forget _) :=
        hwellFormed.proceeds.quiet rfl rfl rfl
      exact ⟨hproceeds.wellFormed, hidle, hinside, hexists, hdefined⟩

/-! ## Names -/

section Names

variable {s : Session} {source : Text} {e : Source}

theorem exists_define_iff
    (s : Session) (e : Source) (x : Text) :
    (s.call e).request.definedName? = some x ↔ ∃ value, e = .define () x value := by
  rw [call_request]
  exact definedName?_loadTree

theorem isSome_getLocal?_settle
    (hs : s.Ready) (hcompile : compile source = .ok e) {id : FrameId} (hid : id ≤ s.frame)
    (x : Text) :
    ((s.settle (s.call e)).store.getLocal? id x).isSome ↔
      (s.state.store.getLocal? id x).isSome ∨
        id = s.frame ∧ (s.call e).request.definedName? = some x ∧
          ∃ v, (s.call e).outcome = .ok v := by
  rcases s.settle_cases (s.call e) with ⟨hsettle, hok⟩ | ⟨y, f, hname, hf⟩
  · rw [hsettle, isSome_getLocal?_after hs hcompile hid, or_comm]
    refine or_congr_right (and_congr_right fun _ => ?_)
    exact ⟨fun hx => ⟨hx, hok x hx⟩, And.left⟩
  · rw [getLocal?_settle_of_error hname hf (hs.lt_size_after hcompile), hf]
    split
    · rename_i hown
      obtain ⟨rfl, rfl⟩ := hown
      simp
    · rename_i hother
      rw [isSome_getLocal?_after hs hcompile hid, hname]
      have hnot : ¬(id = s.frame ∧ some y = some x) := by
        rintro ⟨rfl, heq⟩
        exact hother ⟨rfl, (Option.some.inj heq).symm⟩
      rw [or_iff_right hnot]
      simp

end Names

/-! ## Inputs -/

/-- What an input leaves behind in the frames of the session and of the library,
whatever its outcome. Both bind names to values only. The session has one more
name if the input is a definition that succeeds, and the library has the same
names. A definition that fails leaves the binding of its name as it was, and a
source that is no program leaves everything as it was. -/
structure Leaves (s : Session) (source : Text) : Prop where
  frame : (s.eval source).2.frame = s.frame
  defined : ∀ x, (s.eval source).2.state.store.getLocal? s.frame x ≠ some .placeholder ∧
    (s.eval source).2.state.store.getLocal? outermost x ≠ some .placeholder
  names : ∀ x, x ∈ (s.eval source).2.names ↔
    x ∈ s.names ∨ ∃ value v, compile source = .ok (.define () x value) ∧
      (s.eval source).1 = .ok v
  library : ∀ x, x ∈ (s.eval source).2.state.store.names outermost ↔
    x ∈ s.state.store.names outermost
  restored : ∀ x value f, compile source = .ok (.define () x value) →
    (s.eval source).1 = .error f →
      (s.eval source).2.state.store.getLocal? s.frame x = s.state.store.getLocal? s.frame x
  refused : ∀ f, compile source = .error f → (s.eval source).2 = s

theorem leaves_of_error
    {s : Session} {source : Text} {f : Failure} (hs : s.Ready)
    (hcompile : compile source = .error f) :
    s.Leaves source := by
  have heval : s.eval source = (.error f, s) := by
    rw [Session.eval, hcompile]
  constructor <;> rw [heval]
  · exact fun x => ⟨hs.defined _ (Nat.le_refl _) x, hs.defined _ (Nat.le_of_lt hs.inside) x⟩
  · simp [hcompile]
  · exact fun _ => Iff.rfl
  · exact fun _ _ _ _ _ => rfl
  · exact fun _ _ => rfl

theorem leaves_of_ok
    {s : Session} {source : Text} {e : Source} (hs : s.Ready) (hcompile : compile source = .ok e) :
    s.Leaves source := by
  have hready := hs.settle hcompile
  have hsucceeds : (∃ v, (s.eval source).1 = .ok v) ↔ ∃ v, (s.call e).outcome = .ok v := by
    rw [s.eval_eq hcompile]
    cases (s.call e).outcome with
    | error f => exact ⟨nofun, nofun⟩
    | ok v => exact ⟨fun _ => ⟨v, rfl⟩, fun _ => ⟨v, rfl⟩⟩
  constructor
  · rw [s.eval_eq hcompile]
  · rw [s.eval_eq hcompile]
    exact fun x =>
      ⟨hready.defined _ (Nat.le_refl _) x, hready.defined _ (Nat.le_of_lt hs.inside) x⟩
  · intro x
    have hnames : x ∈ (s.eval source).2.names ↔
        ((s.settle (s.call e)).store.getLocal? s.frame x).isSome := by
      rw [Session.names, Store.mem_names_iff, s.eval_eq hcompile]
    rw [hnames, isSome_getLocal?_settle hs hcompile (Nat.le_refl _), exists_define_iff,
      ← hsucceeds, hcompile, Session.names, Store.mem_names_iff]
    simp
  · intro x
    rw [Store.mem_names_iff, Store.mem_names_iff, s.eval_eq hcompile,
      isSome_getLocal?_settle hs hcompile (Nat.le_of_lt hs.inside)]
    have hne : ¬outermost = s.frame := Nat.ne_of_lt hs.inside
    simp [hne]
  · intro x value f hdefine herror
    cases hcompile.symm.trans hdefine
    have hname := (exists_define_iff s _ x).mpr ⟨value, rfl⟩
    have hfails : ∃ g, (s.call (.define () x value)).outcome = .error g := by
      cases houtcome : (s.call (.define () x value)).outcome with
      | error g => exact ⟨g, rfl⟩
      | ok v =>
          obtain ⟨w, hw⟩ := hsucceeds.mpr ⟨v, houtcome⟩
          cases herror.symm.trans hw
    obtain ⟨g, hg⟩ := hfails
    rw [s.eval_eq hcompile, getLocal?_settle_of_error hname hg (hs.lt_size_after hcompile),
      if_pos ⟨rfl, rfl⟩]
  · intro f herror
    cases hcompile.symm.trans herror

/-- After every input of a session, whatever its outcome, the frames of the session
and of the library are as they should be. -/
theorem eval_leaves_top_frames_defined
    {settings : Settings} {input : Input} {s : Session} (hs : Reached settings input s)
    (source : Text) :
    s.Leaves source := by
  cases hcompile : compile source with
  | error f => exact leaves_of_error hs.ready hcompile
  | ok e => exact leaves_of_ok hs.ready hcompile

/-- A definition that assigns to its own name and then fails. -/
def failedRedefinition : Text :=
  "def f = \x7b f = 2; g \x7d"

theorem failedRedefinition_leaves_top_frames_defined :
    let s := (runProgram dynamicSettings ⟨[], none⟩ "def f = 1").2
    Reached dynamicSettings ⟨[], none⟩ s ∧ (s.eval failedRedefinition).1.toOption.isNone ∧
      ((s.eval failedRedefinition).2.state.store.getLocal? s.frame "f").any
        (·.same (.integer 1)) ∧
      s.Leaves failedRedefinition := by
  intro s
  have hs : Reached dynamicSettings ⟨[], none⟩ s := .eval .start _
  refine ⟨hs, ?_, ?_, eval_leaves_top_frames_defined hs failedRedefinition⟩
  · simp only [s, runProgram, eval_eq_call]
    decide +kernel
  · simp only [s, runProgram, eval_eq_call]
    decide +kernel

end Session

end BlockLang
