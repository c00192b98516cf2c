import BlockLang.Proofs.Evaluation.Depth

/-!
# Mapping a function over a list

The procedure `map` does not know the frame that it was called from. It asks for the
application of its function on behalf of the running procedure, and the frame is found
on top of the callers. Whatever a function does, it leaves the callers as they were, so
this frame is the right one for every element: mapping a function is applying it from
the frame of the call to one element after the other.
-/

namespace BlockLang

/-- Whether an expression is a procedure or a lambda. -/
def Expr.isFunction {ι : Type} : Expr ι → Bool
  | procedure .. | lambda .. => true
  | _ => false

namespace Evaluator

open Evaluation

/-! ## Applications at a depth -/

/-- Applies a function to arguments from a frame, where `depth` levels are in use. -/
def applyAt (settings : Settings) (depth : Nat) (f : Node) (args : List Node) (caller : FrameId)
    (s : State) : Except Fault Node × State :=
  (applyFrom settings f args caller s).answer ((rules settings).perform (settings.limit - depth))

/-- Applies a function from a frame to one element after the other, up to the first
fault. -/
def applyInTurn (settings : Settings) (depth : Nat) (f : Node) (caller : FrameId) :
    List Node → State → Except Fault (List Node) × State
  | [], s => (.ok [], s)
  | v :: vs, s =>
    match applyAt settings depth f [v] caller s with
    | (.error e, s) => (.error e, s)
    | (.ok result, s) =>
      match applyInTurn settings depth f caller vs s with
      | (.error e, s) => (.error e, s)
      | (.ok results, s) => (.ok (result :: results), s)

/-- Makes a list of results, if there are any, and gives the callers back. -/
def gather (callers : List FrameId) :
    Except Fault (List Node) × State → Except Fault Node × State
  | (.error e, s) => (.error e, { s with callers })
  | (.ok results, s) =>
    let (v, store) := s.store.newList results
    (.ok v, { s with store, callers })

theorem callers_applyAt
    (settings : Settings) (depth : Nat) (f : Node) (args : List Node) (caller : FrameId)
    (s : State) :
    (applyAt settings depth f args caller s).2.callers = s.callers :=
  ((quietly_applyFrom settings f args caller).balanced_answer (balanced_perform settings _)
    s).callers

theorem callers_applyInTurn
    (settings : Settings) (depth : Nat) (f : Node) (caller : FrameId) (vs : List Node)
    (s : State) :
    (applyInTurn settings depth f caller vs s).2.callers = s.callers := by
  induction vs generalizing s with
  | nil => rfl
  | cons v vs ih =>
      have hfirst := callers_applyAt settings depth f [v] caller s
      rw [applyInTurn]
      rcases hanswer : applyAt settings depth f [v] caller s with ⟨e | result, t⟩
      · rw [hanswer] at hfirst
        exact hfirst
      · rw [hanswer] at hfirst
        have hrest := (ih t).trans hfirst
        rcases hanswers : applyInTurn settings depth f caller vs t with ⟨e | results, u⟩
        · rw [hanswers] at hrest
          simpa only [hanswers] using hrest
        · rw [hanswers] at hrest
          simpa only [hanswers] using hrest

/-- A request to apply a function is answered from the frame on top of the callers,
one level deeper. -/
theorem perform_apply
    {settings : Settings} {depth : Nat} (hdepth : depth + 1 ≤ settings.limit) {caller : FrameId}
    {callers : List FrameId} {s : State} (hs : s.callers = caller :: callers) (f : Node)
    (args : List Node) :
    (rules settings).perform (settings.limit - depth) (.apply f args) s =
      applyAt settings (depth + 1) f args caller s := by
  have hlimit : settings.limit - depth = settings.limit - (depth + 1) + 1 := by omega
  have hbody : body settings (.apply f args) s = applyFrom settings f args caller s := by
    obtain ⟨store, depth, _, input, output, events⟩ := s
    cases hs
    rfl
  rw [hlimit, applyAt, ← hbody]
  rfl

/-! ## One element after the other -/

theorem answer_applyEach
    {settings : Settings} {depth : Nat} {caller : FrameId} {callers : List FrameId} (f : Node)
    {vs : List Node} (hdepth : vs = [] ∨ depth + 1 ≤ settings.limit) (done : List Node)
    {s : State} (hs : s.callers = caller :: callers) :
    (applyEach f vs done s).answer ((rules settings).perform (settings.limit - depth)) =
      Computation.onward (fun results t => (.ok (done.reverse ++ results), t))
        (applyInTurn settings (depth + 1) f caller vs s) := by
  induction vs generalizing done s with
  | nil =>
      rw [applyInTurn, Computation.onward, List.append_nil]
      rfl
  | cons v vs ih =>
      have hdepth := hdepth.resolve_left (List.cons_ne_nil v vs)
      have hfirst : (request (.apply f [v]) s).answer
          ((rules settings).perform (settings.limit - depth)) =
            applyAt settings (depth + 1) f [v] caller s :=
        perform_apply hdepth hs f [v]
      have hcallers := callers_applyAt settings (depth + 1) f [v] caller s
      rw [applyEach, answer_bind, hfirst, applyInTurn]
      rcases hanswer : applyAt settings (depth + 1) f [v] caller s with ⟨e | result, t⟩
      · rfl
      · rw [hanswer] at hcallers
        have hrest := ih (.inr hdepth) (result :: done) (hcallers.trans hs)
        rw [Computation.onward, hrest]
        rcases hanswers : applyInTurn settings (depth + 1) f caller vs t with ⟨e | results, u⟩
        · simp only [hanswers]
          rfl
        · simp only [hanswers, Computation.onward, List.reverse_cons, List.append_assoc,
            List.cons_append, List.nil_append]

/-- No element is applied where no level is left. -/
theorem answer_applyEach_of_limit_lt
    {settings : Settings} {depth : Nat} (hdepth : settings.limit < depth + 1) (f : Node)
    {vs : List Node} (hvs : vs ≠ []) (done : List Node) (s : State) :
    (applyEach f vs done s).answer ((rules settings).perform (settings.limit - depth)) =
      (.error .recursionLimit, s) := by
  have hlimit : settings.limit - depth = 0 := by omega
  cases vs with
  | nil => exact absurd rfl hvs
  | cons v vs =>
      rw [hlimit]
      rfl

theorem attempt_ok_bind
    {β γ : Type} (b : β) (x : β → Evaluation γ) :
    attempt (.ok b) >>= x = x b :=
  rfl

/-- What `map` does with a function and a list. -/
theorem map_eq
    {settings : Settings} (happly : settings.canApply = true) {f : Node}
    (hf : f.isFunction = true) (j : Label) (vs : List Node) :
    map settings true [f, .list j vs] = applyEach f vs [] >>= newList := by
  have hread : Procedure.functionAndList .map [f, .list j vs] = .ok (f, vs) := by
    cases f
    case procedure | lambda => rfl
    all_goals cases hf
  rw [map, hread, attempt_ok_bind]
  simp only [happly, Bool.and_self, ↓reduceIte]

/-- Mapping runs with the frame it was called from on top of the callers, which are
given back in the end. -/
theorem applyAt_map_eq_answer
    {settings : Settings} (happly : settings.canApply = true) {f : Node}
    (hf : f.isFunction = true) (depth : Nat) (i j : Label) (vs : List Node) (caller : FrameId)
    (s : State) :
    applyAt settings depth (.procedure i Procedure.map.name true) [f, .list j vs] caller s =
      let (outcome, t) := ((applyEach f vs [] >>= newList) (s.pushCaller caller)).answer
        ((rules settings).perform (settings.limit - depth))
      (outcome, { t with callers := s.callers }) := by
  have hmapping : Quietly (applyEach f vs [] >>= newList) :=
    .bind (quietly_applyEach f vs []) quietly_newList
  have hcall : applyAt settings depth (.procedure i Procedure.map.name true) [f, .list j vs]
      caller s = (withCaller caller (map settings true [f, .list j vs]) s).answer
        ((rules settings).perform (settings.limit - depth)) := rfl
  rw [hcall, map_eq happly hf j vs]
  exact answer_withCaller (hmapping.balanced_answer (balanced_perform settings _) _)

/-- If there is a level for the elements, mapping is applying the function to each of
them. -/
theorem applyAt_map
    {settings : Settings} (happly : settings.canApply = true) {f : Node}
    (hf : f.isFunction = true) {depth : Nat} {vs : List Node}
    (hdepth : vs = [] ∨ depth + 1 ≤ settings.limit) (i j : Label) (caller : FrameId) (s : State) :
    applyAt settings depth (.procedure i Procedure.map.name true) [f, .list j vs] caller s =
      gather s.callers
        (applyInTurn settings (depth + 1) f caller vs (s.pushCaller caller)) := by
  have hpushed : (s.pushCaller caller).callers = caller :: s.callers := rfl
  rw [applyAt_map_eq_answer happly hf, answer_bind, answer_applyEach f hdepth [] hpushed]
  rcases hanswers : applyInTurn settings (depth + 1) f caller vs (s.pushCaller caller) with
    ⟨e | results, t⟩
  · rfl
  · rfl

/-- A lambda that has captured no frame runs in a new frame inside the one it is
applied from. -/
theorem applyAt_lambda
    {settings : Settings} {label : Label} {s : State}
    (hfree : settings.lexical = true → s.store.captured? label = none) (depth : Nat) (x : Text)
    (body : List Node) (v : Node) (caller : FrameId) :
    ∃ t : State, t.callers = s.callers ∧
      t.store.frames = s.store.frames.push ⟨some caller, [(x, v)]⟩ ∧
      applyAt settings depth (.lambda label [x] body) [v] caller s =
        (rules settings).perform (settings.limit - depth)
          (.eval (.block label body) s.store.frames.size) t := by
  have hparent : parentFrame settings label caller s = caller := by
    unfold parentFrame
    split
    · rw [hfree ‹_›]
      rfl
    · rfl
  refine ⟨(s.enclose caller).2.mapStore (·.define s.store.frames.size x v), rfl, ?_, ?_⟩
  · exact Store.frames_define_push (s := (s.enclose caller).2.store) rfl x v
  · have hcall : applyAt settings depth (.lambda label [x] body) [v] caller s =
        (rules settings).perform (settings.limit - depth)
          (.eval (.block label body) s.store.frames.size)
          ((s.enclose (parentFrame settings label caller s)).2.mapStore
            (·.define s.store.frames.size x v)) := rfl
    rw [hcall, hparent]

/-- Mapping a function over a list from a frame is applying it from this frame to one
element after the other, one level deeper, with the frame on the callers; a fault of
an element is the fault of the whole. It is cut off only if there are elements and no
level is left for them. Whatever the function has done for the elements before, the
next one is applied from the same frame: a lambda that has captured none by then runs
inside it. -/
theorem map_applies_in_turn
    {settings : Settings} (happly : settings.canApply = true) {f : Node}
    (hf : f.isFunction = true) (depth : Nat) (i j : Label) (vs : List Node) (env : FrameId)
    (s : State) :
    applyAt settings depth (.procedure i Procedure.map.name true) [f, .list j vs] env s =
        (if vs ≠ [] ∧ settings.limit < depth + 1 then (.error .recursionLimit, s)
        else gather s.callers
          (applyInTurn settings (depth + 1) f env vs (s.pushCaller env))) ∧
      ∀ before v after results t, vs = before ++ v :: after →
        applyInTurn settings (depth + 1) f env before (s.pushCaller env) = (.ok results, t) →
        t.callers = env :: s.callers ∧
          ∀ label x body, f = .lambda label [x] body →
            (settings.lexical = true → t.store.captured? label = none) →
            ∃ u : State, u.callers = env :: s.callers ∧
              u.store.frames = t.store.frames.push ⟨some env, [(x, v)]⟩ ∧
              applyAt settings (depth + 1) f [v] env t =
                (rules settings).perform (settings.limit - (depth + 1))
                  (.eval (.block label body) t.store.frames.size) u := by
  refine ⟨?_, fun before v after results t _ hbefore => ?_⟩
  · split
    · rename_i hcut
      rw [applyAt_map_eq_answer happly hf, answer_bind,
        answer_applyEach_of_limit_lt hcut.2 f hcut.1]
      rfl
    · rename_i hlevel
      refine applyAt_map happly hf ?_ i j env s
      by_cases hvs : vs = []
      · exact .inl hvs
      · exact .inr (Nat.le_of_not_lt fun hcut => hlevel ⟨hvs, hcut⟩)
  · have hcallers : t.callers = env :: s.callers := by
      have hturn := callers_applyInTurn settings (depth + 1) f env before (s.pushCaller env)
      rw [hbefore] at hturn
      exact hturn
    refine ⟨hcallers, ?_⟩
    rintro label x body rfl hfree
    obtain ⟨u, hu, hframes, hcall⟩ := applyAt_lambda hfree (depth + 1) x body v env
    exact ⟨u, hu.trans hcallers, hframes, hcall⟩

/-- A function that adds its argument to itself by mapping another function. -/
def doubling : Source :=
  .lambda () ["n"]
    [.apply () (.identifier "map")
      [.lambda () ["k"] [.apply () (.identifier "add") [.identifier "n", .identifier "k"]],
       .apply () (.identifier "cons")
        [.identifier "n", .apply () (.identifier "cons") []]]]

/-- The second element is applied from the frame of the call, after a whole mapping has
run for the first. -/
theorem doubling_applies_in_turn :
    let s := (Session.start dynamicSettings ⟨[], none⟩).state
    let f : Node := (doubling.labelled s.store.nextLabel).1
    dynamicSettings.canApply = true ∧ f.isFunction = true ∧
      applyAt dynamicSettings 0 (.procedure 0 Procedure.map.name true)
          [f, .list 0 [.integer 2, .integer 3]] 1 s =
        gather s.callers
          (applyInTurn dynamicSettings 1 f 1 [.integer 2, .integer 3] (s.pushCaller 1)) ∧
      ∃ results t,
        applyInTurn dynamicSettings 1 f 1 [.integer 2] (s.pushCaller 1) = (.ok results, t) ∧
          t.callers = 1 :: s.callers ∧
          ∃ (label : Label) (body : List Node) (u : State), f = .lambda label ["n"] body ∧
            u.store.frames = t.store.frames.push ⟨some 1, [("n", .integer 3)]⟩ ∧
            applyAt dynamicSettings 1 f [.integer 3] 1 t =
              (rules dynamicSettings).perform (dynamicSettings.limit - 1)
                (.eval (.block label body) t.store.frames.size) u := by
  intro s f
  have happly : dynamicSettings.canApply = true := rfl
  have hf : f.isFunction = true := rfl
  have hok : (applyInTurn dynamicSettings 1 f 1 [.integer 2] (s.pushCaller 1)).1.isOk = true := by
    decide +kernel
  obtain ⟨hall, hnext⟩ := map_applies_in_turn happly hf 0 0 0 [.integer 2, .integer 3] 1 s
  rcases hfirst : applyInTurn dynamicSettings 1 f 1 [.integer 2] (s.pushCaller 1) with
    ⟨e | results, t⟩
  · rw [hfirst] at hok
    cases hok
  · obtain ⟨hcallers, hlambda⟩ := hnext [.integer 2] (.integer 3) [] results t rfl hfirst
    obtain ⟨u, -, hframes, hcall⟩ := hlambda _ "n" _ rfl (absurd · (by decide))
    exact ⟨happly, hf, hall, results, t, rfl, hcallers, _, _, u, rfl, hframes, hcall⟩

end Evaluator

end BlockLang
