import BlockLang.Proofs.Evaluation.Assembly
import BlockLang.Proofs.Evaluation.Definitions

/-!
# The depth limit

A deeper limit lets runs go on that a shallower one cuts short, and changes nothing
else: where a run comes to an end of its own, it does so in the same way under every
deeper limit. For a fault is never caught, so a run in which some request was cut
off ends with this fault. While a run goes on, the depth is counted up and down
again and callers are put on the stack and taken off. Whatever a request comes to,
both are afterwards as they were before, so that no evaluation panics because there is
no caller to take off.
-/

namespace BlockLang

/-! ## Coming back from requests -/

namespace Running

variable {ρ ν ε σ : Type} {rules : Rules ρ ν ε σ}

/-- A request is answered, and the run goes on at the depth it was made at. -/
theorem leads_resume
    {limit : Nat} {now : Running ρ ν ε σ} {r : ρ} {s : σ}
    {resume : Except ε ν → σ → Computation ρ ν ε σ ν} (h : now.current = .ask r s resume) :
    Leads rules limit now
      { now with
        current := resume (rules.perform (limit - now.depth) r s).1
          (rules.perform (limit - now.depth) r s).2 } := by
  obtain ⟨depth, current, waiting⟩ := now
  cases h
  rcases hleft : limit - depth with _ | left
  · have hcut : limit ≤ depth := by omega
    exact .head (step_ask_of_overflow hcut) (.single rfl)
  · have hbody : Leads rules limit ⟨depth + 1, rules.body r s, resume :: waiting⟩ _ :=
      leads_answer left (depth + 1) (rules.body r s) (resume :: waiting) (by omega)
    exact .head (step_ask_of_lt (by omega)) (hbody.tail rfl)

/-- The depth is counted right: it has gone up by one for each computation that waits.
Beyond the limit there is nothing but the fault of having passed it. -/
structure Counted (rules : Rules ρ ν ε σ) (limit depth : Nat) (now : Running ρ ν ε σ) : Prop where
  waiting : now.depth = depth + now.waiting.length
  limited : now.depth ≤ max limit depth ∨
    now.depth = max limit depth + 1 ∧ ∃ s, now.current = .done (.error rules.overflow) s

theorem Counted.follows
    {limit depth : Nat} {now next : Running ρ ν ε σ} (h : Counted rules limit depth now)
    (hstep : Follows rules limit next now) :
    Counted rules limit depth next := by
  obtain ⟨n, current, waiting⟩ := now
  obtain ⟨hwaiting, hlimited⟩ := h
  dsimp only at hwaiting hlimited
  cases current with
  | done outcome s =>
      cases waiting with
      | nil => cases hstep
      | cons resume waiting =>
          cases hstep
          rw [List.length_cons] at hwaiting
          refine ⟨?_, .inl ?_⟩
          · dsimp only
            omega
          · dsimp only
            omega
  | ask r s resume =>
      have hlevel : n ≤ max limit depth := by
        rcases hlimited with hlevel | ⟨_, _, hdone⟩
        · exact hlevel
        · cases hdone
      by_cases hcut : limit ≤ n
      · cases (step_ask_of_overflow hcut).symm.trans hstep
        refine ⟨?_, ?_⟩
        · rw [List.length_cons]
          dsimp only
          omega
        · rcases Nat.lt_or_eq_of_le hlevel with hlt | rfl
          · exact .inl hlt
          · exact .inr ⟨rfl, s, rfl⟩
      · have hlt : n < limit := Nat.lt_of_not_le hcut
        cases (step_ask_of_lt hlt).symm.trans hstep
        refine ⟨?_, .inl ?_⟩
        · rw [List.length_cons]
          dsimp only
          omega
        · dsimp only
          omega

theorem Leads.counted
    {limit depth : Nat} {now later : Running ρ ν ε σ} (hlater : Leads rules limit now later)
    (h : Counted rules limit depth now) :
    Counted rules limit depth later := by
  induction hlater with
  | refl => exact h
  | tail _ hstep ih => exact ih.follows hstep

end Running

/-! ## Runs that are not cut short -/

/-- The second way to carry out requests agrees with the first one wherever that does
not end with a certain fault. -/
def AgreesUnless {ρ ν ε σ : Type} (e : ε) (oracle oracle' : ρ → σ → Except ε ν × σ) : Prop :=
  ∀ r s, (oracle r s).1 ≠ .error e → oracle' r s = oracle r s

namespace Evaluation

variable {β : Type} {R : Store → Store → Prop} {x : Evaluation β}
  {oracle oracle' : Request → State → Except Fault Node × State}

/-- No part of an evaluation catches a fault. -/
theorem Assembled.answer_eq
    {f : Fault} (hx : Assembled R x) (h : AgreesUnless f oracle oracle')
    (horacle : ∀ r (s : State), s.Balanced (oracle r s).2) (s : State)
    (hs : ((x s).answer oracle).1 ≠ .error f) :
    (x s).answer oracle' = (x s).answer oracle := by
  induction hx generalizing s with
  | fault _ => rfl
  | change _ _ => rfl
  | request r => exact h r s hs
  | @bind _ _ x g _ _ ihx ihg =>
      rw [answer_bind] at hs
      have hfirst : ((x s).answer oracle).1 ≠ .error f := by
        intro hcut
        exact hs (Computation.onward_of_error hcut)
      rw [answer_bind, answer_bind, ihx s hfirst]
      rcases hanswer : (x s).answer oracle with ⟨e | b, t⟩
      · rfl
      · rw [hanswer] at hs
        exact ihg b t hs
  | withCaller env hx ih =>
      have hbalanced := hx.balanced_answer horacle (s.pushCaller env)
      rw [answer_withCaller hbalanced] at hs
      have hsame := ih (s.pushCaller env) hs
      rw [answer_withCaller (hsame ▸ hbalanced), answer_withCaller hbalanced, hsame]

end Evaluation

namespace Evaluator

/-- A request that is not cut off comes to the same end under every deeper limit. -/
theorem perform_agrees
    (settings : Settings) {m m' : Nat} (hle : m ≤ m') :
    AgreesUnless .recursionLimit ((rules settings).perform m) ((rules settings).perform m') := by
  induction m generalizing m' with
  | zero =>
      intro r s h
      exact absurd rfl h
  | succ m ih =>
      intro r s h
      obtain ⟨k, rfl⟩ : ∃ k, m' = k + 1 := ⟨m' - 1, by omega⟩
      have hagrees := ih (Nat.le_of_succ_le_succ hle)
      rw [perform_succ] at h
      rw [perform_succ, perform_succ]
      exact (freely_carryOut settings r).answer_eq hagrees (balanced_perform settings m) _ h

/-- Whatever a request comes to, the run goes on as deep as it was, with the callers
it had. At every moment of a run the depth is counted right. No evaluation panics. -/
structure Balances (settings : Settings) : Prop where
  returns : ∀ limit (now : Running Request Node Fault State) r s resume,
    now.current = .ask r s resume → ∃ outcome s',
      (rules settings).perform (limit - now.depth) r s = (outcome, s') ∧
      now.Leads (rules settings) limit { now with current := resume outcome s' } ∧
      s'.callers = s.callers ∧ s'.depth = s.depth
  counts : ∀ limit depth r s (later : Running Request Node Fault State),
    Running.Leads (rules settings) limit ⟨depth, .ask r s .done, []⟩ later →
      later.Counted (rules settings) limit depth
  eval : ∀ e env s, s.Balanced (eval settings e env s).2 ∧
    (eval settings e env s).1 ≠ .error .noCaller
  apply : ∀ f args s, s.Balanced (apply settings f args s).2 ∧
    (apply settings f args s).1 ≠ .error .noCaller

theorem balances
    (settings : Settings) :
    Balances settings := by
  refine ⟨fun limit now r s resume hask => ?_, fun limit depth r s later hlater => ?_,
    fun e env s => ?_, fun f args s => ?_⟩
  · have hbalanced := balanced_perform settings (limit - now.depth) r s
    exact ⟨_, _, rfl, Running.leads_resume hask, hbalanced.callers, hbalanced.depth⟩
  · exact hlater.counted ⟨rfl, .inl (Nat.le_max_right limit depth)⟩
  · rw [eval_eq_perform]
    exact ⟨balanced_perform settings _ _ s, perform_ne_noCaller settings _ _ s⟩
  · rw [apply_eq_perform]
    exact ⟨balanced_perform settings _ _ s, perform_ne_noCaller settings _ _ s⟩

end Evaluator

/-- Settings with the depth limit for a wish. -/
def Settings.withDepth (settings : Settings) (wish : Int) : Settings :=
  { settings with limit := limitFor wish }

theorem Settings.limitFor_le
    {m m' : Int} (hm : 0 < m) (hle : m ≤ m') :
    limitFor m ≤ limitFor m' := by
  rw [limitFor, limitFor, if_neg (by omega), if_neg (by omega)]
  omega

/-- A deeper limit changes nothing about an evaluation that is not cut short, and no
evaluation disturbs the depth or the callers. -/
theorem eval_of_deeper_limit
    {m m' : Int} (hm : 0 < m) (hle : m ≤ m') (settings : Settings) (e : Node) (env : FrameId)
    (s : State) :
    ((Evaluator.eval (settings.withDepth m) e env s).1 ≠ .error .recursionLimit →
      Evaluator.eval (settings.withDepth m') e env s =
        Evaluator.eval (settings.withDepth m) e env s) ∧
      Evaluator.Balances settings := by
  refine ⟨fun hend => ?_, Evaluator.balances settings⟩
  have hlevels : Settings.limitFor m - s.depth ≤ Settings.limitFor m' - s.depth :=
    Nat.sub_le_sub_right (Settings.limitFor_le hm hle) s.depth
  have hagrees := Evaluator.perform_agrees settings hlevels
  rw [Evaluator.eval_eq_perform] at hend
  rw [Evaluator.eval_eq_perform, Evaluator.eval_eq_perform]
  exact hagrees _ _ hend

/-- A function that divides by the elements of a list, the last of which is zero. -/
def divisions : Source :=
  .apply () (.identifier "map")
    [.lambda () ["n"] [.apply () (.identifier "div") [.integer 6, .identifier "n"]],
     .apply () (.identifier "cons")
      [.integer 2, .apply () (.identifier "cons")
        [.integer 0, .apply () (.identifier "cons") []]]]

/-- Whether an evaluation has failed at a division. -/
def isDivisionByZero : Except Fault Node → Bool
  | .error (.divisionByZero _) => true
  | _ => false

/-- Two procedures are running when the division fails. -/
theorem divisions_of_deeper_limit :
    let s := (Session.start dynamicSettings ⟨[], none⟩).state
    let e := (divisions.labelled s.store.nextLabel).1
    (0 : Int) < 5 ∧ (5 : Int) ≤ 8 ∧
      isDivisionByZero (Evaluator.eval (dynamicSettings.withDepth 5) e 1 s).1 ∧
      Evaluator.eval (dynamicSettings.withDepth 8) e 1 s =
        Evaluator.eval (dynamicSettings.withDepth 5) e 1 s ∧
      Evaluator.Balances dynamicSettings := by
  intro s e
  have hfault : isDivisionByZero (Evaluator.eval (dynamicSettings.withDepth 5) e 1 s).1 := by
    rw [Evaluator.eval_eq_perform]
    decide +kernel
  have hend : (Evaluator.eval (dynamicSettings.withDepth 5) e 1 s).1 ≠ .error .recursionLimit := by
    intro hcut
    rw [hcut] at hfault
    cases hfault
  have hm : (0 : Int) < 5 := by decide
  have hle : (5 : Int) ≤ 8 := by decide
  obtain ⟨hsame, hbalances⟩ := eval_of_deeper_limit hm hle dynamicSettings e 1 s
  exact ⟨hm, hle, hfault, hsame hend, hbalances⟩

end BlockLang
