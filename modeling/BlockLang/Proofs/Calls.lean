import Mathlib.Logic.Relation
import BlockLang.Computation

/-!
# Calls

Carrying out a request leads to further requests, and those lead to more. The machine
that does so has one counter for the depth and a list of all that waits. `Rules.perform`
recurses on the levels that are left instead, which is the form to reason about, and
`Rules.run_eq_perform` says that they agree and that the counter comes back to where it
was. A call keeps what happened to one request: the state it met, the calls it led to,
its outcome and the state it left. `Rules.call` is `Rules.perform` with this account
kept, so a statement about every request of a run is a statement about the calls
within one call.
-/

namespace BlockLang

/-! ## Requests answered by recursion -/

section Recursion

variable {ρ ν ε σ β : Type}

/-- The outcome of a computation whose requests are answered by `oracle`. -/
def Computation.answer (oracle : ρ → σ → Except ε ν × σ) :
    Computation ρ ν ε σ β → Except ε β × σ
  | done outcome s => (outcome, s)
  | ask r s resume =>
    let (outcome, s) := oracle r s
    (resume outcome s).answer oracle

/-- The outcome of a request when requests may nest `left` levels deep. -/
def Rules.perform (rules : Rules ρ ν ε σ) : Nat → ρ → σ → Except ε ν × σ
  | 0, _, s => (.error rules.overflow, s)
  | left + 1, r, s => (rules.body r s).answer (rules.perform left)

variable {rules : Rules ρ ν ε σ} {limit : Nat}

namespace Running

variable {depth : Nat} {r : ρ} {s : σ} {resume : Except ε ν → σ → Computation ρ ν ε σ ν}
  {waiting : List (Except ε ν → σ → Computation ρ ν ε σ ν)}

theorem step_ask_of_overflow (h : limit ≤ depth) :
    step rules limit ⟨depth, .ask r s resume, waiting⟩ =
      .inr ⟨depth + 1, .done (.error rules.overflow) s, resume :: waiting⟩ := by
  rw [step, if_pos (Nat.lt_succ_of_le h)]

theorem step_ask_of_lt (h : depth < limit) :
    step rules limit ⟨depth, .ask r s resume, waiting⟩ =
      .inr ⟨depth + 1, rules.body r s, resume :: waiting⟩ := by
  rw [step, if_neg (Nat.not_lt_of_le h)]

/-- Steps lead from one moment of a run to a later one. -/
def Leads (rules : Rules ρ ν ε σ) (limit : Nat) : Running ρ ν ε σ → Running ρ ν ε σ → Prop :=
  Relation.ReflTransGen fun now next => Follows rules limit next now

/-- A computation comes to its answer, and meanwhile everything that waits for it stays
where it is. Then the depth is what it was. -/
theorem leads_answer
    (left : Nat) :
    ∀ (depth : Nat) (c : Computation ρ ν ε σ ν)
      (waiting : List (Except ε ν → σ → Computation ρ ν ε σ ν)), limit - depth = left →
      Leads rules limit ⟨depth, c, waiting⟩
        ⟨depth, .done (c.answer (rules.perform left)).1 (c.answer (rules.perform left)).2,
          waiting⟩ := by
  induction left with
  | zero =>
      intro depth c waiting hleft
      induction c with
      | done outcome s => exact .refl
      | ask r s resume ih =>
          have hcut : limit ≤ depth := by omega
          have hanswered : Leads rules limit
              ⟨depth + 1, .done (.error rules.overflow) s, resume :: waiting⟩ _ :=
            .head rfl (ih _ _)
          exact .head (step_ask_of_overflow hcut) hanswered
  | succ left hinner =>
      intro depth c waiting hleft
      induction c with
      | done outcome s => exact .refl
      | ask r s resume ih =>
          have hlevel : depth < limit := by omega
          have hbody := hinner (depth + 1) (rules.body r s) (resume :: waiting) (by omega)
          exact .head (step_ask_of_lt hlevel) (hbody.trans (.head rfl (ih _ _)))

theorem Leads.run_eq
    {now later : Running ρ ν ε σ} (h : now.Leads rules limit later) :
    now.run rules limit = later.run rules limit := by
  induction h with
  | refl => rfl
  | tail _ hstep ih => exact ih.trans (run_of_step hstep)

/-- Carrying out a computation is answering its requests by recursion. In the end the
depth is what it was. -/
theorem run_eq_answer
    (depth : Nat) (c : Computation ρ ν ε σ ν) :
    run rules limit ⟨depth, c, []⟩ = (depth, c.answer (rules.perform (limit - depth))) := by
  rw [(leads_answer _ depth c [] rfl).run_eq, run_of_result rfl]

end Running

theorem Rules.run_eq_perform
    (rules : Rules ρ ν ε σ) (limit depth : Nat) (r : ρ) (s : σ) :
    rules.run limit depth r s = (depth, rules.perform (limit - depth) r s) :=
  Running.run_eq_answer depth _

end Recursion

/-! ## Calls within calls -/

/-- A request that has been carried out. -/
structure Call (ρ ν ε σ : Type) where
  request : ρ
  before : σ
  calls : List (Call ρ ν ε σ)
  outcome : Except ε ν
  after : σ

variable {ρ ν ε σ β γ : Type}

namespace Call

/-- The second call is the first one, or was made on behalf of it. -/
inductive Contains (root : Call ρ ν ε σ) : Call ρ ν ε σ → Prop where
  | self : Contains root root
  | inner {c d : Call ρ ν ε σ} (hc : Contains root c) (hd : d ∈ c.calls) : Contains root d

theorem Contains.trans
    {root c d : Call ρ ν ε σ} (hc : root.Contains c) (hd : c.Contains d) :
    root.Contains d := by
  induction hd with
  | self => exact hc
  | inner _ hmem ih => exact ih.inner hmem

theorem Contains.eq_or_exists
    {root d : Call ρ ν ε σ} (hd : root.Contains d) :
    d = root ∨ ∃ c ∈ root.calls, c.Contains d := by
  induction hd with
  | self => exact .inl rfl
  | inner _ hmem ih =>
      rcases ih with rfl | ⟨c, hc, hcontains⟩
      · exact .inr ⟨_, hmem, .self⟩
      · exact .inr ⟨c, hc, hcontains.inner hmem⟩

/-- What holds of a call when it holds of the calls it made holds of every
call. -/
theorem induction
    {P : Call ρ ν ε σ → Prop}
    (step : ∀ c : Call ρ ν ε σ, (∀ d ∈ c.calls, P d) → P c) :
    ∀ c, P c
  | ⟨r, s, calls, outcome, s'⟩ => step _ (all calls)
where
  all : ∀ calls : List (Call ρ ν ε σ), ∀ d ∈ calls, P d
    | [], _, hd => absurd hd List.not_mem_nil
    | c :: calls, d, hd => by
        have hc : P c := induction step c
        rcases List.mem_cons.mp hd with heq | hd
        · exact heq ▸ hc
        · exact all calls d hd

mutual

/-- Whether a call, or one made on behalf of it, is as `p` says. -/
def any (p : Call ρ ν ε σ → Bool) : Call ρ ν ε σ → Bool
  | ⟨r, s, calls, outcome, s'⟩ => p ⟨r, s, calls, outcome, s'⟩ || anyOf p calls

/-- Whether one of several calls, or one made on behalf of them, is as `p` says. -/
def anyOf (p : Call ρ ν ε σ → Bool) : List (Call ρ ν ε σ) → Bool
  | [] => false
  | c :: cs => any p c || anyOf p cs

end

theorem any_eq
    (p : Call ρ ν ε σ → Bool) (c : Call ρ ν ε σ) :
    c.any p = (p c || anyOf p c.calls) := by
  cases c
  rfl

theorem exists_of_anyOf
    {p : Call ρ ν ε σ → Bool} {cs : List (Call ρ ν ε σ)} (h : anyOf p cs = true) :
    ∃ c ∈ cs, c.any p = true := by
  induction cs with
  | nil => cases h
  | cons c cs ih =>
      rw [anyOf, Bool.or_eq_true] at h
      rcases h with hc | hcs
      · exact ⟨c, List.mem_cons_self, hc⟩
      · obtain ⟨d, hd, hany⟩ := ih hcs
        exact ⟨d, List.mem_cons_of_mem c hd, hany⟩

theorem exists_of_any
    {p : Call ρ ν ε σ → Bool} (c : Call ρ ν ε σ) (h : c.any p = true) :
    ∃ d, c.Contains d ∧ p d = true := by
  induction c using Call.induction with
  | step c ih =>
      rw [any_eq, Bool.or_eq_true] at h
      rcases h with hp | hcalls
      · exact ⟨c, .self, hp⟩
      · obtain ⟨d, hd, hany⟩ := exists_of_anyOf hcalls
        obtain ⟨e, he, hp⟩ := ih d hd hany
        exact ⟨e, Contains.trans (.inner .self hd) he, hp⟩

end Call

/-! ## The calls of a computation -/

namespace Computation

/-- The calls that a computation makes when `oracle` carries out its requests,
with its outcome and the state it leaves. -/
def replay (oracle : ρ → σ → Call ρ ν ε σ) :
    Computation ρ ν ε σ β → List (Call ρ ν ε σ) × Except ε β × σ
  | done outcome s => ([], outcome, s)
  | ask r s resume =>
    let c := oracle r s
    let (calls, result) := (resume c.outcome c.after).replay oracle
    (c :: calls, result)

theorem replay_snd
    {oracle : ρ → σ → Call ρ ν ε σ} {answers : ρ → σ → Except ε ν × σ}
    (h : ∀ r s, ((oracle r s).outcome, (oracle r s).after) = answers r s)
    (c : Computation ρ ν ε σ β) :
    (c.replay oracle).2 = c.answer answers := by
  induction c with
  | done outcome s => rfl
  | ask r s resume ih =>
      have hask : ((ask r s resume).replay oracle).2 =
          ((resume (oracle r s).outcome (oracle r s).after).replay oracle).2 := rfl
      rw [hask, ih, answer, ← h]

theorem exists_of_mem_replay
    {oracle : ρ → σ → Call ρ ν ε σ} {d : Call ρ ν ε σ}
    (c : Computation ρ ν ε σ β) (hd : d ∈ (c.replay oracle).1) :
    ∃ r s, d = oracle r s := by
  induction c with
  | done outcome s => exact absurd hd List.not_mem_nil
  | ask r s resume ih =>
      rcases List.mem_cons.mp hd with rfl | hd
      · exact ⟨r, s, rfl⟩
      · exact ih _ _ hd

/-- The calls of two computations in a row: the second one makes none if the first
one fails. -/
theorem replay_andThen
    {oracle : ρ → σ → Call ρ ν ε σ} {f : β → σ → Computation ρ ν ε σ γ}
    (c : Computation ρ ν ε σ β) :
    (∃ e, (c.replay oracle).2.1 = .error e ∧
        (c.andThen f).replay oracle = ((c.replay oracle).1, .error e, (c.replay oracle).2.2)) ∨
      ∃ b, (c.replay oracle).2.1 = .ok b ∧
        (c.andThen f).replay oracle =
          ((c.replay oracle).1 ++ ((f b (c.replay oracle).2.2).replay oracle).1,
            ((f b (c.replay oracle).2.2).replay oracle).2) := by
  induction c with
  | done outcome s =>
      rcases outcome with e | b
      · exact .inl ⟨e, rfl, rfl⟩
      · exact .inr ⟨b, rfl, rfl⟩
  | ask r s resume ih =>
      let first := oracle r s
      rcases ih first.outcome first.after with ⟨e, he, hrest⟩ | ⟨b, hb, hrest⟩
      · exact .inl ⟨e, he, congrArg (fun p => (first :: p.1, p.2)) hrest⟩
      · exact .inr ⟨b, hb, congrArg (fun p => (first :: p.1, p.2)) hrest⟩

theorem replay_lastly
    {oracle : ρ → σ → Call ρ ν ε σ} {f : σ → Except ε σ} (c : Computation ρ ν ε σ β) :
    (c.lastly f).replay oracle =
      ((c.replay oracle).1, finish f (c.replay oracle).2.1 (c.replay oracle).2.2) := by
  induction c with
  | done outcome s => rfl
  | ask r s resume ih =>
      let first := oracle r s
      exact congrArg (fun p => (first :: p.1, p.2)) (ih first.outcome first.after)

/-- A computation makes these calls and succeeds. -/
def Makes (oracle : ρ → σ → Call ρ ν ε σ) (c : Computation ρ ν ε σ β)
    (calls : List (Call ρ ν ε σ)) (b : β) (s : σ) : Prop :=
  c.replay oracle = (calls, .ok b, s)

variable {oracle : ρ → σ → Call ρ ν ε σ} {calls : List (Call ρ ν ε σ)} {b : β} {s : σ}

theorem makes_done_ok {b' : β} {s' : σ} :
    (done (.ok b') s' : Computation ρ ν ε σ β).Makes oracle calls b s ↔
      calls = [] ∧ b' = b ∧ s' = s := by
  simp [Makes, replay, eq_comm]

theorem not_makes_done_error {e : ε} {s' : σ} :
    ¬(done (.error e) s' : Computation ρ ν ε σ β).Makes oracle calls b s := by
  simp [Makes, replay]

/-- The calls made after the first answer are made by the rest of the
computation. -/
theorem makes_ask {r : ρ} {s' : σ} {resume : Except ε ν → σ → Computation ρ ν ε σ β} :
    (ask r s' resume).Makes oracle calls b s ↔
      ∃ rest, calls = oracle r s' :: rest ∧
        (resume (oracle r s').outcome (oracle r s').after).Makes oracle rest b s := by
  constructor
  · intro h
    refine ⟨((resume (oracle r s').outcome (oracle r s').after).replay oracle).1, ?_, ?_⟩
    · exact (congrArg Prod.fst h).symm
    · have hresult : ((ask r s' resume).replay oracle).2 = (.ok b, s) := congrArg Prod.snd h
      exact Prod.ext rfl hresult
  · rintro ⟨rest, rfl, h⟩
    have hrest := congrArg (fun p => (oracle r s' :: p.1, p.2)) h
    exact hrest

theorem makes_andThen
    {f : β → σ → Computation ρ ν ε σ γ} {b : γ} (c : Computation ρ ν ε σ β) :
    (c.andThen f).Makes oracle calls b s ↔
      ∃ first b' s' rest, c.Makes oracle first b' s' ∧ (f b' s').Makes oracle rest b s ∧
        calls = first ++ rest := by
  induction c generalizing calls with
  | done outcome s₀ =>
      rcases outcome with e | b₀
      · constructor
        · intro h
          exact (not_makes_done_error h).elim
        · rintro ⟨_, _, _, _, h, -⟩
          exact (not_makes_done_error h).elim
      · simp only [makes_done_ok]
        constructor
        · intro h
          exact ⟨[], b₀, s₀, calls, ⟨rfl, rfl, rfl⟩, h, rfl⟩
        · rintro ⟨_, _, _, _, ⟨rfl, rfl, rfl⟩, h, rfl⟩
          exact h
  | ask r s₀ resume ih =>
      constructor
      · intro h
        obtain ⟨later, rfl, hlater⟩ := makes_ask.mp h
        obtain ⟨first, b', s', rest, hfirst, hrest, rfl⟩ := (ih _ _).mp hlater
        exact ⟨_, b', s', rest, makes_ask.mpr ⟨first, rfl, hfirst⟩, hrest, rfl⟩
      · rintro ⟨_, b', s', rest, h, hrest, rfl⟩
        obtain ⟨first, rfl, hfirst⟩ := makes_ask.mp h
        exact makes_ask.mpr ⟨first ++ rest, rfl, (ih _ _).mpr ⟨_, _, _, _, hfirst, hrest, rfl⟩⟩

theorem finish_eq_ok_iff
    {f : σ → Except ε σ} {outcome : Except ε β} {s' : σ} :
    finish f outcome s' = (.ok b, s) ↔ outcome = .ok b ∧ f s' = .ok s := by
  unfold finish
  cases hf : f s' with
  | error e => simp
  | ok s'' => simp

theorem makes_lastly
    {f : σ → Except ε σ} (c : Computation ρ ν ε σ β) :
    (c.lastly f).Makes oracle calls b s ↔ ∃ s', c.Makes oracle calls b s' ∧ f s' = .ok s := by
  unfold Makes
  rw [replay_lastly]
  rcases c.replay oracle with ⟨made, outcome, s'⟩
  simp only [Prod.mk.injEq, finish_eq_ok_iff]
  constructor
  · rintro ⟨rfl, rfl, hs⟩
    exact ⟨s', ⟨rfl, rfl, rfl⟩, hs⟩
  · rintro ⟨_, ⟨rfl, rfl, rfl⟩, hs⟩
    exact ⟨rfl, rfl, hs⟩

end Computation

/-! ## The calls of a request -/

namespace Rules

/-- A request carried out when requests may nest `limit` deep. -/
def call (rules : Rules ρ ν ε σ) : Nat → ρ → σ → Call ρ ν ε σ
  | 0, r, s => ⟨r, s, [], .error rules.overflow, s⟩
  | limit + 1, r, s =>
    let (calls, outcome, after) := (rules.body r s).replay (rules.call limit)
    ⟨r, s, calls, outcome, after⟩

theorem call_request
    (rules : Rules ρ ν ε σ) (limit : Nat) (r : ρ) (s : σ) :
    (rules.call limit r s).request = r := by
  cases limit <;> rfl

theorem call_before
    (rules : Rules ρ ν ε σ) (limit : Nat) (r : ρ) (s : σ) :
    (rules.call limit r s).before = s := by
  cases limit <;> rfl

theorem call_eq_perform
    (rules : Rules ρ ν ε σ) (limit : Nat) :
    ∀ r s, ((rules.call limit r s).outcome, (rules.call limit r s).after) =
      rules.perform limit r s := by
  induction limit with
  | zero =>
      intro r s
      rfl
  | succ limit ih =>
      intro r s
      exact Computation.replay_snd ih (rules.body r s)

/-- A call that the rules account for. -/
def Governs (rules : Rules ρ ν ε σ) (c : Call ρ ν ε σ) : Prop :=
  ∃ limit, c = rules.call limit c.request c.before

theorem governs_call
    (rules : Rules ρ ν ε σ) (limit : Nat) (r : ρ) (s : σ) :
    rules.Governs (rules.call limit r s) :=
  ⟨limit, by rw [call_request, call_before]⟩

theorem Governs.of_mem
    {rules : Rules ρ ν ε σ} {c d : Call ρ ν ε σ}
    (hc : rules.Governs c) (hd : d ∈ c.calls) :
    rules.Governs d := by
  obtain ⟨limit, hc⟩ := hc
  rw [hc] at hd
  cases limit with
  | zero => exact absurd hd List.not_mem_nil
  | succ limit =>
      obtain ⟨r, s, rfl⟩ := Computation.exists_of_mem_replay _ hd
      exact governs_call rules limit r s

/-- A call is cut off by the limit, or makes the calls of the computation that its
request stands for. -/
theorem Governs.replay
    {rules : Rules ρ ν ε σ} {c : Call ρ ν ε σ} (hc : rules.Governs c) :
    (c.calls = [] ∧ c.outcome = .error rules.overflow ∧ c.after = c.before) ∨
      ∃ limit, (rules.body c.request c.before).replay (rules.call limit) =
        (c.calls, c.outcome, c.after) := by
  obtain ⟨limit, hc⟩ := hc
  cases limit with
  | zero =>
      exact .inl ⟨congrArg Call.calls hc, congrArg Call.outcome hc, congrArg Call.after hc⟩
  | succ limit =>
      refine .inr ⟨limit, ?_⟩
      have hcalls := congrArg Call.calls hc
      have houtcome := congrArg Call.outcome hc
      have hafter := congrArg Call.after hc
      exact (Prod.ext hcalls (Prod.ext houtcome hafter)).symm

/-- A call that succeeds makes the calls of the computation that its request
stands for. -/
theorem Governs.makes
    {rules : Rules ρ ν ε σ} {c : Call ρ ν ε σ} {v : ν}
    (hc : rules.Governs c) (hv : c.outcome = .ok v) :
    ∃ limit, (rules.body c.request c.before).Makes (rules.call limit) c.calls v c.after := by
  obtain ⟨limit, hc⟩ := hc
  cases limit with
  | zero =>
      rw [hc] at hv
      exact absurd hv (by simp [call])
  | succ limit =>
      refine ⟨limit, ?_⟩
      have hcalls : c.calls = ((rules.body c.request c.before).replay (rules.call limit)).1 :=
        congrArg Call.calls hc
      have hafter : c.after = ((rules.body c.request c.before).replay (rules.call limit)).2.2 :=
        congrArg Call.after hc
      have houtcome :
          .ok v = ((rules.body c.request c.before).replay (rules.call limit)).2.1 :=
        hv.symm.trans (congrArg Call.outcome hc)
      rw [Computation.Makes, hcalls, hafter, houtcome]

end Rules

end BlockLang
