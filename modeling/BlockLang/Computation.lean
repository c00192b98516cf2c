/-!
# Bounded recursion

A computation runs over a state and may ask for further computations: it hands
out a request together with the state and goes on with the outcome. Rules say
which computation a request stands for. Requests may nest only as deep as a
limit allows; the request that would exceed it fails instead.

Requests are carried out by a machine. It keeps the waiting computations in a list, so
that deep recursion needs no stack of its own, and a counter of the depth, which goes up
with every request and down with every answer.
-/

namespace BlockLang

/-- A computation over states `σ` with result `β`. It fails with an `ε` or asks
for requests `ρ`, which are answered by a `ν`. -/
inductive Computation (ρ ν ε σ β : Type) where
  | done (outcome : Except ε β) (s : σ)
  | ask (r : ρ) (s : σ) (resume : Except ε ν → σ → Computation ρ ν ε σ β)

namespace Computation

variable {ρ ν ε σ β γ : Type}

/-- Goes on after a computation that succeeds. -/
def andThen (f : β → σ → Computation ρ ν ε σ γ) :
    Computation ρ ν ε σ β → Computation ρ ν ε σ γ
  | done (.ok b) s => f b s
  | done (.error e) s => done (.error e) s
  | ask r s resume => ask r s fun outcome s => (resume outcome s).andThen f

/-- What becomes of an outcome when a last thing is done to the state, which may fail. -/
def finish (f : σ → Except ε σ) (outcome : Except ε β) (s : σ) : Except ε β × σ :=
  match f s with
  | .ok s => (outcome, s)
  | .error e => (.error e, s)

/-- Does a last thing to the state after a computation, whatever its outcome. -/
def lastly (f : σ → Except ε σ) : Computation ρ ν ε σ β → Computation ρ ν ε σ β
  | done outcome s =>
    let (outcome, s) := finish f outcome s
    done outcome s
  | ask r s resume => ask r s fun outcome s => (resume outcome s).lastly f

end Computation

/-- Rules for carrying out requests. -/
structure Rules (ρ ν ε σ : Type) where
  body : ρ → σ → Computation ρ ν ε σ ν
  overflow : ε

variable {ρ ν ε σ : Type}

/-- A computation that is being carried out, the number of requests it is nested in, and
how the computations go on that wait for an answer, innermost first. -/
structure Running (ρ ν ε σ : Type) where
  depth : Nat
  current : Computation ρ ν ε σ ν
  waiting : List (Except ε ν → σ → Computation ρ ν ε σ ν)

namespace Running

/-- One step: an answer counts the depth down and goes to the innermost waiting
computation, and a request counts it up and makes the current computation wait. In the
end the depth is returned with the outcome. -/
def step (rules : Rules ρ ν ε σ) (limit : Nat) :
    Running ρ ν ε σ → (Nat × Except ε ν × σ) ⊕ Running ρ ν ε σ
  | ⟨depth, .done outcome s, []⟩ => .inl (depth, outcome, s)
  | ⟨depth, .done outcome s, resume :: waiting⟩ => .inr ⟨depth - 1, resume outcome s, waiting⟩
  | ⟨depth, .ask r s resume, waiting⟩ =>
    let current := if limit < depth + 1 then .done (.error rules.overflow) s else rules.body r s
    .inr ⟨depth + 1, current, resume :: waiting⟩

/-- The first state follows the second by one step. -/
def Follows (rules : Rules ρ ν ε σ) (limit : Nat) (next now : Running ρ ν ε σ) : Prop :=
  now.step rules limit = .inr next

variable {rules : Rules ρ ν ε σ} {limit : Nat}

theorem acc_of_step
    {now : Running ρ ν ε σ}
    (h : ∀ next, now.step rules limit = .inr next → Acc (Follows rules limit) next) :
    Acc (Follows rules limit) now :=
  ⟨_, h⟩

/-- A computation comes to its end if the computations that wait for it do,
whatever answer they get. -/
theorem acc_of_waiting
    (left : Nat) :
    ∀ (depth : Nat) (c : Computation ρ ν ε σ ν)
      (waiting : List (Except ε ν → σ → Computation ρ ν ε σ ν)), limit - depth = left →
      (∀ outcome s, Acc (Follows rules limit) ⟨depth, .done outcome s, waiting⟩) →
        Acc (Follows rules limit) ⟨depth, c, waiting⟩ := by
  induction left with
  | zero =>
    intro depth c waiting hleft hw
    induction c with
    | done outcome s => exact hw outcome s
    | ask r s resume ih =>
      refine acc_of_step fun next h => ?_
      rw [step, if_pos (by omega)] at h
      cases h
      refine acc_of_step fun next h => ?_
      cases h
      exact ih _ _
  | succ left hinner =>
    intro depth c waiting hleft hw
    induction c with
    | done outcome s => exact hw outcome s
    | ask r s resume ih =>
      refine acc_of_step fun next h => ?_
      rw [step, if_neg (by omega)] at h
      cases h
      refine hinner _ _ _ (by omega) fun outcome s => acc_of_step fun next h => ?_
      cases h
      exact ih _ _

/-- Every answer reaches its end. -/
theorem acc_done
    (waiting : List (Except ε ν → σ → Computation ρ ν ε σ ν)) :
    ∀ depth outcome s, Acc (Follows rules limit) ⟨depth, .done outcome s, waiting⟩ := by
  induction waiting with
  | nil =>
    intro depth outcome s
    exact acc_of_step fun next h => by cases h
  | cons resume waiting ih =>
    intro depth outcome s
    refine acc_of_step fun next h => ?_
    cases h
    exact acc_of_waiting _ _ _ _ rfl (ih _)

/-- Steps never go on forever. -/
theorem follows_wellFounded (rules : Rules ρ ν ε σ) (limit : Nat) :
    WellFounded (Follows rules limit) :=
  ⟨fun ⟨depth, c, waiting⟩ => acc_of_waiting _ depth c waiting rfl (acc_done waiting depth)⟩

/-- Carries out a computation and everything that waits for it. -/
def run (rules : Rules ρ ν ε σ) (limit : Nat) (now : Running ρ ν ε σ) : Nat × Except ε ν × σ :=
  match _h : now.step rules limit with
  | .inl result => result
  | .inr next => run rules limit next
termination_by (follows_wellFounded rules limit).wrap now
decreasing_by exact _h

theorem run_of_step
    {now next : Running ρ ν ε σ} (h : now.step rules limit = .inr next) :
    now.run rules limit = next.run rules limit := by
  rw [run]
  split
  · rename_i h'
    rw [h] at h'
    cases h'
  · rename_i h'
    rw [h] at h'
    cases h'
    rfl

theorem run_of_result
    {now : Running ρ ν ε σ} {result : Nat × Except ε ν × σ}
    (h : now.step rules limit = .inl result) :
    now.run rules limit = result := by
  rw [run]
  split
  · rename_i h'
    rw [h] at h'
    cases h'
    rfl
  · rename_i h'
    rw [h] at h'
    cases h'

end Running

/-- Carries out a request at a depth. -/
def Rules.run (rules : Rules ρ ν ε σ) (limit depth : Nat) (r : ρ) (s : σ) :
    Nat × Except ε ν × σ :=
  Running.run rules limit ⟨depth, .ask r s .done, []⟩

end BlockLang
