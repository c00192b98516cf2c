import BlockLang.Proofs.Calls

/-!
# Contracts

A contract says what a request may count on when it is made and what its call
brings about, whether the call succeeds or fails. A computation meets a contract
if it makes only requests that the contract admits and comes to a certain end as
long as the calls it leads to keep their side. When the computations of all
requests do so, every call within a call keeps the contract.
-/

namespace BlockLang

/-- What a request may count on in the state it meets, and what holds of its
call. -/
structure Contract (ρ ν ε σ : Type) where
  pre : ρ → σ → Prop
  post : Call ρ ν ε σ → Prop

variable {ρ ν ε σ β γ : Type} {k : Contract ρ ν ε σ}

namespace Computation

/-- After the calls `made`, a computation makes only requests that `k` admits, and
its end is as `Q` says if the calls it leads to keep `k`. -/
def Meets (k : Contract ρ ν ε σ) (Q : List (Call ρ ν ε σ) → Except ε β → σ → Prop) :
    List (Call ρ ν ε σ) → Computation ρ ν ε σ β → Prop
  | made, done outcome s => Q made outcome s
  | made, ask r s resume =>
    k.pre r s ∧ ∀ c : Call ρ ν ε σ, c.request = r → c.before = s → k.post c →
      (resume c.outcome c.after).Meets k Q (made ++ [c])

variable {P : List (Call ρ ν ε σ) → Except ε β → σ → Prop} {made : List (Call ρ ν ε σ)}

theorem Meets.mono
    {Q : List (Call ρ ν ε σ) → Except ε β → σ → Prop} {c : Computation ρ ν ε σ β}
    (hc : c.Meets k P made) (h : ∀ made outcome s, P made outcome s → Q made outcome s) :
    c.Meets k Q made := by
  induction c generalizing made with
  | done outcome s => exact h made outcome s hc
  | ask r s resume ih =>
      refine ⟨hc.1, fun d hr hs hd => ?_⟩
      exact ih _ _ (hc.2 d hr hs hd)

theorem Meets.andThen
    {Q : List (Call ρ ν ε σ) → Except ε γ → σ → Prop} {f : β → σ → Computation ρ ν ε σ γ}
    {c : Computation ρ ν ε σ β} (hc : c.Meets k P made)
    (hok : ∀ made b s, P made (.ok b) s → (f b s).Meets k Q made)
    (herror : ∀ made e s, P made (.error e) s → Q made (.error e) s) :
    (c.andThen f).Meets k Q made := by
  induction c generalizing made with
  | done outcome s =>
      cases outcome with
      | error e => exact herror made e s hc
      | ok b => exact hok made b s hc
  | ask r s resume ih =>
      refine ⟨hc.1, fun d hr hs hd => ?_⟩
      exact ih _ _ (hc.2 d hr hs hd)

theorem Meets.lastly
    {Q : List (Call ρ ν ε σ) → Except ε β → σ → Prop} {f : σ → Except ε σ}
    {c : Computation ρ ν ε σ β} (hc : c.Meets k P made)
    (h : ∀ made outcome s, P made outcome s → ∃ s', f s = .ok s' ∧ Q made outcome s') :
    (c.lastly f).Meets k Q made := by
  induction c generalizing made with
  | done outcome s =>
      obtain ⟨s', hs', hQ⟩ := h made outcome s hc
      rw [Computation.lastly, finish, hs']
      exact hQ
  | ask r s resume ih =>
      refine ⟨hc.1, fun d hr hs hd => ?_⟩
      exact ih _ _ (hc.2 d hr hs hd)

/-- Where requests are answered by calls that keep a contract, a computation that
meets it comes to its end, and all its requests were admitted. -/
theorem Meets.replay
    {oracle : ρ → σ → Call ρ ν ε σ} {c : Computation ρ ν ε σ β} (hc : c.Meets k P made)
    (hrequest : ∀ r s, (oracle r s).request = r) (hbefore : ∀ r s, (oracle r s).before = s)
    (horacle : ∀ r s, k.pre r s → k.post (oracle r s)) :
    P (made ++ (c.replay oracle).1) (c.replay oracle).2.1 (c.replay oracle).2.2 ∧
      ∀ d ∈ (c.replay oracle).1, k.pre d.request d.before := by
  induction c generalizing made with
  | done outcome s =>
      have hend : P (made ++ []) outcome s := (List.append_nil made).symm ▸ hc
      exact ⟨hend, fun d hd => absurd hd List.not_mem_nil⟩
  | ask r s resume ih =>
      have hpost := horacle r s hc.1
      obtain ⟨hend, hrest⟩ := ih _ _ (hc.2 _ (hrequest r s) (hbefore r s) hpost)
      rw [List.append_assoc] at hend
      refine ⟨hend, List.forall_mem_cons.mpr ⟨?_, hrest⟩⟩
      rw [hrequest, hbefore]
      exact hc.1

end Computation

namespace Rules

/-- The computations of all requests meet a contract, and so do the requests that
are cut off by the limit. -/
structure Honours (rules : Rules ρ ν ε σ) (k : Contract ρ ν ε σ) : Prop where
  body : ∀ r s, k.pre r s →
    (rules.body r s).Meets k (fun calls outcome s' => k.post ⟨r, s, calls, outcome, s'⟩) []
  overflow : ∀ r s, k.pre r s → k.post ⟨r, s, [], .error rules.overflow, s⟩

variable {rules : Rules ρ ν ε σ}

theorem Honours.post_call
    (h : rules.Honours k) (limit : Nat) :
    ∀ r s, k.pre r s → k.post (rules.call limit r s) := by
  induction limit with
  | zero => exact h.overflow
  | succ limit ih =>
      intro r s hr
      have hbody := (h.body r s hr).replay (rules.call_request limit) (rules.call_before limit) ih
      exact hbody.1

theorem Honours.pre_of_mem
    (h : rules.Honours k) {c d : Call ρ ν ε σ} (hc : rules.Governs c)
    (hpre : k.pre c.request c.before) (hd : d ∈ c.calls) :
    k.pre d.request d.before := by
  obtain ⟨limit, hc⟩ := hc
  rw [hc] at hd
  cases limit with
  | zero => exact absurd hd List.not_mem_nil
  | succ limit =>
      have hbody := (h.body c.request c.before hpre).replay (rules.call_request limit)
        (rules.call_before limit) (h.post_call limit)
      exact hbody.2 d hd

/-- Every call within a call that starts as the contract asks keeps the
contract. -/
theorem Honours.of_contains
    (h : rules.Honours k) {c d : Call ρ ν ε σ} (hc : rules.Governs c)
    (hpre : k.pre c.request c.before) (hd : c.Contains d) :
    rules.Governs d ∧ k.pre d.request d.before ∧ k.post d := by
  have hstart : rules.Governs d ∧ k.pre d.request d.before := by
    induction hd with
    | self => exact ⟨hc, hpre⟩
    | inner _ hmem ih => exact ⟨ih.1.of_mem hmem, h.pre_of_mem ih.1 ih.2 hmem⟩
  obtain ⟨⟨limit, hgoverned⟩, hd⟩ := hstart
  refine ⟨⟨limit, hgoverned⟩, hd, ?_⟩
  rw [hgoverned]
  exact h.post_call limit _ _ hd

end Rules

end BlockLang
