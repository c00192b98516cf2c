import BlockLang.Expr.Labels
import BlockLang.Expr.Lifting
import BlockLang.Procedure
import BlockLang.Proofs.Recognition

/-!
# Vocabularies

A vocabulary is a set of heads, that is of nodes without their parts. An
expression is within a vocabulary if the head of each of its nodes belongs to it.
Two vocabularies matter: everything but lists, which is what lifting leads to from
any tree, and the heads of programs, which is what comes from a source and is
found in the library.
-/

namespace BlockLang

/-- A node without its parts. -/
inductive Head where
  | integer
  | string
  | boolean
  | identifier
  | placeholder
  | absent
  | parameters
  | lambda
  | block
  | clause
  | cond
  | letIn
  | define
  | assign
  | apply
  | procedure (name : Text) (wired : Bool)
  | list
  deriving DecidableEq

namespace Expr

variable {ι : Type}

mutual

/-- Whether the heads of all nodes of an expression belong to a vocabulary. -/
def within (p : Head → Bool) : Expr ι → Bool
  | integer _ => p .integer
  | string _ => p .string
  | boolean _ => p .boolean
  | identifier _ => p .identifier
  | placeholder => p .placeholder
  | absent => p .absent
  | parameters .. => p .parameters
  | lambda _ _ body => p .lambda && withinAll p body
  | block _ es => p .block && withinAll p es
  | clause _ test result => p .clause && within p test && within p result
  | cond _ clauses => p .cond && withinClauses p clauses
  | letIn _ _ value body => p .letIn && within p value && withinAll p body
  | define _ _ value => p .define && within p value
  | assign _ _ value => p .assign && within p value
  | apply _ operator operands => p .apply && within p operator && withinAll p operands
  | procedure _ name wired => p (.procedure name wired)
  | list _ elements => p .list && withinAll p elements

/-- Whether all expressions of a list are within a vocabulary. -/
def withinAll (p : Head → Bool) : List (Expr ι) → Bool
  | [] => true
  | e :: es => within p e && withinAll p es

/-- Whether all clauses are within a vocabulary. -/
def withinClauses (p : Head → Bool) : List (Expr ι × Expr ι) → Bool
  | [] => true
  | (test, result) :: clauses => within p test && within p result && withinClauses p clauses

end

variable {p : Head → Bool}

theorem withinAll_iff
    {es : List (Expr ι)} :
    withinAll p es ↔ ∀ e ∈ es, e.within p := by
  induction es with
  | nil => simp [withinAll]
  | cons e es ih => simp [withinAll, ih]

theorem withinClauses_iff
    {cs : List (Expr ι × Expr ι)} :
    withinClauses p cs ↔ ∀ c ∈ cs, c.1.within p ∧ c.2.within p := by
  induction cs with
  | nil => simp [withinClauses]
  | cons c cs ih => simp [withinClauses, ih, and_assoc]

mutual

theorem within_of_forall (hp : ∀ h, p h) : ∀ e : Expr ι, e.within p
  | integer _ | string _ | boolean _ | identifier _ | placeholder | absent | parameters ..
  | procedure .. => hp _
  | lambda _ _ body => by simp [within, hp, withinAll_of_forall hp body]
  | block _ es => by simp [within, hp, withinAll_of_forall hp es]
  | clause _ test result => by
      simp [within, hp, within_of_forall hp test, within_of_forall hp result]
  | cond _ clauses => by simp [within, hp, withinClauses_of_forall hp clauses]
  | letIn _ _ value body => by
      simp [within, hp, within_of_forall hp value, withinAll_of_forall hp body]
  | define _ _ value | assign _ _ value => by simp [within, hp, within_of_forall hp value]
  | apply _ operator operands => by
      simp [within, hp, within_of_forall hp operator, withinAll_of_forall hp operands]
  | list _ elements => by simp [within, hp, withinAll_of_forall hp elements]

theorem withinAll_of_forall (hp : ∀ h, p h) : ∀ es : List (Expr ι), withinAll p es
  | [] => rfl
  | e :: es => by simp [withinAll, within_of_forall hp e, withinAll_of_forall hp es]

theorem withinClauses_of_forall (hp : ∀ h, p h) :
    ∀ cs : List (Expr ι × Expr ι), withinClauses p cs
  | [] => rfl
  | (test, result) :: cs => by
      simp [withinClauses, within_of_forall hp test, within_of_forall hp result,
        withinClauses_of_forall hp cs]

end

end Expr

/-! ## Lifting and labelling -/

/-- A vocabulary with the heads at which lifting stops. -/
def Head.unlifted (p : Head → Bool) (h : Head) : Bool :=
  match h with
  | .placeholder | .absent | .list => true
  | h => p h

namespace Expr

variable {ι : Type} {p : Head → Bool}

/-- Whether an expression is a let without braces. -/
def isOpenLet : Expr ι → Bool
  | letIn _ _ _ body => isOpenBody body
  | _ => false

theorem exists_of_isOpenLet
    {e : Expr ι} (h : e.isOpenLet) :
    ∃ i x value body, e = letIn i x value body ∧ isOpenBody body := by
  cases e <;> first | exact ⟨_, _, _, _, rfl, h⟩ | cases h

theorem liftBlock_cons
    {e : Expr ι} (h : e.isOpenLet = false) (es : List (Expr ι)) :
    liftBlock (e :: es) =
      match e.lift with
      | (e, some misfit) => (e :: es, some misfit)
      | (e, none) => (e :: (liftBlock es).1, (liftBlock es).2) := by
  cases e
  case letIn i x value body =>
    have hclosed : ¬isOpenBody body = true := Bool.eq_false_iff.mp h
    exact if_neg hclosed
  all_goals rfl

mutual

/-- Lifting stops at lists and placeholders or does away with them, and it adds
nothing. -/
theorem within_lift :
    ∀ e : Expr ι, e.within (Head.unlifted p) → e.lift.2 = none → e.lift.1.within p
  | integer _, h, _ | string _, h, _ | boolean _, h, _ | identifier _, h, _
  | parameters .., h, _ | procedure .., h, _ => h
  | placeholder, _, h | absent, _, h | list .., _, h => by simp [lift] at h
  | lambda i xs body, hin, h => by
      have hbody := within_liftBlock body
      simp only [within, lift, Bool.and_eq_true] at hin h ⊢
      exact ⟨hin.1, hbody hin.2 h⟩
  | block i es, hin, h => by
      have hes := within_liftBlock es
      simp only [within, lift, Bool.and_eq_true] at hin h ⊢
      exact ⟨hin.1, hes hin.2 h⟩
  | clause i test result, hin, h => by
      have htest := within_lift test
      have hresult := within_lift result
      simp only [within, lift, Bool.and_eq_true] at hin h ⊢
      rcases hlift : test.lift with ⟨test', _ | misfit⟩ <;> rw [hlift] at h htest
      · rw [within, Bool.and_eq_true, Bool.and_eq_true]
        exact ⟨⟨hin.1.1, htest hin.1.2 rfl⟩, hresult hin.2 h⟩
      · cases h
  | cond i clauses, hin, h => by
      have hclauses := within_liftClauses clauses
      simp only [within, lift, Bool.and_eq_true] at hin h ⊢
      exact ⟨hin.1, hclauses hin.2 h⟩
  | letIn i x value body, hin, h => by
      have hvalue := within_lift value
      have hbody := within_liftBlock body
      simp only [within, lift, Bool.and_eq_true] at hin h ⊢
      rcases hlift : value.lift with ⟨value', _ | misfit⟩ <;> rw [hlift] at h hvalue
      · have hletIn : p .letIn ∧ value'.within p := ⟨hin.1.1, hvalue hin.1.2 rfl⟩
        dsimp only at h ⊢
        split at h
        · rw [if_pos ‹_›]
          simp [within, withinAll, hletIn]
        · rw [if_neg ‹_›]
          simp [within, hletIn, hbody hin.2 h]
      · cases h
  | define i x value, hin, h => by
      have hvalue := within_lift value
      simp only [within, lift, Bool.and_eq_true] at hin h ⊢
      exact ⟨hin.1, hvalue hin.2 h⟩
  | assign i x value, hin, h => by
      have hvalue := within_lift value
      simp only [within, lift, Bool.and_eq_true] at hin h ⊢
      exact ⟨hin.1, hvalue hin.2 h⟩
  | apply i operator operands, hin, h => by
      have hoperator := within_lift operator
      have hoperands := within_liftAll operands
      simp only [within, lift, Bool.and_eq_true] at hin h ⊢
      rcases hlift : operator.lift with ⟨operator', _ | misfit⟩ <;> rw [hlift] at h hoperator
      · rw [within, Bool.and_eq_true, Bool.and_eq_true]
        exact ⟨⟨hin.1.1, hoperator hin.1.2 rfl⟩, hoperands hin.2 h⟩
      · cases h
termination_by structural e => e

theorem within_liftAll :
    ∀ es : List (Expr ι), withinAll (Head.unlifted p) es → (liftAll es).2 = none →
      withinAll p (liftAll es).1
  | [], _, _ => rfl
  | e :: es, hin, h => by
      have he := within_lift e
      have hes := within_liftAll es
      simp only [withinAll, liftAll, Bool.and_eq_true] at hin h ⊢
      rcases hlift : e.lift with ⟨e', _ | misfit⟩ <;> rw [hlift] at h he
      · rw [withinAll, Bool.and_eq_true]
        exact ⟨he hin.1 rfl, hes hin.2 h⟩
      · cases h
termination_by structural es => es

theorem within_liftClauses :
    ∀ cs : List (Expr ι × Expr ι), withinClauses (Head.unlifted p) cs →
      (liftClauses cs).2 = none → withinClauses p (liftClauses cs).1
  | [], _, _ => rfl
  | (test, result) :: cs, hin, h => by
      have htest := within_lift test
      have hresult := within_lift result
      have hcs := within_liftClauses cs
      simp only [withinClauses, liftClauses, Bool.and_eq_true] at hin h ⊢
      rcases hlift : test.lift with ⟨test', _ | misfit⟩ <;> rw [hlift] at h htest
      · rcases hlift' : result.lift with ⟨result', _ | misfit⟩ <;> rw [hlift'] at h hresult
        · rw [withinClauses, Bool.and_eq_true, Bool.and_eq_true]
          exact ⟨⟨htest hin.1.1 rfl, hresult hin.1.2 rfl⟩, hcs hin.2 h⟩
        · cases h
      · cases h
termination_by structural cs => cs

theorem within_liftBlock :
    ∀ es : List (Expr ι), withinAll (Head.unlifted p) es → (liftBlock es).2 = none →
      withinAll p (liftBlock es).1
  | [], _, _ => rfl
  | e :: es, hin, h => by
      have he := within_lift e
      have hes := within_liftBlock es
      simp only [withinAll, Bool.and_eq_true] at hin
      cases hopen : e.isOpenLet with
      | true =>
          obtain ⟨i, x, value, body, rfl, hbody⟩ := exists_of_isOpenLet hopen
          rw [liftBlock, if_pos hbody] at h ⊢
          rcases hlift : value.lift with ⟨value', _ | misfit⟩ <;> rw [hlift] at h
          · have hlet : (letIn i x value body).lift = (letIn i x value' [], none) := by
              rw [lift, hlift]
              exact if_pos hbody
            rw [hlet] at he
            have hletIn : p .letIn ∧ value'.within p := by
              simpa [within, withinAll] using he hin.1 rfl
            dsimp only at h ⊢
            split at h
            · rw [if_pos ‹_›]
              simp [within, withinAll, hletIn]
            · rw [if_neg ‹_›]
              simp [within, withinAll, hletIn, hes hin.2 h]
          · cases h
      | false =>
          rw [liftBlock_cons hopen] at h ⊢
          rcases hlift : e.lift with ⟨e', _ | misfit⟩ <;> rw [hlift] at h he
          · rw [withinAll, Bool.and_eq_true]
            exact ⟨he hin.1 rfl, hes hin.2 h⟩
          · cases h
termination_by structural es => es

end

mutual

theorem within_labelled :
    ∀ (e : Expr ι) (next : Label), (e.labelled next).1.within p = e.within p
  | integer _, _ | string _, _ | boolean _, _ | identifier _, _ | placeholder, _ | absent, _
  | parameters .., _ | procedure .., _ => by simp [labelled, within]
  | lambda _ _ body, _ => by simp [labelled, within, within_labelledAll body]
  | block _ es, _ => by simp [labelled, within, within_labelledAll es]
  | clause _ test result, _ => by
      simp [labelled, within, within_labelled test, within_labelled result]
  | cond _ clauses, _ => by simp [labelled, within, within_labelledClauses clauses]
  | letIn _ _ value body, _ => by
      simp [labelled, within, within_labelled value, within_labelledAll body]
  | define _ _ value, _ | assign _ _ value, _ => by
      simp [labelled, within, within_labelled value]
  | apply _ operator operands, _ => by
      simp [labelled, within, within_labelled operator, within_labelledAll operands]
  | list _ elements, _ => by simp [labelled, within, within_labelledAll elements]
termination_by structural e => e

theorem within_labelledAll :
    ∀ (es : List (Expr ι)) (next : Label), withinAll p (labelledAll next es).1 = withinAll p es
  | [], _ => rfl
  | e :: es, _ => by
      simp [labelledAll, withinAll, within_labelled e, within_labelledAll es]
termination_by structural es => es

theorem within_labelledClauses :
    ∀ (cs : List (Expr ι × Expr ι)) (next : Label),
      withinClauses p (labelledClauses next cs).1 = withinClauses p cs
  | [], _ => rfl
  | (test, result) :: cs, _ => by
      simp [labelledClauses, withinClauses, within_labelled test, within_labelled result,
        within_labelledClauses cs]
termination_by structural cs => cs

end

end Expr

/-- Everything but lists, which only procedures make. -/
def Head.notList (h : Head) : Bool :=
  h != .list

theorem within_notList_of_lift
    {ι : Type} {e e' : Expr ι} (h : e.lift = (e', none)) :
    e'.within Head.notList := by
  have hall : ∀ head, Head.unlifted Head.notList head := by
    intro head
    cases head <;> rfl
  have hlifted := Expr.within_lift e (Expr.within_of_forall hall e)
  rw [h] at hlifted
  exact hlifted rfl

/-! ## Programs -/

/-- The heads of what a program is written with and of the procedures in the
library. -/
def Head.ofProgram : Head → Bool
  | .placeholder | .absent | .clause | .list => false
  | .procedure name wired => wired && (Procedure.ofName? name).isSome
  | _ => true

namespace Grammar

mutual

theorem Phrase.within_value {b : Bool} :
    ∀ d : Phrase b, d.value.within (Head.unlifted Head.ofProgram)
  | .simple d => d.within_value
  | .define _ value => value.within_value
  | .assign _ value => value.within_value
  | .bareLet _ value => by
      have hvalue := value.within_value
      simp [Phrase.value, Expr.within, Expr.withinAll, hvalue, Head.unlifted, Head.ofProgram]
  | .cond first rest => by
      have hfirst := first.within_value
      have hrest := rest.within_values
      simp [Phrase.value, Expr.within, Expr.withinClauses, hfirst, hrest, Head.unlifted,
        Head.ofProgram]

theorem Postfix.within_value :
    ∀ d : Postfix, d.value.within (Head.unlifted Head.ofProgram)
  | .mk head calls => calls.within_value head.within_value

theorem Primary.within_value :
    ∀ d : Primary, d.value.within (Head.unlifted Head.ofProgram)
  | .name _ | .integer _ | .string _ | .parameters _ => rfl
  | .block es => es.within_values
  | .lambda _ _ body => body.within_values
  | .letIn _ value body => by
      have hvalue := value.within_value
      have hbody := body.within_values
      simp [Primary.value, Expr.within, hvalue, hbody, Head.unlifted, Head.ofProgram]

theorem Clause.within_value :
    ∀ d : Clause, d.value.1.within (Head.unlifted Head.ofProgram) ∧
      d.value.2.within (Head.unlifted Head.ofProgram)
  | .mk test result => ⟨test.within_value, result.within_value⟩

theorem Clauses.within_values :
    ∀ d : Clauses, Expr.withinClauses (Head.unlifted Head.ofProgram) d.values
  | .nil => rfl
  | .cons clause rest => by
      have hclause := clause.within_value
      have hrest := rest.within_values
      simp [Clauses.values, Expr.withinClauses, hclause, hrest]

theorem Phrases.within_values :
    ∀ d : Phrases, Expr.withinAll (Head.unlifted Head.ofProgram) d.values
  | .nil => rfl
  | .cons e es => by
      have he := e.within_value
      have hes := es.within_values
      simp [Phrases.values, Expr.withinAll, he, hes]

theorem Calls.within_value {operator : Source}
    (hoperator : operator.within (Head.unlifted Head.ofProgram)) :
    ∀ d : Calls, (d.value operator).within (Head.unlifted Head.ofProgram)
  | .nil => hoperator
  | .cons operands rest => by
      have hoperands := operands.within_values
      refine rest.within_value ?_
      simp [Expr.within, hoperator, hoperands, Head.unlifted, Head.ofProgram]

end

end Grammar

theorem exists_of_compile
    {source : Text} {e : Source} (h : compile source = .ok e) :
    ∃ e₀, parse (scan source) = .ok e₀ ∧ e₀.lift = (e, none) := by
  unfold compile at h
  split at h
  · cases h
  · rename_i e₀ hparse
    split at h
    · rename_i hlift
      cases h
      exact ⟨e₀, hparse, hlift⟩
    · cases h

theorem within_of_compile
    {source : Text} {e : Source} (h : compile source = .ok e) :
    e.within Head.ofProgram := by
  obtain ⟨_, hparse, hlift⟩ := exists_of_compile h
  obtain ⟨d, -, rfl⟩ := parse_eq_ok_iff_exists.mp hparse
  have hin := Expr.within_lift d.value (Grammar.Phrase.within_value d.2)
  rw [hlift] at hin
  exact hin rfl

end BlockLang
