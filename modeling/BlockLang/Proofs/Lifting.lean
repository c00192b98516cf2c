import Mathlib.Data.List.TakeWhile
import BlockLang.Proofs.Evaluation.Vocabulary

/-!
# Lifting as a rewrite of blocks

Lifting walks through a tree and stops where something cannot be part of a
program. `lifted` says what it should come to, without a walk: the statements of a
block after the first let without braces become the body of this let, such a let
anywhere else gets an empty body, and every other node is rebuilt from its parts.
For every tree that was read the two agree. What comes out has neither placeholders
nor lets without braces, it has the leaves of the tree that went in, and lifting it
again changes nothing.
-/

namespace BlockLang

namespace Expr

variable {ι : Type}

/-! ## What lifting comes to -/

theorem sizeOf_dropWhile_le
    (p : Expr ι → Bool) (es : List (Expr ι)) :
    sizeOf (es.dropWhile p) ≤ sizeOf es := by
  induction es with
  | nil => exact Nat.le_refl _
  | cons e es ih =>
      rw [List.dropWhile_cons]
      split
      · exact Nat.le_trans ih (by simp)
      · exact Nat.le_refl _

theorem sizeOf_clause_lt
    {c : Expr ι × Expr ι} {cs : List (Expr ι × Expr ι)} (h : c ∈ cs) :
    sizeOf c.1 + sizeOf c.2 < sizeOf cs := by
  have hlt := List.sizeOf_lt_of_mem h
  obtain ⟨test, result⟩ := c
  rw [Prod.mk.sizeOf_spec] at hlt
  dsimp only
  omega

mutual

/-- The lifting of an expression, by its parts. A let without braces that stands
alone scopes over nothing. -/
def lifted : Expr ι → Expr ι
  | lambda i xs body => lambda i xs (liftedBlock body)
  | block i es => block i (liftedBlock es)
  | clause i test result => clause i (lifted test) (lifted result)
  | cond i clauses => cond i (clauses.map fun c => (lifted c.1, lifted c.2))
  | letIn i x value body =>
    letIn i x (lifted value) (if isOpenBody body then [] else liftedBlock body)
  | define i x value => define i x (lifted value)
  | assign i x value => assign i x (lifted value)
  | apply i operator operands => apply i (lifted operator) (operands.map lifted)
  | e => e
termination_by e => sizeOf e
decreasing_by
  all_goals simp_wf
  all_goals (try omega)
  · have hclause := sizeOf_clause_lt ‹_ ∈ clauses›
    omega
  · have hclause := sizeOf_clause_lt ‹_ ∈ clauses›
    omega
  · have hoperand := List.sizeOf_lt_of_mem ‹_ ∈ operands›
    omega

/-- The lifting of the statements of a block. The statements after the first let
without braces become its body. -/
def liftedBlock (es : List (Expr ι)) : List (Expr ι) :=
  match _h : es.dropWhile (!·.isOpenLet) with
  | letIn i x value _ :: rest =>
    (es.takeWhile (!·.isOpenLet)).attach.map (fun e => lifted e.1) ++
      [letIn i x (lifted value) (liftedBlock rest)]
  | _ => es.map lifted
termination_by sizeOf es
decreasing_by
  · exact List.sizeOf_lt_of_mem ((List.takeWhile_sublist _).subset e.2)
  · have hle := sizeOf_dropWhile_le (!·.isOpenLet) es
    simp only [_h, List.cons.sizeOf_spec, letIn.sizeOf_spec] at hle
    omega
  · have hle := sizeOf_dropWhile_le (!·.isOpenLet) es
    simp only [_h, List.cons.sizeOf_spec] at hle
    omega
  · exact List.sizeOf_lt_of_mem ‹_›

end

theorem liftedBlock_eq_map
    {es : List (Expr ι)} (h : ∀ e ∈ es, e.isOpenLet = false) :
    liftedBlock es = es.map lifted := by
  have hdrop : es.dropWhile (!·.isOpenLet) = [] := by
    rw [List.dropWhile_eq_nil_iff]
    simpa using h
  rw [liftedBlock]
  split
  · rename_i h'
    rw [hdrop] at h'
    cases h'
  · rfl

theorem liftedBlock_append
    {front : List (Expr ι)} (h : ∀ e ∈ front, e.isOpenLet = false) (i : ι) (x : Text)
    (value : Expr ι) (rest : List (Expr ι)) :
    liftedBlock (front ++ letIn i x value [placeholder] :: rest) =
      front.map lifted ++ [letIn i x value.lifted (liftedBlock rest)] := by
  have hfront : ∀ e ∈ front, (!e.isOpenLet) = true := by simpa using h
  have hdrop : (front ++ letIn i x value [placeholder] :: rest).dropWhile (!·.isOpenLet) =
      letIn i x value [placeholder] :: rest := by
    rw [List.dropWhile_append_of_pos hfront]
    rfl
  have htake : (front ++ letIn i x value [placeholder] :: rest).takeWhile (!·.isOpenLet) =
      front := by
    rw [List.takeWhile_append_of_pos hfront]
    exact List.append_nil front
  rw [liftedBlock]
  split
  · rename_i h'
    rw [hdrop] at h'
    cases h'
    rw [htake]
    simp
  · rename_i h'
    exact absurd hdrop (h' _ _ _ _ _)

theorem isOpenBody_iff
    {body : List (Expr ι)} :
    isOpenBody body ↔ body = [placeholder] := by
  unfold isOpenBody
  split
  · simp
  · rename_i h
    simpa using h

/-- Statements without a let that is open, or the first such let with the
statements on either side. -/
theorem forall_closed_or_exists
    (es : List (Expr ι)) :
    (∀ e ∈ es, e.isOpenLet = false) ∨
      ∃ front i x value rest, es = front ++ letIn i x value [placeholder] :: rest ∧
        ∀ e ∈ front, e.isOpenLet = false := by
  induction es with
  | nil => exact .inl (by simp)
  | cons e es ih =>
      cases hopen : e.isOpenLet with
      | true =>
          obtain ⟨i, x, value, body, rfl, hbody⟩ := exists_of_isOpenLet hopen
          cases isOpenBody_iff.mp hbody
          exact .inr ⟨[], i, x, value, es, rfl, by simp⟩
      | false =>
          rcases ih with hes | ⟨front, i, x, value, rest, rfl, hfront⟩
          · exact .inl (List.forall_mem_cons.mpr ⟨hopen, hes⟩)
          · exact .inr ⟨e :: front, i, x, value, rest, rfl,
              List.forall_mem_cons.mpr ⟨hopen, hfront⟩⟩

theorem liftedBlock_cons
    {e : Expr ι} (h : e.isOpenLet = false) (es : List (Expr ι)) :
    liftedBlock (e :: es) = e.lifted :: liftedBlock es := by
  rcases forall_closed_or_exists es with hes | ⟨front, i, x, value, rest, rfl, hfront⟩
  · rw [liftedBlock_eq_map hes, liftedBlock_eq_map (List.forall_mem_cons.mpr ⟨h, hes⟩)]
    rfl
  · have hcons : ∀ s ∈ e :: front, s.isOpenLet = false := List.forall_mem_cons.mpr ⟨h, hfront⟩
    rw [liftedBlock_append hfront, ← List.cons_append, liftedBlock_append hcons]
    rfl

theorem liftedBlock_openLet
    (i : ι) (x : Text) (value : Expr ι) (rest : List (Expr ι)) :
    liftedBlock (letIn i x value [placeholder] :: rest) =
      [letIn i x value.lifted (liftedBlock rest)] := by
  have hfront : ∀ e ∈ ([] : List (Expr ι)), e.isOpenLet = false := by simp
  exact liftedBlock_append hfront i x value rest

/-! ## Trees that can be lifted -/

mutual

/-- Whether placeholders stand only for the bodies of lets without braces, and
lists and absent parts nowhere. -/
def placed : Expr ι → Bool
  | placeholder | absent | list .. => false
  | integer _ | string _ | boolean _ | identifier _ | parameters .. | procedure .. => true
  | lambda _ _ es | block _ es => placedAll es
  | clause _ test result => placed test && placed result
  | cond _ clauses => placedClauses clauses
  | letIn _ _ value body => placed value && (isOpenBody body || placedAll body)
  | define _ _ value | assign _ _ value => placed value
  | apply _ operator operands => placed operator && placedAll operands

/-- Whether this is so for all expressions of a list. -/
def placedAll : List (Expr ι) → Bool
  | [] => true
  | e :: es => placed e && placedAll es

/-- Whether this is so for all clauses. -/
def placedClauses : List (Expr ι × Expr ι) → Bool
  | [] => true
  | (test, result) :: clauses => placed test && placed result && placedClauses clauses

end

theorem isOpenBody_of_placedAll
    {es : List (Expr ι)} (h : placedAll es) :
    isOpenBody es = false := by
  rw [Bool.eq_false_iff, Ne, isOpenBody_iff]
  rintro rfl
  simp [placedAll, placed] at h

mutual

/-- Where everything is in its place, lifting goes through the whole tree. -/
theorem lift_eq_lifted :
    ∀ e : Expr ι, e.placed → e.lift = (e.lifted, none)
  | integer _, _ | string _, _ | boolean _, _ | identifier _, _ | parameters .., _
  | procedure .., _ => by rw [lift, lifted] <;> simp
  | placeholder, h | absent, h | list .., h => by simp [placed] at h
  | lambda i xs body, h => by
      have hbody := liftBlock_eq_liftedBlock body
      rw [placed] at h
      rw [lift, lifted, hbody h]
  | block i es, h => by
      have hes := liftBlock_eq_liftedBlock es
      rw [placed] at h
      rw [lift, lifted, hes h]
  | clause i test result, h => by
      have htest := lift_eq_lifted test
      have hresult := lift_eq_lifted result
      rw [placed, Bool.and_eq_true] at h
      rw [lift, lifted, htest h.1, hresult h.2]
  | cond i clauses, h => by
      have hclauses := liftClauses_eq_map clauses
      rw [placed] at h
      rw [lift, lifted, hclauses h]
  | letIn i x value body, h => by
      have hvalue := lift_eq_lifted value
      have hbody := liftBlock_eq_liftedBlock body
      rw [placed, Bool.and_eq_true, Bool.or_eq_true] at h
      rw [lift, lifted, hvalue h.1]
      dsimp only
      split
      · rfl
      · rw [hbody (h.2.resolve_left ‹_›)]
  | define i x value, h => by
      have hvalue := lift_eq_lifted value
      rw [placed] at h
      rw [lift, lifted, hvalue h]
  | assign i x value, h => by
      have hvalue := lift_eq_lifted value
      rw [placed] at h
      rw [lift, lifted, hvalue h]
  | apply i operator operands, h => by
      have hoperator := lift_eq_lifted operator
      have hoperands := liftAll_eq_map operands
      rw [placed, Bool.and_eq_true] at h
      rw [lift, lifted, hoperator h.1, hoperands h.2]
termination_by structural e => e

theorem liftAll_eq_map :
    ∀ es : List (Expr ι), placedAll es → liftAll es = (es.map lifted, none)
  | [], _ => rfl
  | e :: es, h => by
      have he := lift_eq_lifted e
      have hes := liftAll_eq_map es
      rw [placedAll, Bool.and_eq_true] at h
      rw [liftAll, he h.1, hes h.2]
      rfl
termination_by structural es => es

theorem liftClauses_eq_map :
    ∀ cs : List (Expr ι × Expr ι), placedClauses cs →
      liftClauses cs = (cs.map fun c => (c.1.lifted, c.2.lifted), none)
  | [], _ => rfl
  | (test, result) :: cs, h => by
      have htest := lift_eq_lifted test
      have hresult := lift_eq_lifted result
      have hcs := liftClauses_eq_map cs
      rw [placedClauses, Bool.and_eq_true, Bool.and_eq_true] at h
      rw [liftClauses, htest h.1.1, hresult h.1.2, hcs h.2]
      rfl
termination_by structural cs => cs

theorem liftBlock_eq_liftedBlock :
    ∀ es : List (Expr ι), placedAll es → liftBlock es = (liftedBlock es, none)
  | [], _ => by rw [liftBlock, liftedBlock_eq_map (by simp)]; rfl
  | e :: es, h => by
      have he := lift_eq_lifted e
      have hes := liftBlock_eq_liftedBlock es
      rw [placedAll, Bool.and_eq_true] at h
      cases hopen : e.isOpenLet with
      | true =>
          obtain ⟨i, x, value, body, rfl, hbody⟩ := exists_of_isOpenLet hopen
          cases isOpenBody_iff.mp hbody
          have hlet := he h.1
          rw [lift, lifted] at hlet
          rw [liftBlock, if_pos hbody, liftedBlock_openLet]
          rcases hlift : value.lift with ⟨value', _ | misfit⟩ <;> rw [hlift] at hlet
          · cases hlet
            dsimp only
            rw [isOpenBody_of_placedAll h.2, if_neg Bool.false_ne_true, hes h.2]
          · cases hlet
      | false => rw [liftBlock_cons hopen, liftedBlock_cons hopen, he h.1, hes h.2]
termination_by structural es => es

end

/-! ## Programs -/

theorem isOpenBody_of_within
    {es : List (Expr ι)} (h : withinAll Head.ofProgram es) :
    isOpenBody es = false := by
  rw [Bool.eq_false_iff, Ne, isOpenBody_iff]
  rintro rfl
  simp [withinAll, within, Head.ofProgram] at h

theorem isOpenLet_of_within
    {e : Expr ι} (h : e.within Head.ofProgram) :
    e.isOpenLet = false := by
  cases e
  case letIn i x value body =>
    rw [within, Bool.and_eq_true] at h
    exact isOpenBody_of_within h.2
  all_goals rfl

mutual

/-- A program has nothing left to lift. -/
theorem lift_of_within :
    ∀ e : Expr ι, e.within Head.ofProgram → e.lift = (e, none)
  | integer _, _ | string _, _ | boolean _, _ | identifier _, _ | parameters .., _
  | procedure .., _ => rfl
  | placeholder, h | absent, h | list .., h | clause .., h => by simp [within, Head.ofProgram] at h
  | lambda i xs body, h => by
      have hbody := liftBlock_of_within body
      rw [within, Bool.and_eq_true] at h
      rw [lift, hbody h.2]
  | block i es, h => by
      have hes := liftBlock_of_within es
      rw [within, Bool.and_eq_true] at h
      rw [lift, hes h.2]
  | cond i clauses, h => by
      have hclauses := liftClauses_of_within clauses
      rw [within, Bool.and_eq_true] at h
      rw [lift, hclauses h.2]
  | letIn i x value body, h => by
      have hvalue := lift_of_within value
      have hbody := liftBlock_of_within body
      rw [within, Bool.and_eq_true, Bool.and_eq_true] at h
      rw [lift, hvalue h.1.2]
      dsimp only
      rw [isOpenBody_of_within h.2, if_neg Bool.false_ne_true, hbody h.2]
  | define i x value, h => by
      have hvalue := lift_of_within value
      rw [within, Bool.and_eq_true] at h
      rw [lift, hvalue h.2]
  | assign i x value, h => by
      have hvalue := lift_of_within value
      rw [within, Bool.and_eq_true] at h
      rw [lift, hvalue h.2]
  | apply i operator operands, h => by
      have hoperator := lift_of_within operator
      have hoperands := liftAll_of_within operands
      rw [within, Bool.and_eq_true, Bool.and_eq_true] at h
      rw [lift, hoperator h.1.2, hoperands h.2]
termination_by structural e => e

theorem liftAll_of_within :
    ∀ es : List (Expr ι), withinAll Head.ofProgram es → liftAll es = (es, none)
  | [], _ => rfl
  | e :: es, h => by
      have he := lift_of_within e
      have hes := liftAll_of_within es
      rw [withinAll, Bool.and_eq_true] at h
      rw [liftAll, he h.1, hes h.2]
termination_by structural es => es

theorem liftClauses_of_within :
    ∀ cs : List (Expr ι × Expr ι), withinClauses Head.ofProgram cs → liftClauses cs = (cs, none)
  | [], _ => rfl
  | (test, result) :: cs, h => by
      have htest := lift_of_within test
      have hresult := lift_of_within result
      have hcs := liftClauses_of_within cs
      rw [withinClauses, Bool.and_eq_true, Bool.and_eq_true] at h
      rw [liftClauses, htest h.1.1, hresult h.1.2, hcs h.2]
termination_by structural cs => cs

theorem liftBlock_of_within :
    ∀ es : List (Expr ι), withinAll Head.ofProgram es → liftBlock es = (es, none)
  | [], _ => rfl
  | e :: es, h => by
      have he := lift_of_within e
      have hes := liftBlock_of_within es
      rw [withinAll, Bool.and_eq_true] at h
      rw [liftBlock_cons (isOpenLet_of_within h.1), he h.1, hes h.2]
termination_by structural es => es

end

/-! ## Nodes and leaves -/

/-- The expressions that a node consists of, from left to right. -/
def parts : Expr ι → List (Expr ι)
  | lambda _ _ es | block _ es | list _ es => es
  | clause _ test result => [test, result]
  | cond _ clauses => clauses.flatMap fun c => [c.1, c.2]
  | letIn _ _ e es | apply _ e es => e :: es
  | define _ _ value | assign _ _ value => [value]
  | integer _ | string _ | boolean _ | identifier _ | placeholder | absent | parameters ..
  | procedure .. => []

/-- An expression is a node of a tree, its root or one further down. -/
inductive Occurs (n : Expr ι) : Expr ι → Prop where
  | root : Occurs n n
  | inner {e part : Expr ι} (hpart : part ∈ e.parts) (hn : Occurs n part) : Occurs n e

theorem within_of_mem_parts
    {p : Head → Bool} {e part : Expr ι} (he : e.within p) (hpart : part ∈ e.parts) :
    part.within p := by
  cases e <;> simp only [parts, within, withinAll_iff, withinClauses_iff, Bool.and_eq_true,
    List.mem_cons, List.mem_flatMap, List.not_mem_nil, or_false] at he hpart
  case lambda | block | list => exact he.2 _ hpart
  case define | assign => exact hpart ▸ he.2
  case letIn | apply =>
    rcases hpart with rfl | hpart
    · exact he.1.2
    · exact he.2 _ hpart
  case clause =>
    rcases hpart with rfl | rfl
    · exact he.1.2
    · exact he.2
  case cond =>
    obtain ⟨c, hc, rfl | rfl⟩ := hpart
    · exact (he.2 c hc).1
    · exact (he.2 c hc).2

theorem Occurs.within
    {p : Head → Bool} {n e : Expr ι} (hn : n.Occurs e) (he : e.within p) :
    n.within p := by
  induction hn with
  | root => exact he
  | inner hpart _ ih => exact ih (within_of_mem_parts he hpart)

/-- What a tree holds at its ends. The names that lambdas, lets, definitions and
assignments bind count as identifiers. -/
inductive Leaf where
  | identifier (x : Text)
  | integer (n : Int64)
  | string (s : Text)

mutual

/-- The identifiers, integers and strings of a tree from left to right. -/
def leaves : Expr ι → List Leaf
  | integer n => [.integer n]
  | string s => [.string s]
  | identifier x => [.identifier x]
  | boolean _ | placeholder | absent | procedure .. => []
  | parameters _ xs => xs.map .identifier
  | lambda _ xs body => xs.map .identifier ++ leavesOfAll body
  | block _ es | list _ es => leavesOfAll es
  | clause _ test result => leaves test ++ leaves result
  | cond _ clauses => leavesOfClauses clauses
  | letIn _ x value body => .identifier x :: (leaves value ++ leavesOfAll body)
  | define _ x value | assign _ x value => .identifier x :: leaves value
  | apply _ operator operands => leaves operator ++ leavesOfAll operands

/-- The leaves of the trees of a list. -/
def leavesOfAll : List (Expr ι) → List Leaf
  | [] => []
  | e :: es => leaves e ++ leavesOfAll es

/-- The leaves of the clauses of a conditional. -/
def leavesOfClauses : List (Expr ι × Expr ι) → List Leaf
  | [] => []
  | (test, result) :: clauses => leaves test ++ leaves result ++ leavesOfClauses clauses

end

mutual

/-- Lifting moves statements into bodies, but nothing past anything else. -/
theorem leaves_lifted :
    ∀ e : Expr ι, e.lifted.leaves = e.leaves
  | integer _ | string _ | boolean _ | identifier _ | placeholder | absent | parameters ..
  | procedure .. | list .. => by rw [lifted] <;> simp
  | lambda i xs body => by
      rw [lifted, leaves, leaves, leavesOfAll_liftedBlock body]
  | block i es => by
      rw [lifted, leaves, leaves, leavesOfAll_liftedBlock es]
  | clause i test result => by
      rw [lifted, leaves, leaves, leaves_lifted test, leaves_lifted result]
  | cond i clauses => by
      rw [lifted, leaves, leaves, leavesOfClauses_map clauses]
  | letIn i x value body => by
      have hbody := leavesOfAll_liftedBlock body
      rw [lifted, leaves, leaves, leaves_lifted value]
      split
      · rename_i hopen
        cases isOpenBody_iff.mp hopen
        rfl
      · rw [hbody]
  | define i x value => by
      rw [lifted, leaves, leaves, leaves_lifted value]
  | assign i x value => by
      rw [lifted, leaves, leaves, leaves_lifted value]
  | apply i operator operands => by
      rw [lifted, leaves, leaves, leaves_lifted operator, leavesOfAll_map operands]
termination_by structural e => e

theorem leavesOfAll_map :
    ∀ es : List (Expr ι), leavesOfAll (es.map lifted) = leavesOfAll es
  | [] => rfl
  | e :: es => by
      rw [List.map_cons, leavesOfAll, leavesOfAll, leaves_lifted e, leavesOfAll_map es]
termination_by structural es => es

theorem leavesOfClauses_map :
    ∀ cs : List (Expr ι × Expr ι),
      leavesOfClauses (cs.map fun c => (c.1.lifted, c.2.lifted)) = leavesOfClauses cs
  | [] => rfl
  | (test, result) :: cs => by
      rw [List.map_cons, leavesOfClauses, leavesOfClauses, leaves_lifted test,
        leaves_lifted result, leavesOfClauses_map cs]
termination_by structural cs => cs

theorem leavesOfAll_liftedBlock :
    ∀ es : List (Expr ι), leavesOfAll (liftedBlock es) = leavesOfAll es
  | [] => by rw [liftedBlock_eq_map (by simp)]; rfl
  | e :: es => by
      have he := leaves_lifted e
      have hes := leavesOfAll_liftedBlock es
      cases hopen : e.isOpenLet with
      | true =>
          obtain ⟨i, x, value, body, rfl, hbody⟩ := exists_of_isOpenLet hopen
          cases isOpenBody_iff.mp hbody
          rw [lifted, if_pos hbody] at he
          rw [liftedBlock_openLet]
          simp only [leavesOfAll, leaves, List.append_nil, List.cons_append] at he ⊢
          rw [hes, (List.cons.inj he).2]
      | false => rw [liftedBlock_cons hopen, leavesOfAll, leavesOfAll, he, hes]
termination_by structural es => es

end

end Expr

namespace Grammar

mutual

theorem Phrase.placed_value {b : Bool} :
    ∀ d : Phrase b, d.value.placed
  | .simple d => d.placed_value
  | .define _ value => value.placed_value
  | .assign _ value => value.placed_value
  | .bareLet _ value => by
      have hvalue := value.placed_value
      simp [Phrase.value, Expr.placed, hvalue, Expr.isOpenBody]
  | .cond first rest => by
      have hfirst := first.placed_value
      have hrest := rest.placed_values
      simp [Phrase.value, Expr.placed, Expr.placedClauses, hfirst, hrest]

theorem Postfix.placed_value :
    ∀ d : Postfix, d.value.placed
  | .mk head calls => calls.placed_value head.placed_value

theorem Primary.placed_value :
    ∀ d : Primary, d.value.placed
  | .name _ | .integer _ | .string _ | .parameters _ => rfl
  | .block es => es.placed_values
  | .lambda _ _ body => body.placed_values
  | .letIn _ value body => by
      have hvalue := value.placed_value
      have hbody := body.placed_values
      simp [Primary.value, Expr.placed, hvalue, hbody]

theorem Clause.placed_value :
    ∀ d : Clause, d.value.1.placed ∧ d.value.2.placed
  | .mk test result => ⟨test.placed_value, result.placed_value⟩

theorem Clauses.placed_values :
    ∀ d : Clauses, Expr.placedClauses d.values
  | .nil => rfl
  | .cons clause rest => by
      have hclause := clause.placed_value
      have hrest := rest.placed_values
      simp [Clauses.values, Expr.placedClauses, hclause, hrest]

theorem Phrases.placed_values :
    ∀ d : Phrases, Expr.placedAll d.values
  | .nil => rfl
  | .cons e es => by
      have he := e.placed_value
      have hes := es.placed_values
      simp [Phrases.values, Expr.placedAll, he, hes]

theorem Calls.placed_value {operator : Source} (hoperator : operator.placed) :
    ∀ d : Calls, (d.value operator).placed
  | .nil => hoperator
  | .cons operands rest => by
      have hoperands := operands.placed_values
      refine rest.placed_value ?_
      simp [Expr.placed, hoperator, hoperands]

end

end Grammar

/-! ## Trees that were read -/

/-- Lifting never stops in a tree that was read. It comes to what it should, and in
this no placeholder and no let without braces is left, all leaves are in their old
order and there is nothing more to lift. -/
theorem lift_of_parse
    {tokens : List Token} {e : Source} (h : parse tokens = .ok e) :
    e.lift = (e.lifted, none) ∧
      (∀ n : Source, n.Occurs e.lifted → n ≠ .placeholder ∧ n.isOpenLet = false) ∧
      e.lifted.leaves = e.leaves ∧ e.lifted.lift = (e.lifted, none) := by
  obtain ⟨d, -, rfl⟩ := parse_eq_ok_iff_exists.mp h
  have hlift : d.value.lift = (d.value.lifted, none) :=
    Expr.lift_eq_lifted d.value (Grammar.Phrase.placed_value d.2)
  have hprogram : d.value.lifted.within Head.ofProgram := by
    have hwithin := Expr.within_lift d.value (Grammar.Phrase.within_value d.2)
    rw [hlift] at hwithin
    exact hwithin rfl
  refine ⟨hlift, fun n hn => ?_, Expr.leaves_lifted _, Expr.lift_of_within _ hprogram⟩
  have hn : n.within Head.ofProgram := hn.within hprogram
  constructor
  · rintro rfl
    cases hn
  · exact Expr.isOpenLet_of_within hn

/-- Lets without braces one after the other, one of them in the value of another and
one in an argument. -/
def chainedLets : Source :=
  .block ()
    [.letIn () "a" (.letIn () "b" (.integer 1) [.placeholder]) [.placeholder],
     .apply () (.identifier "f") [.letIn () "c" (.identifier "a") [.placeholder]],
     .letIn () "d" (.integer 2) [.placeholder],
     .identifier "d"]

theorem lift_of_parse_chainedLets :
    parse (scan "\x7blet a = let b = 1; f(let c = a); let d = 2; d\x7d") = .ok chainedLets ∧
      chainedLets.lift =
        (.block ()
          [.letIn () "a" (.letIn () "b" (.integer 1) [])
            [.apply () (.identifier "f") [.letIn () "c" (.identifier "a") []],
             .letIn () "d" (.integer 2) [.identifier "d"]]], none) ∧
      chainedLets.lift = (chainedLets.lifted, none) ∧
      (∀ n : Source, n.Occurs chainedLets.lifted → n ≠ .placeholder ∧ n.isOpenLet = false) ∧
      chainedLets.lifted.leaves = chainedLets.leaves ∧
      chainedLets.lifted.lift = (chainedLets.lifted, none) := by
  have hparse : parse (scan "\x7blet a = let b = 1; f(let c = a); let d = 2; d\x7d") =
      .ok chainedLets := rfl
  exact ⟨hparse, rfl, lift_of_parse hparse⟩

end BlockLang
