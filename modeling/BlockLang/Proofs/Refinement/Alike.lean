import Mathlib.Data.List.Forall2
import BlockLang.Expr.Labels
import BlockLang.Procedure.Compute

/-!
# Expressions up to labels

Two runs of the same source may give different labels to the same node. A pairing
tells which labels belong together. Expressions are alike if they differ only in
labels that belong together. As long as no label belongs to two others, like
expressions cannot be told apart: they print alike, are equal to like expressions
and are treated alike by every procedure.
-/

namespace BlockLang

/-- Which labels of two runs belong together. -/
abbrev Pairing := Label → Label → Prop

/-- No label belongs to two others. -/
structure Pairing.Unique (R : Pairing) : Prop where
  right : ∀ {a b b'}, R a b → R a b' → b = b'
  left : ∀ {a a' b}, R a b → R a' b → a = a'

theorem Pairing.Unique.eq_iff
    {R : Pairing} (hR : R.Unique) {a a' b b' : Label} (h : R a b) (h' : R a' b') :
    a = a' ↔ b = b' := by
  constructor
  · rintro rfl
    exact hR.right h h'
  · rintro rfl
    exact hR.left h h'

mutual

/-- Two expressions differ only in labels that belong together. -/
def Alike (R : Pairing) : Node → Node → Prop
  | .integer n, e => e = .integer n
  | .string s, e => e = .string s
  | .boolean b, e => e = .boolean b
  | .identifier x, e => e = .identifier x
  | .placeholder, e => e = .placeholder
  | .absent, e => e = .absent
  | .parameters i xs, e => ∃ j, R i j ∧ e = .parameters j xs
  | .lambda i xs body, e =>
    ∃ j body', R i j ∧ AlikeAll R body body' ∧ e = .lambda j xs body'
  | .block i es, e => ∃ j es', R i j ∧ AlikeAll R es es' ∧ e = .block j es'
  | .clause i test result, e =>
    ∃ j test' result', R i j ∧ Alike R test test' ∧ Alike R result result' ∧
      e = .clause j test' result'
  | .cond i clauses, e =>
    ∃ j clauses', R i j ∧ AlikeClauses R clauses clauses' ∧ e = .cond j clauses'
  | .letIn i x value body, e =>
    ∃ j value' body', R i j ∧ Alike R value value' ∧ AlikeAll R body body' ∧
      e = .letIn j x value' body'
  | .define i x value, e => ∃ j value', R i j ∧ Alike R value value' ∧ e = .define j x value'
  | .assign i x value, e => ∃ j value', R i j ∧ Alike R value value' ∧ e = .assign j x value'
  | .apply i operator operands, e =>
    ∃ j operator' operands', R i j ∧ Alike R operator operator' ∧
      AlikeAll R operands operands' ∧ e = .apply j operator' operands'
  | .procedure i name wired, e => ∃ j, R i j ∧ e = .procedure j name wired
  | .list i elements, e =>
    ∃ j elements', R i j ∧ AlikeAll R elements elements' ∧ e = .list j elements'

/-- The expressions of two lists are alike one by one. -/
def AlikeAll (R : Pairing) : List Node → List Node → Prop
  | [], es' => es' = []
  | e :: es, es' => ∃ e' rest, Alike R e e' ∧ AlikeAll R es rest ∧ es' = e' :: rest

/-- The clauses of two conditionals are alike one by one. -/
def AlikeClauses (R : Pairing) : List (Node × Node) → List (Node × Node) → Prop
  | [], cs' => cs' = []
  | (test, result) :: cs, cs' =>
    ∃ test' result' rest, Alike R test test' ∧ Alike R result result' ∧
      AlikeClauses R cs rest ∧ cs' = (test', result') :: rest

end

theorem alikeAll_iff
    {R : Pairing} {es es' : List Node} :
    AlikeAll R es es' ↔ List.Forall₂ (Alike R) es es' := by
  induction es generalizing es' with
  | nil => simp [AlikeAll]
  | cons e es ih =>
      rw [List.forall₂_cons_left_iff]
      simp only [AlikeAll, ih]

/-! ## More labels -/

section Mono

variable {R R' : Pairing}

mutual

theorem Alike.mono (h : ∀ a b, R a b → R' a b) :
    ∀ {e e' : Node}, Alike R e e' → Alike R' e e'
  | .integer _, _, he | .string _, _, he | .boolean _, _, he | .identifier _, _, he
  | .placeholder, _, he | .absent, _, he => he
  | .parameters .., _, ⟨j, hi, rfl⟩ => ⟨j, h _ _ hi, rfl⟩
  | .lambda .., _, ⟨j, _, hi, hbody, rfl⟩ => ⟨j, _, h _ _ hi, hbody.mono h, rfl⟩
  | .block .., _, ⟨j, _, hi, hes, rfl⟩ => ⟨j, _, h _ _ hi, hes.mono h, rfl⟩
  | .clause .., _, ⟨j, _, _, hi, htest, hresult, rfl⟩ =>
      ⟨j, _, _, h _ _ hi, htest.mono h, hresult.mono h, rfl⟩
  | .cond .., _, ⟨j, _, hi, hcs, rfl⟩ => ⟨j, _, h _ _ hi, hcs.mono h, rfl⟩
  | .letIn .., _, ⟨j, _, _, hi, hvalue, hbody, rfl⟩ =>
      ⟨j, _, _, h _ _ hi, hvalue.mono h, hbody.mono h, rfl⟩
  | .define .., _, ⟨j, _, hi, hvalue, rfl⟩ => ⟨j, _, h _ _ hi, hvalue.mono h, rfl⟩
  | .assign .., _, ⟨j, _, hi, hvalue, rfl⟩ => ⟨j, _, h _ _ hi, hvalue.mono h, rfl⟩
  | .apply .., _, ⟨j, _, _, hi, hoperator, hoperands, rfl⟩ =>
      ⟨j, _, _, h _ _ hi, hoperator.mono h, hoperands.mono h, rfl⟩
  | .procedure .., _, ⟨j, hi, rfl⟩ => ⟨j, h _ _ hi, rfl⟩
  | .list .., _, ⟨j, _, hi, helements, rfl⟩ => ⟨j, _, h _ _ hi, helements.mono h, rfl⟩
termination_by structural e => e

theorem AlikeAll.mono (h : ∀ a b, R a b → R' a b) :
    ∀ {es es' : List Node}, AlikeAll R es es' → AlikeAll R' es es'
  | [], _, hes => hes
  | _ :: _, _, ⟨_, _, he, hes, rfl⟩ => ⟨_, _, he.mono h, hes.mono h, rfl⟩
termination_by structural es => es

theorem AlikeClauses.mono (h : ∀ a b, R a b → R' a b) :
    ∀ {cs cs' : List (Node × Node)}, AlikeClauses R cs cs' → AlikeClauses R' cs cs'
  | [], _, hcs => hcs
  | _ :: _, _, ⟨_, _, _, htest, hresult, hcs, rfl⟩ =>
      ⟨_, _, _, htest.mono h, hresult.mono h, hcs.mono h, rfl⟩
termination_by structural cs => cs

end

end Mono

/-! ## Printing -/

section Printing

variable {R : Pairing}

mutual

theorem Alike.outline_eq :
    ∀ {e e' : Node}, Alike R e e' → e'.outline = e.outline
  | .integer _, _, rfl | .string _, _, rfl | .boolean _, _, rfl | .identifier _, _, rfl
  | .placeholder, _, rfl | .absent, _, rfl => rfl
  | .parameters .., _, ⟨_, _, rfl⟩ | .procedure .., _, ⟨_, _, rfl⟩ => rfl
  | .lambda .., _, ⟨_, _, _, hbody, rfl⟩ => by simp [Expr.outline, hbody.outlines_eq]
  | .block .., _, ⟨_, _, _, hes, rfl⟩ => by simp [Expr.outline, hes.outlines_eq]
  | .clause .., _, ⟨_, _, _, _, htest, hresult, rfl⟩ => by
      simp [Expr.outline, htest.outline_eq, hresult.outline_eq]
  | .cond .., _, ⟨_, _, _, hcs, rfl⟩ => by simp [Expr.outline, hcs.outlines_eq]
  | .letIn .., _, ⟨_, _, _, _, hvalue, hbody, rfl⟩ => by
      simp [Expr.outline, hvalue.outline_eq, hbody.outlines_eq]
  | .define .., _, ⟨_, _, _, hvalue, rfl⟩ => by simp [Expr.outline, hvalue.outline_eq]
  | .assign .., _, ⟨_, _, _, hvalue, rfl⟩ => by simp [Expr.outline, hvalue.outline_eq]
  | .apply .., _, ⟨_, _, _, _, hoperator, hoperands, rfl⟩ => by
      simp [Expr.outline, hoperator.outline_eq, hoperands.outlines_eq]
  | .list .., _, ⟨_, _, _, helements, rfl⟩ => by simp [Expr.outline, helements.outlines_eq]
termination_by structural e => e

theorem AlikeAll.outlines_eq :
    ∀ {es es' : List Node}, AlikeAll R es es' → Expr.outlines es' = Expr.outlines es
  | [], _, rfl => rfl
  | _ :: _, _, ⟨_, _, he, hes, rfl⟩ => by
      simp [Expr.outlines, he.outline_eq, hes.outlines_eq]
termination_by structural es => es

theorem AlikeClauses.outlines_eq :
    ∀ {cs cs' : List (Node × Node)}, AlikeClauses R cs cs' →
      Expr.clauseOutlines cs' = Expr.clauseOutlines cs
  | [], _, rfl => rfl
  | _ :: _, _, ⟨_, _, _, htest, hresult, hcs, rfl⟩ => by
      simp [Expr.clauseOutlines, htest.outline_eq, hresult.outline_eq, hcs.outlines_eq]
termination_by structural cs => cs

end

theorem Alike.inspect_eq
    {e e' : Node} (h : Alike R e e') :
    e'.inspect = e.inspect := by
  rw [Expr.inspect, h.outline_eq, Expr.inspect]

end Printing

/-! ## Identity -/

section Identity

variable {R : Pairing}

/-- Like expressions are equal atoms or carry labels that belong together. -/
theorem Alike.eq_or_labelled
    {e e' : Node} (h : Alike R e e') :
    (e.label? = none ∧ e' = e) ∨
      ∃ i j, e.label? = some i ∧ e'.label? = some j ∧ R i j := by
  cases e
  case integer | string | boolean | identifier | placeholder | absent =>
    exact .inl ⟨rfl, h⟩
  case parameters | procedure =>
    obtain ⟨j, hi, rfl⟩ := h
    exact .inr ⟨_, j, rfl, rfl, hi⟩
  case lambda | block | cond | define | assign | list =>
    obtain ⟨j, _, hi, _, rfl⟩ := h
    exact .inr ⟨_, j, rfl, rfl, hi⟩
  case clause | letIn | apply =>
    obtain ⟨j, _, _, hi, _, _, rfl⟩ := h
    exact .inr ⟨_, j, rfl, rfl, hi⟩

/-- A node without its label and its parts. -/
def Expr.bare : Node → Node
  | .parameters _ xs => .parameters 0 xs
  | .lambda _ xs _ => .lambda 0 xs []
  | .block .. => .block 0 []
  | .clause .. => .clause 0 .absent .absent
  | .cond .. => .cond 0 []
  | .letIn _ x _ _ => .letIn 0 x .absent []
  | .define _ x _ => .define 0 x .absent
  | .assign _ x _ => .assign 0 x .absent
  | .apply .. => .apply 0 .absent []
  | .procedure _ name wired => .procedure 0 name wired
  | .list .. => .list 0 []
  | e => e

theorem Alike.bare_eq
    {e e' : Node} (h : Alike R e e') :
    e'.bare = e.bare := by
  cases e
  case integer | string | boolean | identifier | placeholder | absent =>
    cases h
    rfl
  case parameters | procedure =>
    obtain ⟨_, _, rfl⟩ := h
    rfl
  case lambda | block | cond | define | assign | list =>
    obtain ⟨_, _, _, _, rfl⟩ := h
    rfl
  case clause | letIn | apply =>
    obtain ⟨_, _, _, _, _, _, rfl⟩ := h
    rfl

/-- What does not depend on labels and parts is the same for like expressions. -/
theorem Alike.eq_of_bare
    {α : Type} {f : Node → α} {e e' : Node} (h : Alike R e e') (hf : ∀ e, f e.bare = f e) :
    f e' = f e := by
  rw [← hf e', h.bare_eq, hf e]

theorem Alike.typeName_eq
    {e e' : Node} (h : Alike R e e') :
    e'.typeName = e.typeName :=
  h.eq_of_bare fun e => by cases e <;> rfl

theorem display_cons
    (v : Node) (vs : List Node) :
    Procedure.display (v :: vs) =
      (match v with
        | .string s => s
        | v => v.inspect) ++ Procedure.display vs :=
  List.flatMap_cons

theorem display_eq
    {args args' : List Node} (h : List.Forall₂ (Alike R) args args') :
    Procedure.display args' = Procedure.display args := by
  induction h with
  | nil => rfl
  | cons hv _ ih =>
      rw [display_cons, display_cons, ih]
      rcases hv.eq_or_labelled with ⟨-, rfl⟩ | ⟨i, j, hi, hj, -⟩
      · rfl
      · congr 1
        split
        · cases hj
        · split
          · cases hi
          · exact hv.inspect_eq

theorem same_eq_of_label
    {a b : Node} (h : a.label? ≠ none ∨ b.label? ≠ none) :
    a.same b =
      match a.label?, b.label? with
      | some i, some j => i == j
      | _, _ => false := by
  unfold Expr.same
  split
  case h_6 => cases a.label? <;> cases b.label? <;> rfl
  all_goals simp [Expr.label?] at h

/-- Whether two values are the same does not depend on the run. -/
theorem same_eq
    (hR : R.Unique) {a a' b b' : Node} (ha : Alike R a a') (hb : Alike R b b') :
    a'.same b' = a.same b := by
  rcases ha.eq_or_labelled with ⟨hna, rfl⟩ | ⟨i, i', hi, hi', hRi⟩
  · rcases hb.eq_or_labelled with ⟨hnb, rfl⟩ | ⟨j, j', hj, hj', hRj⟩
    · rfl
    · rw [same_eq_of_label (.inr (by simp [hj'])), same_eq_of_label (.inr (by simp [hj])), hna]
  · rcases hb.eq_or_labelled with ⟨hnb, rfl⟩ | ⟨j, j', hj, hj', hRj⟩
    · rw [same_eq_of_label (.inl (by simp [hi'])), same_eq_of_label (.inl (by simp [hi])), hnb,
        hi, hi']
    · rw [same_eq_of_label (.inl (by simp [hi'])), same_eq_of_label (.inl (by simp [hi])), hi,
        hi', hj, hj']
      rw [Bool.eq_iff_iff, beq_iff_eq, beq_iff_eq]
      exact (hR.eq_iff hRi hRj).symm

end Identity

/-! ## Labelling a tree twice -/

namespace Expr

variable {ι : Type}

mutual

/-- The number of labels that a tree needs. -/
def labelCount : Expr ι → Nat
  | integer _ | string _ | boolean _ | identifier _ | placeholder | absent => 0
  | parameters .. | procedure .. => 1
  | lambda _ _ es | block _ es | list _ es => 1 + labelCountAll es
  | clause _ test result => 1 + (labelCount test + labelCount result)
  | cond _ clauses => 1 + labelCountClauses clauses
  | letIn _ _ value es | apply _ value es => 1 + (labelCount value + labelCountAll es)
  | define _ _ value | assign _ _ value => 1 + labelCount value

/-- The number of labels that the trees of a list need. -/
def labelCountAll : List (Expr ι) → Nat
  | [] => 0
  | e :: es => labelCount e + labelCountAll es

/-- The number of labels that the clauses of a conditional need. -/
def labelCountClauses : List (Expr ι × Expr ι) → Nat
  | [] => 0
  | (test, result) :: clauses => labelCount test + (labelCount result + labelCountClauses clauses)

end

mutual

theorem labelled_snd :
    ∀ (e : Expr ι) (a : Label), (e.labelled a).2 = a + e.labelCount
  | integer _, _ | string _, _ | boolean _, _ | identifier _, _ | placeholder, _ | absent, _
  | parameters .., _ | procedure .., _ => rfl
  | lambda _ _ es, a | block _ es, a | list _ es, a =>
      (labelledAll_snd es (a + 1)).trans (Nat.add_assoc _ _ _)
  | clause _ test result, a => by
      simp only [labelled, labelled_snd test, labelled_snd result, labelCount, Nat.add_assoc]
  | cond _ clauses, a => (labelledClauses_snd clauses (a + 1)).trans (Nat.add_assoc _ _ _)
  | letIn _ _ value es, a | apply _ value es, a => by
      simp only [labelled, labelled_snd value, labelledAll_snd es, labelCount, Nat.add_assoc]
  | define _ _ value, a | assign _ _ value, a =>
      (labelled_snd value (a + 1)).trans (Nat.add_assoc _ _ _)

theorem labelledAll_snd :
    ∀ (es : List (Expr ι)) (a : Label), (labelledAll a es).2 = a + labelCountAll es
  | [], _ => rfl
  | e :: es, a => by
      simp only [labelledAll, labelled_snd e, labelledAll_snd es, labelCountAll, Nat.add_assoc]

theorem labelledClauses_snd :
    ∀ (cs : List (Expr ι × Expr ι)) (a : Label),
      (labelledClauses a cs).2 = a + labelCountClauses cs
  | [], _ => rfl
  | (test, result) :: cs, a => by
      simp only [labelledClauses, labelled_snd test, labelled_snd result, labelledClauses_snd cs,
        labelCountClauses, Nat.add_assoc]

end

end Expr

/-- Two rows of labels belong together one by one. -/
def Pairing.Rows (R : Pairing) (a b : Label) (n : Nat) : Prop :=
  ∀ k < n, R (a + k) (b + k)

theorem Pairing.Rows.split
    {R : Pairing} {a b : Label} {m n : Nat} (h : R.Rows a b (m + n)) :
    R.Rows a b m ∧ R.Rows (a + m) (b + m) n := by
  refine ⟨fun k hk => h k (Nat.lt_of_lt_of_le hk (Nat.le_add_right m n)), fun k hk => ?_⟩
  rw [Nat.add_assoc, Nat.add_assoc]
  exact h (m + k) (Nat.add_lt_add_left hk m)

theorem Pairing.Rows.first
    {R : Pairing} {a b : Label} {n : Nat} (h : R.Rows a b (1 + n)) :
    R a b ∧ R.Rows (a + 1) (b + 1) n :=
  ⟨h.split.1 0 Nat.zero_lt_one, h.split.2⟩

section Labelled

variable {ι : Type} {R : Pairing}

mutual

/-- A tree that is labelled twice gives like expressions. -/
theorem alike_labelled :
    ∀ (e : Expr ι) {a b : Label}, R.Rows a b e.labelCount →
      Alike R (e.labelled a).1 (e.labelled b).1
  | .integer _, _, _, _ | .string _, _, _, _ | .boolean _, _, _, _ | .identifier _, _, _, _
  | .placeholder, _, _, _ | .absent, _, _, _ => rfl
  | .parameters .., _, _, h | .procedure .., _, _, h =>
      ⟨_, h 0 Nat.zero_lt_one, rfl⟩
  | .lambda _ _ es, _, _, h | .block _ es, _, _, h | .list _ es, _, _, h =>
      ⟨_, _, h.first.1, alikeAll_labelledAll es h.first.2, rfl⟩
  | .cond _ clauses, _, _, h =>
      ⟨_, _, h.first.1, alikeClauses_labelledClauses clauses h.first.2, rfl⟩
  | .define _ _ value, _, _, h | .assign _ _ value, _, _, h =>
      ⟨_, _, h.first.1, alike_labelled value h.first.2, rfl⟩
  | .clause _ test result, a, b, h => by
      obtain ⟨htest, hresult⟩ := h.first.2.split
      rw [← Expr.labelled_snd test, ← Expr.labelled_snd test] at hresult
      exact ⟨_, _, _, h.first.1, alike_labelled test htest, alike_labelled result hresult, rfl⟩
  | .letIn _ _ value es, a, b, h => by
      obtain ⟨hvalue, hes⟩ := h.first.2.split
      rw [← Expr.labelled_snd value, ← Expr.labelled_snd value] at hes
      exact ⟨_, _, _, h.first.1, alike_labelled value hvalue, alikeAll_labelledAll es hes, rfl⟩
  | .apply _ operator es, a, b, h => by
      obtain ⟨hoperator, hes⟩ := h.first.2.split
      rw [← Expr.labelled_snd operator, ← Expr.labelled_snd operator] at hes
      exact ⟨_, _, _, h.first.1, alike_labelled operator hoperator, alikeAll_labelledAll es hes,
        rfl⟩

theorem alikeAll_labelledAll :
    ∀ (es : List (Expr ι)) {a b : Label}, R.Rows a b (Expr.labelCountAll es) →
      AlikeAll R (Expr.labelledAll a es).1 (Expr.labelledAll b es).1
  | [], _, _, _ => rfl
  | e :: es, a, b, h => by
      obtain ⟨he, hes⟩ := h.split
      rw [← Expr.labelled_snd e, ← Expr.labelled_snd e] at hes
      exact ⟨_, _, alike_labelled e he, alikeAll_labelledAll es hes, rfl⟩

theorem alikeClauses_labelledClauses :
    ∀ (cs : List (Expr ι × Expr ι)) {a b : Label}, R.Rows a b (Expr.labelCountClauses cs) →
      AlikeClauses R (Expr.labelledClauses a cs).1 (Expr.labelledClauses b cs).1
  | [], _, _, _ => rfl
  | (test, result) :: cs, a, b, h => by
      obtain ⟨htest, hrest⟩ := h.split
      obtain ⟨hresult, hcs⟩ := hrest.split
      rw [← Expr.labelled_snd test, ← Expr.labelled_snd test] at hresult hcs
      rw [← Expr.labelled_snd result, ← Expr.labelled_snd result] at hcs
      exact ⟨_, _, _, alike_labelled test htest, alike_labelled result hresult,
        alikeClauses_labelledClauses cs hcs, rfl⟩

end

end Labelled

end BlockLang
