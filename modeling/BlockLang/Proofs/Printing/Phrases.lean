import BlockLang.Proofs.Printing

/-!
# What printed expressions spell

The source text of an expression that was read spells the terminals of its
derivation once more, except that integers are in decimal form, that both words
for a lambda become the same one, and that strings are read back from what is
written for them. The proof follows the derivation, with one lemma for each form
of an expression.
-/

namespace BlockLang

open Grammar

/-! ## Source text by form -/

theorem Outline.sourceAll_eq (indent : Nat) (os : List Outline) :
    sourceAll indent os = os.map (source indent) := by
  induction os with
  | nil => rfl
  | cons o os ih => exact congrArg (source indent o :: ·) ih

namespace Expr

variable {ι : Type} (i : ι) (indent : Nat)

/-- The source text of a clause. -/
def clauseSource (clause : Expr ι × Expr ι) : Text :=
  "(" ++ clause.1.source indent ++ " => " ++ clause.2.source indent ++ ")"

theorem sourceAll_clauseOutlines (clauses : List (Expr ι × Expr ι)) :
    Outline.sourceAll indent (clauseOutlines clauses) = clauses.map (clauseSource indent) := by
  induction clauses with
  | nil => rfl
  | cons clause clauses ih => exact congrArg (clauseSource indent clause :: ·) ih

theorem sourceAll_outlines (es : List (Expr ι)) :
    Outline.sourceAll indent (outlines es) = es.map (·.source indent) := by
  induction es with
  | nil => rfl
  | cons e es ih => exact congrArg (e.source indent :: ·) ih

theorem source_parameters (xs : List Text) :
    (parameters i xs).source indent = "(" ++ Text.join ", " xs ++ ")" := by
  have hnames : Outline.sourceAll indent (xs.map .identifier) = xs := by
    rw [Outline.sourceAll_eq, List.map_map]
    exact List.map_id xs
  exact congrArg (fun names => "(" ++ Text.join ", " names ++ ")") hnames

theorem source_block (es : List (Expr ι)) :
    (block i es).source indent =
      Outline.bracedLines indent (es.map (·.source (indent + 1))) :=
  congrArg (Outline.bracedLines indent) (sourceAll_outlines (indent + 1) es)

theorem source_lambda (xs : List Text) (body : List (Expr ι)) :
    (lambda i xs body).source indent =
      "lambda " ++ (parameters i xs).source 0 ++ " " ++ (block i body).source indent :=
  rfl

theorem source_cond (clauses : List (Expr ι × Expr ι)) :
    (cond i clauses).source indent =
      Outline.clauseLines indent (clauses.map (clauseSource indent)) :=
  congrArg (Outline.clauseLines indent) (sourceAll_clauseOutlines indent clauses)

theorem source_define (x : Text) (value : Expr ι) :
    (define i x value).source indent = "def " ++ x ++ " = " ++ value.source indent :=
  rfl

theorem source_assign (x : Text) (value : Expr ι) :
    (assign i x value).source indent = x ++ " = " ++ value.source indent :=
  rfl

theorem source_apply (operator : Expr ι) (operands : List (Expr ι)) :
    (apply i operator operands).source indent =
      operator.source indent ++ "(" ++ Text.join ", " (operands.map (·.source indent)) ++ ")" :=
  congrArg (fun texts => operator.source indent ++ "(" ++ Text.join ", " texts ++ ")")
    (sourceAll_outlines indent operands)

theorem source_bareLet (x : Text) (value : Expr ι) :
    (letIn i x value [placeholder]).source indent =
      "let " ++ x ++ " = " ++ value.source indent :=
  rfl

theorem source_letIn (x : Text) (value : Expr ι) {body : List (Expr ι)}
    (h : outlines body ≠ [.placeholder]) :
    (letIn i x value body).source indent =
      "let " ++ x ++ " = " ++ value.source indent ++ " " ++ (block i body).source indent := by
  rw [source, outline, Outline.source, Outline.source]
  · rfl
  · rintro hbody
    exact h (by simpa using hbody)

end Expr

/-! ## Terminals -/

/-- What a terminal becomes when the expression it belongs to is printed. -/
def Terminal.reprinted : Terminal → Terminal
  | .integer literal =>
    match Integer.read literal with
    | .ok n => .integer (Integer.text n)
    | .error _ => .integer literal
  | .string s => if s.Fits then .string s.repaired else .mark .longString
  | .mark .lambdaSign => .mark .lambda
  | u => u

/-- What terminals become when they are printed. -/
def reprint (us : List Terminal) : List Terminal :=
  us.map Terminal.reprinted

@[simp] theorem reprint_nil : reprint [] = [] := rfl

@[simp] theorem reprint_cons (u : Terminal) (us : List Terminal) :
    reprint (u :: us) = u.reprinted :: reprint us := rfl

@[simp] theorem reprint_append (us vs : List Terminal) :
    reprint (us ++ vs) = reprint us ++ reprint vs :=
  List.map_append

theorem reprint_preceded
    {kind : Kind} (hkind : kind ≠ .lambdaSign) (yss : List (List Terminal)) :
    reprint (preceded kind yss) = preceded kind (yss.map reprint) := by
  induction yss with
  | nil => rfl
  | cons ys yss ih =>
      have hmark : (Terminal.mark kind).reprinted = .mark kind := by
        unfold Terminal.reprinted
        split <;> simp_all
      rw [preceded, reprint_cons, reprint_append, ih, hmark, List.map_cons, preceded]

theorem reprint_separated
    {kind : Kind} (hkind : kind ≠ .lambdaSign) (yss : List (List Terminal)) :
    reprint (separated kind yss) = separated kind (yss.map reprint) := by
  cases yss with
  | nil => rfl
  | cons ys yss =>
      rw [separated, reprint_append, reprint_preceded hkind, List.map_cons, separated]

theorem reprint_listed (yss : List (List Terminal)) :
    reprint (listed yss) = listed (yss.map reprint) := by
  rw [listed, reprint_cons, reprint_append, reprint_separated (by simp)]
  rfl

theorem reprint_braced (yss : List (List Terminal)) :
    reprint (braced yss) = braced (yss.map reprint) := by
  rw [braced, reprint_cons, reprint_append, reprint_separated (by simp)]
  rfl

theorem reprint_nameYields (xs : List Name) :
    (nameYields xs).map reprint = nameYields xs := by
  rw [nameYields, List.map_map]
  rfl

/-! ## Properties of all terminals -/

/-- All terminals have a property. -/
def Each (P : Terminal → Prop) (us : List Terminal) : Prop :=
  ∀ u ∈ us, P u

section Each

variable {P : Terminal → Prop} {us vs : List Terminal} {yss : List (List Terminal)}

@[simp] theorem each_cons {u : Terminal} : Each P (u :: us) ↔ P u ∧ Each P us :=
  List.forall_mem_cons

@[simp] theorem each_append : Each P (us ++ vs) ↔ Each P us ∧ Each P vs :=
  List.forall_mem_append

theorem Each.of_preceded {kind : Kind} (h : Each P (preceded kind yss)) :
    ∀ ys ∈ yss, Each P ys := by
  induction yss with
  | nil => simp
  | cons ys yss ih =>
      rw [preceded, each_cons, each_append] at h
      exact List.forall_mem_cons.mpr ⟨h.2.1, ih h.2.2⟩

theorem Each.of_separated {kind : Kind} (h : Each P (separated kind yss)) :
    ∀ ys ∈ yss, Each P ys := by
  cases yss with
  | nil => simp
  | cons ys yss =>
      rw [separated, each_append] at h
      exact List.forall_mem_cons.mpr ⟨h.1, h.2.of_preceded⟩

theorem Each.of_listed (h : Each P (listed yss)) : ∀ ys ∈ yss, Each P ys := by
  rw [listed, each_cons, each_append] at h
  exact h.2.1.of_separated

theorem Each.of_braced (h : Each P (braced yss)) : ∀ ys ∈ yss, Each P ys := by
  rw [braced, each_cons, each_append] at h
  exact h.2.1.of_separated

end Each

theorem prints_names {xs : List Name} (h : ∀ ys ∈ nameYields xs, Each Terminal.Scanned ys) :
    List.Forall₂ Prints (xs.map (·.val)) (nameYields xs) := by
  induction xs with
  | nil => exact .nil
  | cons x xs ih =>
      obtain ⟨hx, hxs⟩ := List.forall_mem_cons.mp h
      exact .cons (prints_name (hx _ (List.mem_singleton.mpr rfl))) (ih hxs)

/-! ## Printed forms -/

section Forms

variable {x : Text} {value : Source} {indent : Nat} {us : List Terminal}

/-- The equals sign and the value of a binding. -/
theorem prints_binding
    (hx : (Terminal.name x).Scanned) (hvalue : Prints (value.source indent) us) :
    Prints (x ++ " = " ++ value.source indent) (.name x :: .mark .equals :: us) :=
  ((prints_name hx).append_spells spells_equals (Scan.cuts_cons rfl _)).append_prints hvalue

theorem prints_define
    (hx : (Terminal.name x).Scanned) (hvalue : Prints (value.source indent) us) :
    Prints ((Expr.define () x value).source indent)
      (.mark .define :: .name x :: .mark .equals :: us) := by
  have hword : Spells "def " [.mark .define] :=
    spells_keyword (x := "def") ⟨by decide, rfl, by rintro b ⟨⟩; decide⟩ rfl
  rw [Expr.source_define, List.append_assoc, List.append_assoc]
  rw [← List.append_assoc x]
  exact hword.append_prints (prints_binding hx hvalue)

theorem spells_let : Spells "let " [.mark .letIn] :=
  spells_keyword (x := "let") ⟨by decide, rfl, by rintro b ⟨⟩; decide⟩ rfl

theorem prints_bareLet
    (hx : (Terminal.name x).Scanned) (hvalue : Prints (value.source indent) us) :
    Prints ((Expr.letIn () x value [.placeholder]).source indent)
      (.mark .letIn :: .name x :: .mark .equals :: us) := by
  rw [Expr.source_bareLet, List.append_assoc, List.append_assoc]
  rw [← List.append_assoc x]
  exact spells_let.append_prints (prints_binding hx hvalue)

theorem spells_letIn
    (hx : (Terminal.name x).Scanned) (hvalue : Prints (value.source indent) us)
    {body : List Source} {vs : List Terminal} (hopen : Expr.outlines body ≠ [.placeholder])
    (hbody : Spells ((Expr.block () body).source indent) vs) :
    Spells ((Expr.letIn () x value body).source indent)
      (.mark .letIn :: .name x :: .mark .equals :: (us ++ vs)) := by
  have hspace : Spells (" " ++ (Expr.block () body).source indent) vs := .space rfl hbody
  have htext := (spells_let.append_prints (prints_binding hx hvalue)).append_spells hspace
    (Scan.cuts_cons rfl _)
  rw [Expr.source_letIn _ _ _ _ hopen]
  simpa only [List.append_assoc, List.cons_append, List.nil_append] using htext

theorem spells_block
    {es : List Source} {yss : List (List Terminal)}
    (h : List.Forall₂ Prints (es.map (·.source (indent + 1))) yss) :
    Spells ((Expr.block () es).source indent) (braced yss) := by
  rw [Expr.source_block]
  exact spells_bracedLines h indent

theorem spells_parameters
    {xs : List Name} (h : ∀ ys ∈ nameYields xs, Each Terminal.Scanned ys) (indent : Nat) :
    Spells ((Expr.parameters () (xs.map (·.val))).source indent) (listed (nameYields xs)) := by
  rw [Expr.source_parameters]
  exact spells_listed (prints_names h)

theorem spells_lambda
    {xs : List Name} (h : ∀ ys ∈ nameYields xs, Each Terminal.Scanned ys)
    {body : List Source} {vs : List Terminal}
    (hbody : Spells ((Expr.block () body).source indent) vs) :
    Spells ((Expr.lambda () (xs.map (·.val)) body).source indent)
      (.mark .lambda :: (listed (nameYields xs) ++ vs)) := by
  have hword : Spells "lambda " [.mark .lambda] :=
    spells_keyword (x := "lambda") ⟨by decide, rfl, by rintro b ⟨⟩; decide⟩ rfl
  have hspace : Spells (" " ++ (Expr.block () body).source indent) vs := .space rfl hbody
  have htext := (hword.append (spells_parameters h 0)).append hspace
  rw [Expr.source_lambda]
  simpa only [List.append_assoc, List.cons_append, List.nil_append] using htext

theorem spells_clause
    {test result : Source} {vs : List Terminal}
    (htest : Prints (test.source indent) us) (hresult : Prints (result.source indent) vs) :
    Spells (Expr.clauseSource indent (test, result))
      (.mark .openParen :: (us ++ .mark .arrow :: (vs ++ [.mark .closeParen]))) := by
  have hopen : Spells "(" [.mark .openParen] := .mark rfl (by decide) spells_nil
  have htests := (hopen.append_prints htest).append_spells spells_arrow (Scan.cuts_cons rfl _)
  have hclause := (htests.append_prints hresult).append_spells spells_closeParen
    (Scan.cuts_cons rfl _)
  simpa only [Expr.clauseSource, List.append_assoc, List.cons_append, List.nil_append]
    using hclause

theorem prints_apply
    {operator : Source} {operands : List Source} {yss : List (List Terminal)}
    (hoperator : Prints (operator.source indent) us)
    (hoperands : List.Forall₂ Prints (operands.map (·.source indent)) yss) :
    Prints ((Expr.apply () operator operands).source indent) (us ++ listed yss) := by
  have htext := hoperator.append_spells (spells_listed hoperands) (Scan.cuts_cons rfl _)
  rw [Expr.source_apply]
  simpa only [List.append_assoc] using htext.prints

end Forms

/-! ## Derivations -/

namespace Grammar

theorem Calls.outline_value_ne : ∀ (calls : Calls) (operator : Source),
    operator.outline ≠ .placeholder → (calls.value operator).outline ≠ .placeholder
  | .nil, _, h => h
  | .cons _ rest, _, _ => rest.outline_value_ne _ (by simp [Expr.outline])
termination_by structural calls => calls

theorem Phrase.outline_value_ne {b : Bool} (p : Phrase b) :
    p.value.outline ≠ .placeholder := by
  cases p with
  | simple p =>
      obtain ⟨head, calls⟩ := p
      refine calls.outline_value_ne _ ?_
      cases head <;> simp [Primary.value, Expr.outline]
  | _ => simp [Phrase.value, Expr.outline]

/-- A body between braces is never taken for a missing one. -/
theorem Phrases.outlines_values_ne (es : Phrases) :
    Expr.outlines es.values ≠ [.placeholder] := by
  cases es with
  | nil => simp [Phrases.values, Expr.outlines]
  | cons e es =>
      intro h
      rw [Phrases.values, Expr.outlines] at h
      exact e.outline_value_ne (List.cons.inj h).1

mutual

/-- The source text of a phrase spells its terminals once more. -/
theorem Phrase.prints {b : Bool} : ∀ (p : Phrase b) (indent : Nat),
    Each Terminal.Scanned p.yield → Prints (p.value.source indent) (reprint p.yield)
  | .simple p, indent, h => Postfix.prints p indent h
  | .define x value, indent, h => by
      simp only [Phrase.yield, each_cons] at h
      exact prints_define h.2.1 (Phrase.prints value indent h.2.2.2)
  | .assign x value, indent, h => by
      simp only [Phrase.yield, each_cons] at h
      rw [Phrase.value, Expr.source_assign]
      exact prints_binding h.1 (Phrase.prints value indent h.2.2)
  | .bareLet x value, indent, h => by
      simp only [Phrase.yield, each_cons] at h
      exact prints_bareLet h.2.1 (Phrase.prints value indent h.2.2.2)
  | .cond first rest, indent, h => by
      simp only [Phrase.yield, each_cons, each_append] at h
      have hfirst := Clause.spells first indent h.2.1
      obtain ⟨yss, hrest, hyss⟩ := Clauses.prints rest indent h.2.2
      have htext := prints_clauseLines (List.Forall₂.cons hfirst.prints hrest) (by simp) indent
      rw [Phrase.value, Expr.source_cond, Phrase.yield, reprint_cons, reprint_append, ← hyss]
      exact htext
termination_by structural p => p

/-- The source text of a postfix phrase spells its terminals once more. -/
theorem Postfix.prints : ∀ (p : Postfix) (indent : Nat),
    Each Terminal.Scanned p.yield → Prints (p.value.source indent) (reprint p.yield)
  | .mk head calls, indent, h => by
      rw [Postfix.yield, each_append] at h
      rw [Postfix.yield, reprint_append]
      exact Calls.prints calls (Primary.prints head indent h.1) h.2
termination_by structural p => p

/-- The source text of a primary phrase spells its terminals once more. -/
theorem Primary.prints : ∀ (p : Primary) (indent : Nat),
    Each Terminal.Scanned p.yield → Prints (p.value.source indent) (reprint p.yield)
  | .name x, indent, h => prints_name (h _ (List.mem_singleton.mpr rfl))
  | .integer n, indent, h => by
      have hread := Integer.read_eq_ok_iff.mpr n.denotes
      simp only [Primary.yield, reprint_cons, Terminal.reprinted, hread, reprint_nil]
      exact prints_integer n.value
  | .string s, indent, h => by
      have htext := spelled_stringLiteral (h (.string s) (List.mem_singleton.mpr rfl))
      exact fun t _ => htext t
  | .parameters xs, indent, h => by
      rw [Primary.yield, reprint_listed, reprint_nameYields]
      exact (spells_parameters h.of_listed indent).prints
  | .block es, indent, h => by
      rw [Primary.yield, reprint_braced]
      exact (spells_block (Phrases.prints es (indent + 1) h.of_braced)).prints
  | .lambda word xs body, indent, h => by
      rw [Primary.yield, each_cons, each_append] at h
      have hbody := spells_block (Phrases.prints body (indent + 1) h.2.2.of_braced)
      have htext := spells_lambda h.2.1.of_listed hbody
      rw [Primary.yield, reprint_cons, reprint_append, reprint_listed, reprint_nameYields,
        reprint_braced]
      cases word <;> exact htext.prints
  | .letIn x value body, indent, h => by
      simp only [Primary.yield, each_cons, each_append] at h
      have hbody := spells_block (Phrases.prints body (indent + 1) h.2.2.2.2.of_braced)
      have htext := spells_letIn h.2.1 (Phrase.prints value indent h.2.2.2.1)
        body.outlines_values_ne hbody
      simp only [Primary.yield, reprint_cons, reprint_append, reprint_braced]
      exact htext.prints
termination_by structural p => p

/-- The source text of a clause spells its terminals once more. -/
theorem Clause.spells : ∀ (clause : Clause) (indent : Nat),
    Each Terminal.Scanned clause.yield →
      Spells (Expr.clauseSource indent clause.value) (reprint clause.yield)
  | .mk test result, indent, h => by
      simp only [Clause.yield, each_cons, each_append] at h
      have htext := spells_clause (Phrase.prints test indent h.2.1)
        (Phrase.prints result indent h.2.2.2.1)
      simpa [Clause.yield, Clause.value, Terminal.reprinted] using htext
termination_by structural clause => clause

/-- The source texts of clauses spell their terminals once more. -/
theorem Clauses.prints : ∀ (clauses : Clauses) (indent : Nat),
    Each Terminal.Scanned clauses.yield →
    ∃ yss, List.Forall₂ Prints (clauses.values.map (Expr.clauseSource indent)) yss ∧
      yss.flatten = reprint clauses.yield
  | .nil, indent, h => ⟨[], .nil, rfl⟩
  | .cons clause rest, indent, h => by
      rw [Clauses.yield, each_append] at h
      have hclause := Clause.spells clause indent h.1
      obtain ⟨yss, hrest, hyss⟩ := Clauses.prints rest indent h.2
      refine ⟨reprint clause.yield :: yss, .cons hclause.prints hrest, ?_⟩
      rw [List.flatten_cons, hyss, Clauses.yield, reprint_append]
termination_by structural clauses => clauses

/-- The source texts of expressions spell their terminals once more. -/
theorem Phrases.prints : ∀ (es : Phrases) (indent : Nat),
    (∀ ys ∈ es.yields, Each Terminal.Scanned ys) →
    List.Forall₂ Prints (es.values.map (·.source indent)) (es.yields.map reprint)
  | .nil, indent, h => .nil
  | .cons e es, indent, h => by
      obtain ⟨he, hes⟩ := List.forall_mem_cons.mp h
      exact .cons (Phrase.prints e indent he) (Phrases.prints es indent hes)
termination_by structural es => es

/-- The source text of an application spells its terminals once more. -/
theorem Calls.prints : ∀ (calls : Calls) {operator : Source} {indent : Nat}
    {us : List Terminal}, Prints (operator.source indent) us → Each Terminal.Scanned calls.yield →
    Prints ((calls.value operator).source indent) (us ++ reprint calls.yield)
  | .nil, _, _, _, hoperator, h => by
      simpa [Calls.yield, Calls.value] using hoperator
  | .cons operands rest, _, indent, _, hoperator, h => by
      rw [Calls.yield, each_append] at h
      have hcall := prints_apply hoperator (Phrases.prints operands indent h.1.of_listed)
      rw [Calls.yield, reprint_append, reprint_listed, ← List.append_assoc]
      exact Calls.prints rest hcall h.2
termination_by structural calls => calls

end

end Grammar

end BlockLang
