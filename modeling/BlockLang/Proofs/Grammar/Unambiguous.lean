import BlockLang.Proofs.Grammar

/-!
# The grammar is unambiguous

A derivation is determined by its yield. The statement that carries the
induction is about a yield with something after it: two phrases that start the
same list of terminals are equal if neither is followed by a terminal that could
still belong to it. Only a few terminals can: a parenthesis opens an argument
list or a clause, an equals sign turns a name into an assignment, and a brace is
the body of a let without one.
-/

namespace BlockLang

namespace Terminal

/-- Whether an expression can start with a terminal. -/
def starts : Terminal → Bool
  | name _ | integer _ | string _ => true
  | mark kind =>
    kind == .openParen || kind == .openBrace || kind == .lambda || kind == .lambdaSign ||
      kind == .letIn || kind == .define || kind == .cond

end Terminal

namespace Grammar

/-- The terminals do not start with one of the given kind. -/
def NotFirst (kind : Kind) (us : List Terminal) : Prop :=
  us.head? ≠ some (.mark kind)

@[simp] theorem notFirst_cons {kind : Kind} {u : Terminal} {us : List Terminal} :
    NotFirst kind (u :: us) ↔ u ≠ .mark kind := by
  simp [NotFirst]

/-- The terminals do not go on with a phrase, which ends in a let without braces
if `b` holds. -/
structure Stops (b : Bool) (us : List Terminal) : Prop where
  paren : NotFirst .openParen us
  equals : NotFirst .equals us
  brace : b = true → NotFirst .openBrace us

/-- A mark that ends every phrase in front of it. -/
def Ends (kind : Kind) : Prop :=
  kind ≠ .openParen ∧ kind ≠ .equals ∧ kind ≠ .openBrace

theorem ends_arrow : Ends .arrow := ⟨nofun, nofun, nofun⟩

theorem ends_closeParen : Ends .closeParen := ⟨nofun, nofun, nofun⟩

theorem ends_closeBrace : Ends .closeBrace := ⟨nofun, nofun, nofun⟩

theorem ends_comma : Ends .comma := ⟨nofun, nofun, nofun⟩

theorem ends_semicolon : Ends .semicolon := ⟨nofun, nofun, nofun⟩

theorem Stops.weaken {us : List Terminal} (h : Stops true us) (b : Bool) : Stops b us :=
  ⟨h.paren, h.equals, fun _ => h.brace rfl⟩

theorem stops_mark {b : Bool} {kind : Kind} (h : Ends kind) (us : List Terminal) :
    Stops b (.mark kind :: us) := by
  obtain ⟨hparen, hequals, hbrace⟩ := h
  constructor <;> simp [hparen, hequals, hbrace]

theorem stops_brace (us : List Terminal) :
    Stops false (.mark .openBrace :: us) := by
  constructor <;> simp

/-- Equal blocks hold equal statements if equal sequences of statements do. -/
theorem separated_eq_of_braced
    {ys zs : List (List Terminal)} {us vs : List Terminal}
    (h : braced ys ++ us = braced zs ++ vs) :
    separated .semicolon ys ++ .mark .closeBrace :: us =
      separated .semicolon zs ++ .mark .closeBrace :: vs := by
  simpa [braced] using h

theorem separated_eq_of_listed
    {ys zs : List (List Terminal)} {us vs : List Terminal}
    (h : listed ys ++ us = listed zs ++ vs) :
    separated .comma ys ++ .mark .closeParen :: us =
      separated .comma zs ++ .mark .closeParen :: vs := by
  simpa [listed] using h

theorem braced_append (ys : List (List Terminal)) (us : List Terminal) :
    braced ys ++ us =
      .mark .openBrace :: (separated .semicolon ys ++ .mark .closeBrace :: us) := by
  simp [braced]

theorem stops_braced (ys : List (List Terminal)) (us : List Terminal) :
    Stops false (braced ys ++ us) := by
  rw [braced_append]
  exact stops_brace _

theorem stops_preceded
    {b : Bool} {sep close : Kind} (hsep : Ends sep) (hclose : Ends close)
    (ys : List (List Terminal)) (us : List Terminal) :
    Stops b (preceded sep ys ++ .mark close :: us) := by
  cases ys with
  | nil => exact stops_mark hclose us
  | cons y ys => exact stops_mark hsep _

/-! ## First terminals -/

theorem Primary.yield_head (p : Primary) :
    ∃ u us, p.yield = u :: us ∧ u.starts = true ∧ u ≠ .mark .define ∧ u ≠ .mark .cond := by
  cases p with
  | lambda word xs body => cases word <;> exact ⟨_, _, rfl, rfl, nofun, nofun⟩
  | _ => exact ⟨_, _, rfl, rfl, nofun, nofun⟩

theorem Phrase.yield_head {b : Bool} (p : Phrase b) :
    ∃ u us, p.yield = u :: us ∧ u.starts = true := by
  cases p with
  | simple p =>
      obtain ⟨head, calls⟩ := p
      obtain ⟨u, us, hu, hstarts, -⟩ := head.yield_head
      exact ⟨u, us ++ calls.yield, by simp [Phrase.yield, Postfix.yield, hu], hstarts⟩
  | _ => exact ⟨_, _, rfl, rfl⟩

theorem Postfix.yield_append_ne_define (p : Postfix) (us vs : List Terminal) :
    p.yield ++ us ≠ .mark .define :: vs := by
  obtain ⟨head, calls⟩ := p
  obtain ⟨u, ws, hu, -, hdefine, -⟩ := head.yield_head
  simp [Postfix.yield, hu, hdefine]

theorem Postfix.yield_append_ne_cond (p : Postfix) (us vs : List Terminal) :
    p.yield ++ us ≠ .mark .cond :: vs := by
  obtain ⟨head, calls⟩ := p
  obtain ⟨u, ws, hu, -, -, hcond⟩ := head.yield_head
  simp [Postfix.yield, hu, hcond]

/-- A name in front of an equals sign is not a postfix phrase. -/
theorem Postfix.yield_append_ne_assign
    (p : Postfix) {x : Text} {us vs : List Terminal} (hus : NotFirst .equals us) :
    p.yield ++ us ≠ .name x :: .mark .equals :: vs := by
  obtain ⟨head, calls⟩ := p
  intro h
  cases head with
  | name y =>
      cases calls with
      | nil =>
          simp only [Postfix.yield, Primary.yield, Calls.yield, List.append_nil,
            List.cons_append, List.nil_append, List.cons.injEq] at h
          simp [h.2] at hus
      | cons operands rest => simp [Postfix.yield, Primary.yield, Calls.yield, listed] at h
  | _ => simp [Postfix.yield, Primary.yield, listed, braced] at h

/-! ## Leaves -/

theorem LambdaWord.kind_injective : Function.Injective LambdaWord.kind := by
  intro a b h
  cases a <;> cases b <;> first | rfl | cases h

theorem Numeral.eq_of_literal {m n : Numeral} (h : m.literal = n.literal) : m = n := by
  obtain ⟨literal, a, ha⟩ := m
  obtain ⟨_, b, hb⟩ := n
  obtain rfl : literal = _ := h
  obtain rfl := Integer.Denotes.unique ha hb
  rfl

theorem preceded_names_injective
    {xs ys : List Name} {us vs : List Terminal}
    (h : preceded .comma (nameYields xs) ++ .mark .closeParen :: us =
      preceded .comma (nameYields ys) ++ .mark .closeParen :: vs) :
    xs = ys ∧ us = vs := by
  induction xs generalizing ys with
  | nil =>
      cases ys with
      | nil => simpa [nameYields, preceded] using h
      | cons y ys => simp [nameYields, preceded] at h
  | cons x xs ih =>
      cases ys with
      | nil => simp [nameYields, preceded] at h
      | cons y ys =>
          simp only [nameYields, List.map_cons, preceded, List.cons_append, List.nil_append,
            List.cons.injEq, Terminal.name.injEq, true_and] at h
          obtain ⟨rfl, rfl⟩ := ih h.2
          exact ⟨by rw [Subtype.ext h.1], rfl⟩

theorem listed_names_injective
    {xs ys : List Name} {us vs : List Terminal}
    (h : listed (nameYields xs) ++ us = listed (nameYields ys) ++ vs) :
    xs = ys ∧ us = vs := by
  replace h := separated_eq_of_listed h
  cases xs with
  | nil =>
      cases ys with
      | nil => simpa [nameYields, separated] using h
      | cons y ys => simp [nameYields, separated] at h
  | cons x xs =>
      cases ys with
      | nil => simp [nameYields, separated] at h
      | cons y ys =>
          simp only [nameYields, List.map_cons, separated, List.cons_append, List.nil_append,
            List.cons.injEq, Terminal.name.injEq] at h
          obtain ⟨rfl, rfl⟩ := preceded_names_injective h.2
          exact ⟨by rw [Subtype.ext h.1], rfl⟩

/-! ## Phrases -/

mutual

theorem Phrase.yield_injective
    {b c : Bool} {us vs : List Terminal} :
    ∀ (p : Phrase b) (q : Phrase c), Stops b us → Stops c vs →
      p.yield ++ us = q.yield ++ vs → (⟨b, p⟩ : Derivation) = ⟨c, q⟩ ∧ us = vs
  | .simple p, .simple q, hp, hq, h => by
      obtain ⟨rfl, rfl⟩ := Postfix.yield_injective p q hp.paren hq.paren h
      exact ⟨rfl, rfl⟩
  | .simple p, .define _ _, _, _, h => absurd h (p.yield_append_ne_define _ _)
  | .simple p, .assign _ _, hp, _, h => absurd h (p.yield_append_ne_assign hp.equals)
  | .simple p, .bareLet _ w, _, hq, h => absurd h (Postfix.yield_append_ne_bareLet p w hq)
  | .simple p, .cond _ _, _, _, h => absurd h (p.yield_append_ne_cond _ _)
  | .define x v, q, hp, hq, h => by
      cases q with
      | simple q => exact absurd h.symm (q.yield_append_ne_define _ _)
      | define y w =>
          simp only [Phrase.yield, List.cons_append, List.cons.injEq, Terminal.name.injEq,
            true_and] at h
          obtain ⟨hvw, rfl⟩ := Phrase.yield_injective v w hp hq h.2
          cases hvw
          exact ⟨by rw [Subtype.ext h.1], rfl⟩
      | _ => simp [Phrase.yield] at h
  | .assign x v, q, hp, hq, h => by
      cases q with
      | simple q => exact absurd h.symm (q.yield_append_ne_assign hq.equals)
      | assign y w =>
          simp only [Phrase.yield, List.cons_append, List.cons.injEq, Terminal.name.injEq,
            true_and] at h
          obtain ⟨hvw, rfl⟩ := Phrase.yield_injective v w hp hq h.2
          cases hvw
          exact ⟨by rw [Subtype.ext h.1], rfl⟩
      | _ => simp [Phrase.yield] at h
  | .bareLet x v, q, hp, hq, h => by
      cases q with
      | simple q =>
          obtain ⟨head, calls⟩ := q
          cases head with
          | letIn y w body =>
              simp only [Phrase.yield, Postfix.yield, Primary.yield, List.cons_append,
                List.append_assoc, List.cons.injEq, true_and, braced_append] at h
              have hvw := Phrase.yield_injective v w (hp.weaken _) (stops_brace _) h.2
              exact absurd (hp.brace rfl) (by simp [hvw.2])
          | lambda word ys body =>
              cases word <;> simp [Phrase.yield, Postfix.yield, Primary.yield,
                LambdaWord.kind] at h
          | _ => simp [Phrase.yield, Postfix.yield, Primary.yield, listed, braced] at h
      | bareLet y w =>
          simp only [Phrase.yield, List.cons_append, List.cons.injEq, Terminal.name.injEq,
            true_and] at h
          obtain ⟨hvw, rfl⟩ :=
            Phrase.yield_injective v w (hp.weaken _) (hq.weaken _) h.2
          cases hvw
          exact ⟨by rw [Subtype.ext h.1], rfl⟩
      | _ => simp [Phrase.yield] at h
  | .cond first rest, q, hp, hq, h => by
      cases q with
      | simple q => exact absurd h.symm (q.yield_append_ne_cond _ _)
      | cond first' rest' =>
          simp only [Phrase.yield, List.cons_append, List.append_assoc, List.cons.injEq,
            true_and] at h
          obtain ⟨rfl, htail⟩ := Clause.yield_injective first first' h
          obtain ⟨rfl, rfl⟩ := Clauses.yield_injective hp.paren hq.paren rest rest' htail
          exact ⟨rfl, rfl⟩
      | _ => simp [Phrase.yield] at h
termination_by structural p => p

/-- A let with a braced body is not read as one without braces: the brace after
its value would follow the latter. -/
theorem Postfix.yield_append_ne_bareLet
    (p : Postfix) {c : Bool} {y : Name} (w : Phrase c) {us vs : List Terminal}
    (hvs : Stops true vs) :
    p.yield ++ us ≠ (Phrase.bareLet y w).yield ++ vs := by
  intro h
  obtain ⟨head, calls⟩ := p
  cases head with
  | letIn x v body =>
      simp only [Phrase.yield, Postfix.yield, Primary.yield, List.cons_append,
        List.append_assoc, List.cons.injEq, true_and, braced_append] at h
      have hvw := Phrase.yield_injective v w (stops_brace _) (hvs.weaken _) h.2
      exact absurd (hvs.brace rfl) (by simp [← hvw.2])
  | lambda word ys body =>
      cases word <;> simp [Phrase.yield, Postfix.yield, Primary.yield, LambdaWord.kind] at h
  | _ => simp [Phrase.yield, Postfix.yield, Primary.yield, listed, braced] at h
termination_by structural p

theorem Postfix.yield_injective
    (p q : Postfix) {us vs : List Terminal}
    (hp : NotFirst .openParen us) (hq : NotFirst .openParen vs)
    (h : p.yield ++ us = q.yield ++ vs) :
    p = q ∧ us = vs := by
  obtain ⟨head, calls⟩ := p
  obtain ⟨head', calls'⟩ := q
  simp only [Postfix.yield, List.append_assoc] at h
  obtain ⟨rfl, htail⟩ := Primary.yield_injective head head' h
  obtain ⟨rfl, rfl⟩ := Calls.yield_injective hp hq calls calls' htail
  exact ⟨rfl, rfl⟩
termination_by structural p

theorem Primary.yield_injective
    {us vs : List Terminal} :
    ∀ p q : Primary, p.yield ++ us = q.yield ++ vs → p = q ∧ us = vs
  | .name x, q, h => by
      cases q with
      | name y =>
          simp only [Primary.yield, List.cons_append, List.nil_append, List.cons.injEq,
            Terminal.name.injEq] at h
          exact ⟨by rw [Subtype.ext h.1], h.2⟩
      | _ => simp [Primary.yield, listed, braced] at h
  | .integer m, q, h => by
      cases q with
      | integer n =>
          simp only [Primary.yield, List.cons_append, List.nil_append, List.cons.injEq,
            Terminal.integer.injEq] at h
          exact ⟨by rw [Numeral.eq_of_literal h.1], h.2⟩
      | _ => simp [Primary.yield, listed, braced] at h
  | .string s, q, h => by
      cases q with
      | string t => simpa [Primary.yield] using h
      | _ => simp [Primary.yield, listed, braced] at h
  | .parameters xs, q, h => by
      cases q with
      | parameters ys =>
          obtain ⟨rfl, rfl⟩ := listed_names_injective h
          exact ⟨rfl, rfl⟩
      | lambda word ys body => cases word <;> simp [Primary.yield, listed, LambdaWord.kind] at h
      | _ => simp [Primary.yield, listed, braced] at h
  | .block es, q, h => by
      cases q with
      | block es' =>
          obtain ⟨rfl, rfl⟩ := Phrases.separated_injective ends_semicolon ends_closeBrace
            nofun rfl es es' (separated_eq_of_braced h)
          exact ⟨rfl, rfl⟩
      | lambda word ys body => cases word <;> simp [Primary.yield, braced, LambdaWord.kind] at h
      | _ => simp [Primary.yield, listed, braced] at h
  | .lambda word xs body, q, h => by
      cases q with
      | lambda word' ys body' =>
          simp only [Primary.yield, List.cons_append, List.append_assoc, List.cons.injEq,
            Terminal.mark.injEq] at h
          obtain rfl := LambdaWord.kind_injective h.1
          obtain ⟨rfl, htail⟩ := listed_names_injective h.2
          obtain ⟨rfl, rfl⟩ := Phrases.separated_injective ends_semicolon ends_closeBrace
            nofun rfl body body' (separated_eq_of_braced htail)
          exact ⟨rfl, rfl⟩
      | _ => cases word <;> simp [Primary.yield, listed, braced, LambdaWord.kind] at h
  | .letIn x v body, q, h => by
      cases q with
      | letIn y w body' =>
          simp only [Primary.yield, List.cons_append, List.append_assoc, List.cons.injEq,
            Terminal.name.injEq, true_and] at h
          obtain ⟨hvw, htail⟩ :=
            Phrase.yield_injective v w (stops_braced _ _) (stops_braced _ _) h.2
          cases hvw
          obtain ⟨rfl, rfl⟩ := Phrases.separated_injective ends_semicolon ends_closeBrace
            nofun rfl body body' (separated_eq_of_braced htail)
          exact ⟨by rw [Subtype.ext h.1], rfl⟩
      | lambda word ys body => cases word <;> simp [Primary.yield, LambdaWord.kind] at h
      | _ => simp [Primary.yield, listed, braced] at h
termination_by structural p => p

theorem Clause.yield_injective
    (p q : Clause) {us vs : List Terminal} (h : p.yield ++ us = q.yield ++ vs) :
    p = q ∧ us = vs := by
  obtain @⟨b, c, test, result⟩ := p
  obtain @⟨b', c', test', result'⟩ := q
  simp only [Clause.yield, List.cons_append, List.append_assoc, List.nil_append,
    List.cons.injEq, true_and] at h
  obtain ⟨htest, htail⟩ :=
    Phrase.yield_injective test test' (stops_mark ends_arrow _) (stops_mark ends_arrow _) h
  cases htest
  obtain ⟨hresult, hrest⟩ := Phrase.yield_injective result result'
    (stops_mark ends_closeParen _) (stops_mark ends_closeParen _) (List.cons.inj htail).2
  cases hresult
  exact ⟨rfl, (List.cons.inj hrest).2⟩
termination_by structural p

theorem Clauses.yield_injective
    {us vs : List Terminal} (hus : NotFirst .openParen us) (hvs : NotFirst .openParen vs) :
    ∀ p q : Clauses, p.yield ++ us = q.yield ++ vs → p = q ∧ us = vs
  | .nil, .nil, h => ⟨rfl, h⟩
  | .nil, .cons q qs, h => absurd hus (by
      obtain ⟨test, result⟩ := q
      simp_all [Clauses.yield, Clause.yield])
  | .cons p ps, .nil, h => absurd hvs (by
      obtain ⟨test, result⟩ := p
      simp [Clauses.yield, Clause.yield] at h
      simp [← h])
  | .cons p ps, .cons q qs, h => by
      simp only [Clauses.yield, List.append_assoc] at h
      obtain ⟨rfl, htail⟩ := Clause.yield_injective p q h
      obtain ⟨rfl, rfl⟩ := Clauses.yield_injective hus hvs ps qs htail
      exact ⟨rfl, rfl⟩
termination_by structural p => p

theorem Calls.yield_injective
    {us vs : List Terminal} (hus : NotFirst .openParen us) (hvs : NotFirst .openParen vs) :
    ∀ p q : Calls, p.yield ++ us = q.yield ++ vs → p = q ∧ us = vs
  | .nil, .nil, h => ⟨rfl, h⟩
  | .nil, .cons _ _, h => absurd hus (by simp_all [Calls.yield, listed])
  | .cons _ _, .nil, h => absurd hvs (by simp [Calls.yield, listed] at h; simp [← h])
  | .cons p ps, .cons q qs, h => by
      simp only [Calls.yield, List.append_assoc] at h
      obtain ⟨rfl, htail⟩ := Phrases.separated_injective ends_comma ends_closeParen
        nofun rfl p q (separated_eq_of_listed h)
      obtain ⟨rfl, rfl⟩ := Calls.yield_injective hus hvs ps qs htail
      exact ⟨rfl, rfl⟩
termination_by structural p => p

theorem Phrases.separated_injective
    {sep close : Kind} {us vs : List Terminal}
    (hsep : Ends sep) (hclose : Ends close) (hne : sep ≠ close)
    (hstart : (Terminal.mark close).starts = false) :
    ∀ p q : Phrases, separated sep p.yields ++ .mark close :: us =
      separated sep q.yields ++ .mark close :: vs → p = q ∧ us = vs
  | .nil, .nil, h => by simpa [Phrases.yields, separated] using h
  | .nil, .cons e es, h => by
      obtain ⟨u, ws, hu, hstarts⟩ := e.yield_head
      simp only [Phrases.yields, separated, hu, List.nil_append, List.cons_append,
        List.cons.injEq] at h
      simp [← h.1, hstart] at hstarts
  | .cons e es, .nil, h => by
      obtain ⟨u, ws, hu, hstarts⟩ := e.yield_head
      simp only [Phrases.yields, separated, hu, List.nil_append, List.cons_append,
        List.cons.injEq] at h
      simp [h.1, hstart] at hstarts
  | .cons e es, .cons e' es', h => by
      simp only [Phrases.yields, separated, List.append_assoc] at h
      obtain ⟨he, htail⟩ := Phrase.yield_injective e e'
        (stops_preceded hsep hclose _ _) (stops_preceded hsep hclose _ _) h
      cases he
      obtain ⟨rfl, rfl⟩ := Phrases.preceded_injective hsep hclose hne es es' htail
      exact ⟨rfl, rfl⟩
termination_by structural p => p

theorem Phrases.preceded_injective
    {sep close : Kind} {us vs : List Terminal}
    (hsep : Ends sep) (hclose : Ends close) (hne : sep ≠ close) :
    ∀ p q : Phrases, preceded sep p.yields ++ .mark close :: us =
      preceded sep q.yields ++ .mark close :: vs → p = q ∧ us = vs
  | .nil, .nil, h => by simpa [Phrases.yields, preceded] using h
  | .nil, .cons e es, h => by simp [Phrases.yields, preceded, hne.symm] at h
  | .cons e es, .nil, h => by simp [Phrases.yields, preceded, hne] at h
  | .cons e es, .cons e' es', h => by
      simp only [Phrases.yields, preceded, List.cons_append, List.append_assoc,
        List.cons.injEq, true_and] at h
      obtain ⟨he, htail⟩ := Phrase.yield_injective e e'
        (stops_preceded hsep hclose _ _) (stops_preceded hsep hclose _ _) h
      cases he
      obtain ⟨rfl, rfl⟩ := Phrases.preceded_injective hsep hclose hne es es' htail
      exact ⟨rfl, rfl⟩
termination_by structural p => p

end

/-- A derivation is determined by its terminals. -/
theorem Derivation.yield_injective : Function.Injective Derivation.yield := by
  rintro ⟨b, p⟩ ⟨c, q⟩ h
  have hstops : ∀ b, Stops b [] := fun b => ⟨nofun, nofun, fun _ => nofun⟩
  refine (Phrase.yield_injective p q (hstops b) (hstops c) ?_).1
  simpa [Derivation.yield] using h

end Grammar

end BlockLang
