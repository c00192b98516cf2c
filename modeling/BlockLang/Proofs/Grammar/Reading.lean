import BlockLang.Proofs.Grammar.Unambiguous

/-!
# Reading phrases from the left

Each predicate here says that a list of terminals starts with the yield of a
phrase, and that `P` holds of the value of the phrase and the terminals after it.
The lemmas say how such a reading goes on when the first terminal is known; the
main one, `phraseThen_cons`, lists the forms of an expression by their first
terminal.
-/

namespace BlockLang

namespace Grammar

/-- A mark, and then `P`. -/
def MarkThen (kind : Kind) (P : List Terminal → Prop) (us : List Terminal) : Prop :=
  ∃ us', us = .mark kind :: us' ∧ P us'

/-- A name that is not reserved, and then `P`. -/
def NameThen (P : Text → List Terminal → Prop) (us : List Terminal) : Prop :=
  ∃ (x : Name) (us' : List Terminal), us = .name x :: us' ∧ P x us'

/-- Further names after commas, a closing parenthesis, and then `P`. -/
def MoreNamesThen (P : List Text → List Terminal → Prop) (us : List Terminal) : Prop :=
  ∃ (xs : List Name) (us' : List Terminal),
    us = preceded .comma (nameYields xs) ++ .mark .closeParen :: us' ∧ P (xs.map (·.val)) us'

/-- Names separated by commas, a closing parenthesis, and then `P`. -/
def NamesThen (P : List Text → List Terminal → Prop) (us : List Terminal) : Prop :=
  ∃ (xs : List Name) (us' : List Terminal),
    us = separated .comma (nameYields xs) ++ .mark .closeParen :: us' ∧ P (xs.map (·.val)) us'

/-- An expression that reaches as far as it can, and then `P`. -/
def PhraseThen (P : Source → List Terminal → Prop) (us : List Terminal) : Prop :=
  ∃ (b : Bool) (p : Phrase b) (us' : List Terminal),
    us = p.yield ++ us' ∧ (b = true → NotFirst .openBrace us') ∧ P p.value us'

/-- Further expressions, each after a mark, a closing mark, and then `P`. -/
def MoreThen (sep close : Kind) (P : List Source → List Terminal → Prop)
    (us : List Terminal) : Prop :=
  ∃ (es : Phrases) (us' : List Terminal),
    us = preceded sep es.yields ++ .mark close :: us' ∧ P es.values us'

/-- Expressions with a mark between neighbours, a closing mark, and then `P`. -/
def SeriesThen (sep close : Kind) (P : List Source → List Terminal → Prop)
    (us : List Terminal) : Prop :=
  ∃ (es : Phrases) (us' : List Terminal),
    us = separated sep es.yields ++ .mark close :: us' ∧ P es.values us'

/-- Argument lists of the operator `e`, and then `P`. -/
def CallsThen (P : Source → List Terminal → Prop) (e : Source) (us : List Terminal) : Prop :=
  ∃ (calls : Calls) (us' : List Terminal), us = calls.yield ++ us' ∧ P (calls.value e) us'

/-- Clauses, and then `P`. -/
def ClausesThen (P : List (Source × Source) → List Terminal → Prop)
    (us : List Terminal) : Prop :=
  ∃ (clauses : Clauses) (us' : List Terminal),
    us = clauses.yield ++ us' ∧ P clauses.values us'

/-- The body of a let that binds `x` to `e`, or none, and then `P`. A brace is
always the opening brace of the body. -/
def LetBodyThen (P : Source → List Terminal → Prop) (x : Text) (e : Source)
    (us : List Terminal) : Prop :=
  (NotFirst .openBrace us ∧ P (.letIn () x e [.placeholder]) us) ∨
    MarkThen .openBrace
      (SeriesThen .semicolon .closeBrace fun es => CallsThen P (.letIn () x e es)) us

/-! ## Sequences -/

@[simp] theorem not_markThen_nil {kind : Kind} {P : List Terminal → Prop} :
    ¬MarkThen kind P [] := by
  rintro ⟨us', ⟨⟩, -⟩

@[simp] theorem markThen_cons
    {kind : Kind} {P : List Terminal → Prop} {u : Terminal} {us : List Terminal} :
    MarkThen kind P (u :: us) ↔ u = .mark kind ∧ P us := by
  constructor
  · rintro ⟨us', ⟨⟩, h⟩
    exact ⟨rfl, h⟩
  · rintro ⟨rfl, h⟩
    exact ⟨us, rfl, h⟩

@[simp] theorem not_nameThen_nil {P : Text → List Terminal → Prop} : ¬NameThen P [] := by
  rintro ⟨x, us', ⟨⟩, -⟩

theorem nameThen_cons
    {P : Text → List Terminal → Prop} {u : Terminal} {us : List Terminal} :
    NameThen P (u :: us) ↔ ∃ x, u = .name x ∧ isReserved x = false ∧ P x us := by
  constructor
  · rintro ⟨x, us', ⟨⟩, h⟩
    exact ⟨x, rfl, x.property, h⟩
  · rintro ⟨x, rfl, hx, h⟩
    exact ⟨⟨x, hx⟩, us, rfl, h⟩

@[simp] theorem not_moreNamesThen_nil {P : List Text → List Terminal → Prop} :
    ¬MoreNamesThen P [] := by
  rintro ⟨xs, us', h, -⟩
  cases xs <;> simp [nameYields, preceded] at h

theorem moreNamesThen_cons
    {P : List Text → List Terminal → Prop} {u : Terminal} {us : List Terminal} :
    MoreNamesThen P (u :: us) ↔
      (u = .mark .comma ∧ NameThen (fun x => MoreNamesThen fun xs => P (x :: xs)) us) ∨
        (u = .mark .closeParen ∧ P [] us) := by
  constructor
  · rintro ⟨xs, us', h, hP⟩
    cases xs with
    | nil =>
        cases h
        exact .inr ⟨rfl, hP⟩
    | cons x xs =>
        cases h
        exact .inl ⟨rfl, x, _, rfl, xs, us', rfl, hP⟩
  · rintro (⟨rfl, x, _, rfl, xs, us', rfl, hP⟩ | ⟨rfl, hP⟩)
    · exact ⟨x :: xs, us', rfl, hP⟩
    · exact ⟨[], us, rfl, hP⟩

theorem namesThen_iff {P : List Text → List Terminal → Prop} {us : List Terminal} :
    NamesThen P us ↔
      MarkThen .closeParen (P []) us ∨
        NameThen (fun x => MoreNamesThen fun xs => P (x :: xs)) us := by
  constructor
  · rintro ⟨xs, us', rfl, hP⟩
    cases xs with
    | nil => exact .inl ⟨us', rfl, hP⟩
    | cons x xs => exact .inr ⟨x, _, rfl, xs, us', rfl, hP⟩
  · rintro (⟨us', rfl, hP⟩ | ⟨x, _, rfl, xs, us', rfl, hP⟩)
    · exact ⟨[], us', rfl, hP⟩
    · exact ⟨x :: xs, us', rfl, hP⟩

@[simp] theorem not_phraseThen_nil {P : Source → List Terminal → Prop} : ¬PhraseThen P [] := by
  rintro ⟨b, p, us', h, -⟩
  obtain ⟨u, us, hu, -⟩ := p.yield_head
  simp [hu] at h

@[simp] theorem not_moreThen_nil
    {sep close : Kind} {P : List Source → List Terminal → Prop} :
    ¬MoreThen sep close P [] := by
  rintro ⟨es, us', h, -⟩
  cases es <;> simp [Phrases.yields, preceded] at h

theorem moreThen_cons
    {sep close : Kind} (hsep : Ends sep) (hclose : Ends close)
    {P : List Source → List Terminal → Prop} {u : Terminal} {us : List Terminal} :
    MoreThen sep close P (u :: us) ↔
      (u = .mark sep ∧ PhraseThen (fun e => MoreThen sep close fun es => P (e :: es)) us) ∨
        (u = .mark close ∧ P [] us) := by
  constructor
  · rintro ⟨es, us', h, hP⟩
    cases es with
    | nil =>
        cases h
        exact .inr ⟨rfl, hP⟩
    | cons e es =>
        simp only [Phrases.yields, preceded, List.cons_append, List.append_assoc,
          List.cons.injEq] at h
        exact .inl ⟨h.1, _, e, _, h.2, (stops_preceded hsep hclose _ _).brace, es, us', rfl, hP⟩
  · rintro (⟨rfl, b, e, _, rfl, -, es, us', rfl, hP⟩ | ⟨rfl, hP⟩)
    · exact ⟨.cons e es, us', by simp [Phrases.yields, preceded], hP⟩
    · exact ⟨.nil, us, rfl, hP⟩

theorem seriesThen_iff
    {sep close : Kind} (hsep : Ends sep) (hclose : Ends close)
    {P : List Source → List Terminal → Prop} {us : List Terminal} :
    SeriesThen sep close P us ↔
      MarkThen close (P []) us ∨
        PhraseThen (fun e => MoreThen sep close fun es => P (e :: es)) us := by
  constructor
  · rintro ⟨es, us', rfl, hP⟩
    cases es with
    | nil => exact .inl ⟨us', rfl, hP⟩
    | cons e es =>
        refine .inr ⟨_, e, preceded sep es.yields ++ .mark close :: us', ?_,
          (stops_preceded hsep hclose _ _).brace, es, us', rfl, hP⟩
        simp [Phrases.yields, separated]
  · rintro (⟨us', rfl, hP⟩ | ⟨b, e, _, rfl, -, es, us', rfl, hP⟩)
    · exact ⟨.nil, us', rfl, hP⟩
    · exact ⟨.cons e es, us', by simp [Phrases.yields, separated], hP⟩

@[simp] theorem callsThen_nil {P : Source → List Terminal → Prop} {e : Source} :
    CallsThen P e [] ↔ P e [] := by
  constructor
  · rintro ⟨calls, us', h, hP⟩
    cases calls with
    | nil =>
        cases h
        exact hP
    | cons operands rest => simp [Calls.yield, listed] at h
  · exact fun hP => ⟨.nil, [], rfl, hP⟩

theorem callsThen_cons
    {P : Source → List Terminal → Prop} {e : Source} {u : Terminal} {us : List Terminal} :
    CallsThen P e (u :: us) ↔
      (u = .mark .openParen ∧
        SeriesThen .comma .closeParen (fun es => CallsThen P (.apply () e es)) us) ∨
        P e (u :: us) := by
  constructor
  · rintro ⟨calls, us', h, hP⟩
    cases calls with
    | nil =>
        cases h
        exact .inr hP
    | cons operands rest =>
        simp only [Calls.yield, listed, List.cons_append, List.append_assoc, List.cons.injEq]
          at h
        exact .inl ⟨h.1, operands, rest.yield ++ us', h.2, rest, us', rfl, hP⟩
  · rintro (⟨rfl, operands, _, rfl, rest, us', rfl, hP⟩ | hP)
    · exact ⟨.cons operands rest, us', by simp [Calls.yield, listed], hP⟩
    · exact ⟨.nil, u :: us, rfl, hP⟩

@[simp] theorem clausesThen_nil {P : List (Source × Source) → List Terminal → Prop} :
    ClausesThen P [] ↔ P [] [] := by
  constructor
  · rintro ⟨clauses, us', h, hP⟩
    cases clauses with
    | nil =>
        cases h
        exact hP
    | cons clause rest =>
        obtain ⟨test, result⟩ := clause
        simp [Clauses.yield, Clause.yield] at h
  · exact fun hP => ⟨.nil, [], rfl, hP⟩

/-- The clause after an opening parenthesis, and then `P`. -/
def ClauseThen (P : Source × Source → List Terminal → Prop) : List Terminal → Prop :=
  PhraseThen fun test => MarkThen .arrow <| PhraseThen fun result =>
    MarkThen .closeParen (P (test, result))

theorem clauseThen_iff
    {P : Source × Source → List Terminal → Prop} {us : List Terminal} :
    ClauseThen P us ↔
      ∃ (clause : Clause) (us' : List Terminal),
        .mark .openParen :: us = clause.yield ++ us' ∧ P clause.value us' := by
  constructor
  · rintro ⟨b, test, _, rfl, -, _, rfl, c, result, _, rfl, -, us', rfl, hP⟩
    exact ⟨.mk test result, us', by simp [Clause.yield], hP⟩
  · rintro ⟨⟨test, result⟩, us', h, hP⟩
    simp only [Clause.yield, List.cons_append, List.append_assoc, List.nil_append,
      List.cons.injEq, true_and] at h
    exact ⟨_, test, _, h, (stops_mark ends_arrow _).brace, _, rfl, _, result, _, rfl,
      (stops_mark ends_closeParen _).brace, us', rfl, hP⟩

theorem clausesThen_cons
    {P : List (Source × Source) → List Terminal → Prop} {u : Terminal} {us : List Terminal} :
    ClausesThen P (u :: us) ↔
      (u = .mark .openParen ∧ ClauseThen (fun c => ClausesThen fun cs => P (c :: cs)) us) ∨
        P [] (u :: us) := by
  simp only [clauseThen_iff]
  constructor
  · rintro ⟨clauses, us', h, hP⟩
    cases clauses with
    | nil =>
        cases h
        exact .inr hP
    | cons clause rest =>
        rw [Clauses.yield, List.append_assoc] at h
        obtain rfl : u = .mark .openParen := by
          obtain ⟨test, result⟩ := clause
          exact (List.cons.inj h).1
        exact .inl ⟨rfl, clause, rest.yield ++ us', h, rest, us', rfl, hP⟩
  · rintro (⟨rfl, clause, _, h, rest, us', rfl, hP⟩ | hP)
    · exact ⟨.cons clause rest, us', by rw [h, Clauses.yield, List.append_assoc], hP⟩
    · exact ⟨.nil, u :: us, rfl, hP⟩

/-! ## Expressions -/

/-- The rest of an expression whose first terminal is given, and then `P`. -/
def RestThen (P : Source → List Terminal → Prop) : Terminal → List Terminal → Prop
  | .name x, us =>
    isReserved x = false ∧
      (MarkThen .equals (PhraseThen fun e => P (.assign () x e)) us ∨
        CallsThen P (.identifier x) us)
  | .integer literal, us => ∃ n, Integer.Denotes literal n ∧ CallsThen P (.integer n) us
  | .string s, us => CallsThen P (.string s) us
  | .mark .openParen, us => NamesThen (fun xs => CallsThen P (.parameters () xs)) us
  | .mark .openBrace, us =>
    SeriesThen .semicolon .closeBrace (fun es => CallsThen P (.block () es)) us
  | .mark .lambda, us | .mark .lambdaSign, us =>
    MarkThen .openParen
      (NamesThen fun xs => MarkThen .openBrace <|
        SeriesThen .semicolon .closeBrace fun es => CallsThen P (.lambda () xs es)) us
  | .mark .cond, us =>
    MarkThen .openParen
      (ClauseThen fun c => ClausesThen fun cs => P (.cond () (c :: cs))) us
  | .mark .define, us =>
    NameThen (fun x => MarkThen .equals <| PhraseThen fun e => P (.define () x e)) us
  | .mark .letIn, us => NameThen (fun x => MarkThen .equals <| PhraseThen (LetBodyThen P x)) us
  | .mark _, _ => False

theorem restThen_of_primary
    {P : Source → List Terminal → Prop} {u : Terminal} {us us' : List Terminal}
    (p : Primary) (h : u :: us = p.yield ++ us') (hP : CallsThen P p.value us') :
    RestThen P u us := by
  cases p with
  | name x =>
      cases h
      exact ⟨x.property, .inr hP⟩
  | integer n =>
      cases h
      exact ⟨n.value, n.denotes, hP⟩
  | string s =>
      cases h
      exact hP
  | parameters xs =>
      simp only [Primary.yield, listed, List.cons_append, List.append_assoc, List.nil_append,
        List.cons.injEq] at h
      obtain ⟨rfl, rfl⟩ := h
      exact ⟨xs, us', rfl, hP⟩
  | block es =>
      simp only [Primary.yield, braced, List.cons_append, List.append_assoc, List.nil_append,
        List.cons.injEq] at h
      obtain ⟨rfl, rfl⟩ := h
      exact ⟨es, us', rfl, hP⟩
  | lambda word xs body =>
      simp only [Primary.yield, listed, braced, List.cons_append, List.append_assoc,
        List.nil_append, List.cons.injEq] at h
      obtain ⟨rfl, rfl⟩ := h
      cases word <;> exact ⟨_, rfl, xs, _, rfl, _, rfl, body, us', rfl, hP⟩
  | letIn x value body =>
      simp only [Primary.yield, braced, List.cons_append, List.append_assoc, List.nil_append,
        List.cons.injEq] at h
      obtain ⟨rfl, rfl⟩ := h
      exact ⟨x, _, rfl, _, rfl, false, value, _, rfl, nofun, .inr ⟨_, rfl, body, us', rfl, hP⟩⟩

theorem restThen_of_phraseThen
    {P : Source → List Terminal → Prop} {u : Terminal} {us : List Terminal}
    (h : PhraseThen P (u :: us)) : RestThen P u us := by
  obtain ⟨b, p, us', h, hbrace, hP⟩ := h
  cases p with
  | simple p =>
      obtain ⟨head, calls⟩ := p
      rw [Phrase.yield, Postfix.yield, List.append_assoc] at h
      exact restThen_of_primary head h ⟨calls, us', rfl, hP⟩
  | define x value =>
      cases h
      exact ⟨x, _, rfl, _, rfl, b, value, us', rfl, hbrace, hP⟩
  | assign x value =>
      cases h
      exact ⟨x.property, .inl ⟨_, rfl, b, value, us', rfl, hbrace, hP⟩⟩
  | bareLet x value =>
      cases h
      exact ⟨x, _, rfl, _, rfl, _, value, us', rfl, fun _ => hbrace rfl, .inl ⟨hbrace rfl, hP⟩⟩
  | cond first rest =>
      obtain ⟨test, result⟩ := first
      simp only [Phrase.yield, Clause.yield, List.cons_append, List.append_assoc,
        List.nil_append, List.cons.injEq] at h
      obtain ⟨rfl, rfl⟩ := h
      exact ⟨_, rfl, _, test, _, rfl, (stops_mark ends_arrow _).brace, _, rfl, _, result, _, rfl,
        (stops_mark ends_closeParen _).brace, _, rfl, rest, us', rfl, hP⟩

/-- Argument lists after a primary phrase make a phrase of it. -/
theorem phraseThen_of_primary
    {P : Source → List Terminal → Prop} {us us' : List Terminal}
    (p : Primary) (h : us = p.yield ++ us') (hP : CallsThen P p.value us') :
    PhraseThen P us := by
  obtain ⟨calls, us'', rfl, hP⟩ := hP
  refine ⟨false, .simple (.mk p calls), us'', ?_, nofun, hP⟩
  rw [h, Phrase.yield, Postfix.yield, List.append_assoc]

theorem phraseThen_of_restThen
    {P : Source → List Terminal → Prop} {u : Terminal} {us : List Terminal}
    (h : RestThen P u us) : PhraseThen P (u :: us) := by
  cases u with
  | name x =>
      obtain ⟨hx, ⟨_, rfl, b, value, us', rfl, hbrace, hP⟩ | hP⟩ := h
      · exact ⟨b, .assign ⟨x, hx⟩ value, us', rfl, hbrace, hP⟩
      · exact phraseThen_of_primary (.name ⟨x, hx⟩) rfl hP
  | integer literal =>
      obtain ⟨n, hn, hP⟩ := h
      exact phraseThen_of_primary (.integer ⟨literal, n, hn⟩) rfl hP
  | string s => exact phraseThen_of_primary (.string s) rfl h
  | mark kind =>
      cases kind with
      | openParen =>
          obtain ⟨xs, us', rfl, hP⟩ := h
          exact phraseThen_of_primary (.parameters xs) (by simp [Primary.yield, listed]) hP
      | openBrace =>
          obtain ⟨es, us', rfl, hP⟩ := h
          exact phraseThen_of_primary (.block es) (by simp [Primary.yield, braced]) hP
      | lambda =>
          obtain ⟨_, rfl, xs, _, rfl, _, rfl, body, us', rfl, hP⟩ := h
          exact phraseThen_of_primary (.lambda .letters xs body)
            (by simp [Primary.yield, listed, braced, LambdaWord.kind]) hP
      | lambdaSign =>
          obtain ⟨_, rfl, xs, _, rfl, _, rfl, body, us', rfl, hP⟩ := h
          exact phraseThen_of_primary (.lambda .sign xs body)
            (by simp [Primary.yield, listed, braced, LambdaWord.kind]) hP
      | cond =>
          obtain ⟨_, rfl, h⟩ := h
          obtain ⟨clause, _, h, rest, us', rfl, hP⟩ := clauseThen_iff.mp h
          exact ⟨false, .cond clause rest, us', by simp [Phrase.yield, h], nofun, hP⟩
      | define =>
          obtain ⟨x, _, rfl, _, rfl, b, value, us', rfl, hbrace, hP⟩ := h
          exact ⟨b, .define x value, us', rfl, hbrace, hP⟩
      | letIn =>
          obtain ⟨x, _, rfl, _, rfl, b, value, us', rfl, hbrace, hP⟩ := h
          obtain ⟨hfirst, hP⟩ | ⟨_, rfl, body, us'', rfl, hP⟩ := hP
          · exact ⟨true, .bareLet x value, us', rfl, fun _ => hfirst, hP⟩
          · -- a brace follows the value, so it does not end in a let without one
            cases b with
            | false =>
                exact phraseThen_of_primary (.letIn x value body)
                  (by simp [Primary.yield, braced]) hP
            | true => exact absurd rfl (hbrace rfl)
      | _ => exact h.elim

/-- The forms of an expression by their first terminal. -/
theorem phraseThen_cons
    {P : Source → List Terminal → Prop} {u : Terminal} {us : List Terminal} :
    PhraseThen P (u :: us) ↔ RestThen P u us :=
  ⟨restThen_of_phraseThen, phraseThen_of_restThen⟩

end Grammar

end BlockLang
