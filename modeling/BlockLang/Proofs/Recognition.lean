import BlockLang.Proofs.Grammar.Reading
import BlockLang.Proofs.Trivia

/-!
# The parser recognises the grammar

The contexts of the automaton hold expressions that wait for a part. `Resumes` says,
in terms of the grammar alone, which terminals take a complete expression through all
waiting contexts to a final expression, and `Accepts` says the same of every state. One
step of the automaton follows these relations exactly, so a run reaches the end of its
tokens if and only if they are accepted. In front of an expression, acceptance is
derivation, and the parser reads what the automaton does.
-/

namespace BlockLang

open Grammar

/-! ## Tokens and terminals -/

namespace Token

theorem terminal_eq_mark_iff {t : Token} {kind : Kind} :
    t.terminal = .mark kind ↔
      t.kind = kind ∧ kind ≠ .identifier ∧ kind ≠ .integer ∧ kind ≠ .string := by
  unfold terminal
  split
  · simp_all
  · simp_all
  · simp_all
  · rename_i hidentifier hinteger hstring
    rw [Terminal.mark.injEq]
    constructor
    · rintro rfl
      exact ⟨rfl, hidentifier, hinteger, hstring⟩
    · exact fun h => h.1

theorem terminal_eq_name_iff {t : Token} {x : Text} :
    t.terminal = .name x ↔ t.kind = .identifier ∧ t.literal = x := by
  unfold terminal
  split <;> simp_all

end Token

namespace Automaton

/-! ## What a state accepts -/

/-- The terminals take the complete expression `e` through the contexts to the
expression `r`. -/
def Resumes (r : Source) : List Context → Source → List Terminal → Prop
  | [], e => fun us => us = [] ∧ e = r
  | .binding .define x :: k, e => Resumes r k (.define () x e)
  | .binding .assign x :: k, e => Resumes r k (.assign () x e)
  | .binding .letIn x :: k, e => LetBodyThen (Resumes r k) x e
  | .statement role done :: k, e =>
    MoreThen .semicolon .closeBrace fun es =>
      CallsThen (Resumes r k) (role.close (done.reverse ++ e :: es))
  | .argument operator done :: k, e =>
    MoreThen .comma .closeParen fun es =>
      CallsThen (Resumes r k) (.apply () operator (done.reverse ++ e :: es))
  | .test clauses :: k, e =>
    MarkThen .arrow <| PhraseThen fun result => MarkThen .closeParen <|
      ClausesThen fun cs => Resumes r k (.cond () (clauses.reverse ++ (e, result) :: cs))
  | .result clauses test :: k, e =>
    MarkThen .closeParen <|
      ClausesThen fun cs => Resumes r k (.cond () (clauses.reverse ++ (test, e) :: cs))

/-- What goes on after a closed parameter list. -/
def AfterList (r : Source) (k : List Context) (xs : List Text) :
    ListRole → List Terminal → Prop
  | .plain => CallsThen (Resumes r k) (.parameters () xs)
  | .lambda =>
    MarkThen .openBrace <| SeriesThen .semicolon .closeBrace fun es =>
      CallsThen (Resumes r k) (.lambda () xs es)

/-- The terminals take a state to the expression `r`. -/
def Accepts (r : Source) (s : State) : List Terminal → Prop :=
  let k := s.contexts
  match s.next with
  | .expression => PhraseThen (Resumes r k)
  | .statementOrClose role =>
    SeriesThen .semicolon .closeBrace fun es => CallsThen (Resumes r k) (role.close es)
  | .argumentOrClose operator =>
    SeriesThen .comma .closeParen fun es => CallsThen (Resumes r k) (.apply () operator es)
  | .afterName x => fun us =>
    MarkThen .equals (PhraseThen fun e => Resumes r k (.assign () x e)) us ∨
      CallsThen (Resumes r k) (.identifier x) us
  | .afterExpression e => CallsThen (Resumes r k) e
  | .lambdaOpen => MarkThen .openParen <| NamesThen fun xs => AfterList r k xs .lambda
  | .parameterOrClose role => NamesThen fun xs => AfterList r k xs role
  | .parameter role done =>
    NameThen fun x => MoreNamesThen fun xs => AfterList r k (done.reverse ++ x :: xs) role
  | .afterParameter role done =>
    MoreNamesThen fun xs => AfterList r k (done.reverse ++ xs) role
  | .bodyOpen xs => AfterList r k xs .lambda
  | .clauseOpen =>
    MarkThen .openParen <| ClauseThen fun c => ClausesThen fun cs =>
      Resumes r k (.cond () (c :: cs))
  | .afterClause clauses =>
    ClausesThen fun cs => Resumes r k (.cond () (clauses.reverse ++ cs))
  | .bindingName form =>
    NameThen fun x => MarkThen .equals <| PhraseThen (Resumes r (.binding form x :: k))
  | .bindingEquals form x => MarkThen .equals <| PhraseThen (Resumes r (.binding form x :: k))

/-- A move goes on to a state that accepts. -/
def Leads (r : Source) (us : List Terminal) (m : Move) : Prop :=
  ∃ s, m = .shift s ∧ Accepts r s us

variable {r : Source} {us : List Terminal}

@[simp] theorem leads_shift {s : State} : Leads r us (.shift s) ↔ Accepts r s us := by
  constructor
  · rintro ⟨_, ⟨⟩, h⟩
    exact h
  · exact fun h => ⟨s, rfl, h⟩

@[simp] theorem not_leads_finish {e : Source} : ¬Leads r us (.finish e) := by
  rintro ⟨_, ⟨⟩, -⟩

@[simp] theorem not_leads_fail {c : Complaint} {consumed : Bool} :
    ¬Leads r us (.fail c consumed) := by
  rintro ⟨_, ⟨⟩, -⟩

@[simp] theorem leads_expect {wanted : Kind} {t : Token} {s : State} :
    Leads r us (expect wanted (some t) s) ↔ t.kind = wanted ∧ Accepts r s us := by
  by_cases h : t.kind = wanted <;> simp [expect, refuse, h]

theorem leads_expectName {t : Token} {s : Text → State} :
    Leads r us (expectName (some t) s) ↔
      ∃ x, t.terminal = .name x ∧ isReserved x = false ∧ Accepts r (s x) us := by
  simp only [Token.terminal_eq_name_iff]
  by_cases hkind : t.kind = .identifier
  · by_cases hname : isReserved t.literal = true <;> simp_all [expectName]
  · simp [expectName, hkind, refuse]

theorem resumes_cons {k : List Context} {e : Source} {t : Token} :
    Resumes r k e (t.terminal :: us) ↔ Leads r us (reduce (some t) e k) := by
  induction k generalizing e with
  | nil => simp [Resumes, reduce]
  | cons c k ih =>
      cases c with
      | statement role done =>
          simp only [Resumes, moreThen_cons ends_semicolon ends_closeBrace, reduce]
          by_cases h : t.kind = .semicolon
          · simp [h, Token.terminal_eq_mark_iff, Accepts, Resumes]
          · simp [h, Token.terminal_eq_mark_iff, Accepts]
      | argument operator done =>
          simp only [Resumes, moreThen_cons ends_comma ends_closeParen, reduce]
          by_cases h : t.kind = .comma
          · simp [h, Token.terminal_eq_mark_iff, Accepts, Resumes]
          · simp [h, Token.terminal_eq_mark_iff, Accepts]
      | test clauses => simp [Resumes, reduce, Token.terminal_eq_mark_iff, Accepts]
      | result clauses test => simp [Resumes, reduce, Token.terminal_eq_mark_iff, Accepts]
      | binding form x =>
          cases form with
          | define => simpa [Resumes, reduce] using ih
          | assign => simpa [Resumes, reduce] using ih
          | letIn =>
              by_cases h : t.kind = .openBrace
              · simp [Resumes, reduce, LetBodyThen, Token.terminal_eq_mark_iff, h, Accepts,
                  BlockRole.close]
              · simp [Resumes, reduce, LetBodyThen, Token.terminal_eq_mark_iff, h, ih]

theorem resumes_nil {k : List Context} {e : Source} :
    Resumes r k e [] ↔ reduce none e k = .finish r := by
  induction k generalizing e with
  | nil => simp [Resumes, reduce]
  | cons c k ih =>
      cases c with
      | statement role done => simp [Resumes, reduce, expect, refuse]
      | argument operator done => simp [Resumes, reduce, expect, refuse]
      | test clauses => simp [Resumes, reduce, expect, refuse]
      | result clauses test => simp [Resumes, reduce, expect, refuse]
      | binding form x =>
          cases form with
          | define => simpa [Resumes, reduce] using ih
          | assign => simpa [Resumes, reduce] using ih
          | letIn => simp [Resumes, reduce, LetBodyThen, NotFirst, ih]

/-- No context waits for an opening parenthesis or an equals sign. -/
theorem not_leads_reduce
    {k : List Context} {e : Source} {t : Token} (h : t.kind = .openParen ∨ t.kind = .equals) :
    ¬Leads r us (reduce (some t) e k) := by
  induction k generalizing e with
  | nil => simp [reduce]
  | cons c k ih =>
      have hbrace : t.kind ≠ .openBrace := by rcases h with h | h <;> simp [h]
      cases c with
      | binding form x => cases form <;> simpa [reduce, hbrace] using ih
      | _ => rcases h with h | h <;> simp [reduce, h]

theorem callsThen_resumes_cons {k : List Context} {e : Source} {t : Token} :
    CallsThen (Resumes r k) e (t.terminal :: us) ↔ Leads r us (settle (some t) e k) := by
  rw [callsThen_cons, resumes_cons, settle]
  by_cases h : t.kind = .openParen
  · simp [h, Token.terminal_eq_mark_iff, not_leads_reduce (.inl h), Accepts]
  · simp [h, Token.terminal_eq_mark_iff]

theorem phraseThen_resumes_cons {k : List Context} {t : Token} :
    PhraseThen (Resumes r k) (t.terminal :: us) ↔ Leads r us (begin k (some t)) := by
  rw [phraseThen_cons]
  obtain ⟨kind, literal, position, length, line⟩ := t
  cases kind with
  | identifier =>
      by_cases h : isReserved literal = true
      · simp [Token.terminal, RestThen, begin, h]
      · simp [Token.terminal, RestThen, begin, h, Accepts]
  | integer =>
      simp only [Token.terminal, RestThen, begin, ← Integer.read_eq_ok_iff]
      cases hread : Integer.read literal with
      | ok n => simp [Accepts]
      | error flaw => cases flaw <;> simp
  | _ =>
      simp [Token.terminal, RestThen, begin, Accepts, AfterList, BlockRole.close, Resumes]

/-! ## Runs -/

theorem accepts_statementOrClose_cons
    {k : List Context} {role : BlockRole} {t : Token} :
    Accepts r ⟨.statementOrClose role, k⟩ (t.terminal :: us) ↔
      Leads r us (step ⟨.statementOrClose role, k⟩ (some t)) := by
  have hphrase :
      PhraseThen (Resumes r (.statement role [] :: k)) (t.terminal :: us) ↔
        Leads r us (begin (.statement role [] :: k) (some t)) :=
    phraseThen_resumes_cons
  simp only [Resumes, List.reverse_nil, List.nil_append] at hphrase
  simp only [Accepts, step, seriesThen_iff ends_semicolon ends_closeBrace, markThen_cons, hphrase]
  by_cases h : t.kind = .closeBrace
  · simp [h, Token.terminal_eq_mark_iff, Accepts, begin]
  · simp [h, Token.terminal_eq_mark_iff]

theorem accepts_argumentOrClose_cons
    {k : List Context} {operator : Source} {t : Token} :
    Accepts r ⟨.argumentOrClose operator, k⟩ (t.terminal :: us) ↔
      Leads r us (step ⟨.argumentOrClose operator, k⟩ (some t)) := by
  have hphrase :
      PhraseThen (Resumes r (.argument operator [] :: k)) (t.terminal :: us) ↔
        Leads r us (begin (.argument operator [] :: k) (some t)) :=
    phraseThen_resumes_cons
  simp only [Resumes, List.reverse_nil, List.nil_append] at hphrase
  simp only [Accepts, step, seriesThen_iff ends_comma ends_closeParen, markThen_cons, hphrase]
  by_cases h : t.kind = .closeParen
  · simp [h, Token.terminal_eq_mark_iff, Accepts, begin]
  · simp [h, Token.terminal_eq_mark_iff]

theorem accepts_afterName_cons {k : List Context} {x : Text} {t : Token} :
    Accepts r ⟨.afterName x, k⟩ (t.terminal :: us) ↔
      Leads r us (step ⟨.afterName x, k⟩ (some t)) := by
  simp only [Accepts, step, markThen_cons, callsThen_resumes_cons]
  by_cases h : t.kind = .equals
  · simp [h, Token.terminal_eq_mark_iff, Accepts, settle, not_leads_reduce (.inr h), Resumes]
  · simp [h, Token.terminal_eq_mark_iff]

theorem accepts_closeList {k : List Context} {role : ListRole} {xs : List Text} :
    Accepts r (closeList role xs k) us ↔ AfterList r k xs role us := by
  cases role <;> exact Iff.rfl

/-- One step of the automaton at a token follows what its state accepts. -/
theorem accepts_cons {s : State} {t : Token} :
    Accepts r s (t.terminal :: us) ↔ Leads r us (step s (some t)) := by
  obtain ⟨next, k⟩ := s
  cases next with
  | expression => exact phraseThen_resumes_cons
  | statementOrClose role => exact accepts_statementOrClose_cons
  | argumentOrClose operator => exact accepts_argumentOrClose_cons
  | afterName x => exact accepts_afterName_cons
  | afterExpression e => exact callsThen_resumes_cons
  | lambdaOpen => simp [Accepts, step, Token.terminal_eq_mark_iff]
  | parameterOrClose role =>
      simp only [Accepts, step, namesThen_iff, markThen_cons, nameThen_cons]
      by_cases h : t.kind = .closeParen
      · simp [h, Token.terminal_eq_mark_iff, Token.terminal_eq_name_iff, accepts_closeList]
      · simp [h, Token.terminal_eq_mark_iff, leads_expectName, Accepts]
  | parameter role done => simp [Accepts, step, leads_expectName, nameThen_cons]
  | afterParameter role done =>
      simp only [Accepts, step, moreNamesThen_cons]
      by_cases h : t.kind = .comma
      · simp [h, Token.terminal_eq_mark_iff, Accepts]
      · simp [h, Token.terminal_eq_mark_iff, accepts_closeList]
  | bodyOpen xs => simp [Accepts, step, AfterList, Token.terminal_eq_mark_iff, BlockRole.close]
  | clauseOpen => simp [Accepts, step, Token.terminal_eq_mark_iff, ClauseThen, Resumes]
  | afterClause clauses =>
      simp only [Accepts, step, clausesThen_cons, List.append_nil, resumes_cons]
      by_cases h : t.kind = .openParen
      · simp [h, Token.terminal_eq_mark_iff, Accepts, ClauseThen, Resumes,
          not_leads_reduce (.inl h)]
      · simp [h, Token.terminal_eq_mark_iff]
  | bindingName form => simp [Accepts, step, leads_expectName, nameThen_cons]
  | bindingEquals form x => simp [Accepts, step, Token.terminal_eq_mark_iff]

/-- At the end of the input the automaton stops where the state accepts nothing
more. -/
theorem accepts_nil {s : State} : Accepts r s [] ↔ step s none = .finish r := by
  obtain ⟨next, k⟩ := s
  cases next with
  | expression => simp [Accepts, step, begin]
  | statementOrClose role =>
      simp [Accepts, step, begin, seriesThen_iff ends_semicolon ends_closeBrace]
  | argumentOrClose operator =>
      simp [Accepts, step, begin, seriesThen_iff ends_comma ends_closeParen]
  | afterName x => simp [Accepts, step, settle, resumes_nil]
  | afterExpression e => simp [Accepts, step, settle, resumes_nil]
  | lambdaOpen => simp [Accepts, step, expect, refuse]
  | parameterOrClose role => simp [Accepts, step, expectName, refuse, namesThen_iff]
  | parameter role done => simp [Accepts, step, expectName, refuse]
  | afterParameter role done => simp [Accepts, step, expect, refuse]
  | bodyOpen xs => simp [Accepts, AfterList, step, expect, refuse]
  | clauseOpen => simp [Accepts, step, expect, refuse]
  | afterClause clauses => simp [Accepts, step, resumes_nil]
  | bindingName form => simp [Accepts, step, expectName, refuse]
  | bindingEquals form x => simp [Accepts, step, expect, refuse]

/-- A run reads all tokens and ends in an expression exactly if the state
accepts them. -/
theorem run_eq_ok_iff {s : State} {ts : List Token} :
    run s ts = (.ok r, []) ↔ Accepts r s (ts.map Token.terminal) := by
  induction ts generalizing s with
  | nil =>
      rw [List.map_nil, accepts_nil, run]
      cases step s none <;> simp
  | cons t ts ih =>
      rw [List.map_cons, accepts_cons, run]
      cases hstep : step s (some t) with
      | shift s' => simp [ih]
      | finish e => simp
      | fail c consumed => simp

end Automaton

/-- Parsing succeeds exactly on the tokens that a derivation yields, and gives
the expression that it derives. -/
theorem parse_eq_ok_iff_exists {tokens : List Token} {e : Source} :
    parse tokens = .ok e ↔
      ∃ d : Derivation, d.yield = terminals tokens ∧ d.value = e := by
  rw [parse_eq_ok_iff_run, Automaton.run_eq_ok_iff]
  constructor
  · rintro ⟨b, p, us', h, -, rfl, rfl⟩
    exact ⟨⟨b, p⟩, by simpa [Derivation.yield, terminals] using h.symm, rfl⟩
  · rintro ⟨⟨b, p⟩, h, rfl⟩
    exact ⟨b, p, [], by simpa [Derivation.yield, terminals] using h.symm,
      fun _ => by simp [NotFirst], rfl, rfl⟩

/-- The parser accepts exactly the grammar. No list of tokens has two
derivations, so the expression depends on the meaningful tokens only. -/
theorem parse_iff_unique_derivation (tokens : List Token) :
    (∀ e, parse tokens = .ok e ↔
      ∃ d : Derivation, d.yield = terminals tokens ∧ d.value = e) ∧
    (∀ d d' : Derivation, d.yield = terminals tokens → d'.yield = terminals tokens → d = d') ∧
    ∀ tokens' e, significant tokens' = significant tokens →
      (parse tokens' = .ok e ↔ parse tokens = .ok e) := by
  refine ⟨fun e => parse_eq_ok_iff_exists, fun d d' hd hd' => ?_, fun tokens' e h => ?_⟩
  · exact Derivation.yield_injective (hd.trans hd'.symm)
  · rw [parse_eq_ok_iff_exists, parse_eq_ok_iff_exists, terminals, terminals, h]

end BlockLang
