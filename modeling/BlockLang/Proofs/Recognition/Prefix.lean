import BlockLang.Proofs.Recognition

/-!
# Prefixes of the input

The automaton reads from left to right and looks at one token at a time. So either it
gets through a list of tokens, and everything that comes after them is up to
the state that it reaches, or it stops at one of them, and nothing that comes
after them matters. An error is incomplete exactly in the first case. In the second
one it points at the token where the automaton has stopped.
-/

namespace BlockLang

namespace Automaton

/-- The state of the automaton after it has shifted all tokens, if it can. -/
def shifted (s : State) : List Token → Option State
  | [] => some s
  | t :: ts =>
    match step s (some t) with
    | .shift s' => shifted s' ts
    | _ => none

theorem run_append_of_shifted
    {s s' : State} {ts : List Token} (h : shifted s ts = some s') (us : List Token) :
    run s (ts ++ us) = run s' us := by
  induction ts generalizing s with
  | nil =>
      obtain rfl : s = s' := by simpa [shifted] using h
      rfl
  | cons t ts ih =>
      rw [List.cons_append, run]
      rw [shifted] at h
      cases hstep : step s (some t) with
      | shift s₁ => exact ih (by simpa [hstep] using h)
      | finish e => simp [hstep] at h
      | fail c consumed => simp [hstep] at h

/-! ## The end of the input -/

theorem reduce_none_cases (e : Source) (k : List Context) :
    (∃ r, reduce none e k = .finish r) ∨
      ∃ wanted, reduce none e k = .fail (.ended wanted) false := by
  induction k generalizing e with
  | nil => exact .inl ⟨e, rfl⟩
  | cons c k ih =>
      cases c with
      | binding form x => cases form <;> exact ih _
      | _ => exact .inr ⟨_, rfl⟩

/-- At the end of the input the automaton is done, or it complains that the input
has ended. -/
theorem step_none_cases (s : State) :
    (∃ r, step s none = .finish r) ∨
      ∃ c, step s none = .fail c false ∧ c.token? = none := by
  have hreduce : ∀ e k, (∃ r, reduce none e k = .finish r) ∨
      ∃ c, reduce none e k = .fail c false ∧ c.token? = none := by
    intro e k
    obtain h | ⟨wanted, h⟩ := reduce_none_cases e k
    · exact .inl h
    · exact .inr ⟨_, h, rfl⟩
  obtain ⟨next, k⟩ := s
  cases next with
  | afterName x => exact hreduce _ _
  | afterExpression e => exact hreduce _ _
  | afterClause clauses => exact hreduce _ _
  | _ => exact .inr ⟨_, rfl, rfl⟩

/-! ## The offending token -/

/-- A move that is made because of a token: it goes on only if the token is well
formed, and it blames no other token. -/
def Judges (t : Token) : Move → Prop
  | .shift _ => t.kind.isError = false
  | .finish _ => True
  | .fail c _ => c.token? = some t

theorem judges_shift_or
    {wanted : Kind} (hwanted : wanted.isError = false) {t : Token} {s : State} {m : Move}
    (h : Judges t m) :
    Judges t (if (some t).any (·.kind == wanted) then .shift s else m) := by
  split
  · rename_i hkind
    obtain rfl : t.kind = wanted := by simpa using hkind
    exact hwanted
  · exact h

theorem judges_refuse (wanted : Kind) (t : Token) : Judges t (refuse wanted (some t)) := by
  unfold refuse Judges
  dsimp only
  split <;> rfl

theorem judges_expect
    {wanted : Kind} (hwanted : wanted.isError = false) (t : Token) (s : State) :
    Judges t (expect wanted (some t) s) :=
  judges_shift_or hwanted (judges_refuse wanted t)

theorem judges_expectName (t : Token) (s : Text → State) :
    Judges t (expectName (some t) s) := by
  unfold expectName
  dsimp only
  split
  · rename_i hkind
    split
    · rfl
    · simp [Judges, eq_of_beq hkind, Kind.isError]
  · exact judges_refuse ..

theorem judges_begin (k : List Context) (t : Token) : Judges t (begin k (some t)) := by
  obtain ⟨kind, literal, position, length, line⟩ := t
  unfold begin
  cases kind with
  | identifier =>
      dsimp only
      split <;> rfl
  | integer =>
      dsimp only
      split <;> rfl
  | _ => rfl

theorem judges_reduce (t : Token) (e : Source) (k : List Context) :
    Judges t (reduce (some t) e k) := by
  induction k generalizing e with
  | nil => trivial
  | cons c k ih =>
      cases c with
      | statement role done => exact judges_shift_or rfl (judges_expect rfl ..)
      | argument operator done => exact judges_shift_or rfl (judges_expect rfl ..)
      | test clauses => exact judges_expect rfl ..
      | result clauses test => exact judges_expect rfl ..
      | binding form x =>
          cases form with
          | define => exact ih _
          | assign => exact ih _
          | letIn => exact judges_shift_or rfl (ih _)

theorem judges_settle (t : Token) (e : Source) (k : List Context) :
    Judges t (settle (some t) e k) :=
  judges_shift_or rfl (judges_reduce t e k)

theorem judges_step (s : State) (t : Token) : Judges t (step s (some t)) := by
  obtain ⟨next, k⟩ := s
  cases next with
  | expression => exact judges_begin ..
  | statementOrClose role => exact judges_shift_or rfl (judges_begin ..)
  | argumentOrClose operator => exact judges_shift_or rfl (judges_begin ..)
  | afterName x => exact judges_shift_or rfl (judges_settle ..)
  | afterExpression e => exact judges_settle ..
  | parameterOrClose role => exact judges_shift_or rfl (judges_expectName t _)
  | parameter role done => exact judges_expectName t fun x => ⟨.afterParameter role (x :: done), k⟩
  | afterParameter role done => exact judges_shift_or rfl (judges_expect rfl ..)
  | afterClause clauses => exact judges_shift_or rfl (judges_reduce ..)
  | bindingName form => exact judges_expectName t fun x => ⟨.bindingEquals form x, k⟩
  | _ => exact judges_expect rfl ..

theorem shifted_eq_none_of_mem
    {ts : List Token} {t : Token} (ht : t ∈ ts) (herror : t.kind.isError = true) (s : State) :
    shifted s ts = none := by
  induction ts generalizing s with
  | nil => simp at ht
  | cons u ts ih =>
      rw [shifted]
      have hjudge := judges_step s u
      cases hstep : step s (some u) with
      | shift s' =>
          rw [hstep] at hjudge
          rcases List.mem_cons.mp ht with rfl | hmem
          · exact absurd hjudge (by simp [Judges, herror])
          · exact ih hmem s'
      | finish e => rfl
      | fail c consumed => rfl

/-- The automaton does not go on at a token: the expression ends in front of it, or the
token offends. -/
def State.Stops (s : State) (t : Token) : Prop :=
  ∀ s', step s (some t) ≠ .shift s'

/-- An automaton that does not get through its tokens gets to one of them and stops
there. -/
theorem exists_stops_of_not_shifted {s : State} {ts : List Token} (h : shifted s ts = none) :
    ∃ front t rest s', ts = front ++ t :: rest ∧ shifted s front = some s' ∧ s'.Stops t := by
  induction ts generalizing s with
  | nil => simp [shifted] at h
  | cons t ts ih =>
      cases hstep : step s (some t) with
      | shift s₁ =>
          rw [shifted, hstep] at h
          obtain ⟨front, u, rest, s', rfl, hfront, hstops⟩ := ih h
          exact ⟨t :: front, u, rest, s', rfl, by rw [shifted, hstep]; exact hfront, hstops⟩
      | finish e => exact ⟨[], t, ts, s, rfl, rfl, by simp [State.Stops, hstep]⟩
      | fail c consumed => exact ⟨[], t, ts, s, rfl, rfl, by simp [State.Stops, hstep]⟩

end Automaton

/-! ## Incomplete errors -/

theorem Complaint.toError_of_token {c : Complaint} {t : Token} (h : c.token? = some t)
    (line : Nat) : c.toError line = ⟨c.message, t.line, t, false⟩ := by
  simp [toError, h]

theorem parse_of_run_error {tokens : List Token} {c : Complaint}
    (h : (Automaton.run Automaton.start (significant tokens)).1 = .error c) :
    parse tokens = .error (c.toError (lastLine tokens)) := by
  rw [parse_eq_report, Automaton.whole]
  rcases hrun : Automaton.run Automaton.start (significant tokens) with ⟨c' | e, rest⟩
  · rw [hrun] at h
    cases h
    rfl
  · rw [hrun] at h
    cases h

/-- An input that the automaton gets through is an expression, or it is
incomplete. -/
theorem parse_of_shifted {tokens : List Token} {s : Automaton.State}
    (h : Automaton.shifted Automaton.start (significant tokens) = some s) :
    (∃ e, parse tokens = .ok e) ∨
      ∃ err, parse tokens = .error err ∧ err.incomplete = true := by
  have hrun := Automaton.run_append_of_shifted h []
  rw [List.append_nil, Automaton.run] at hrun
  obtain ⟨r, hstep⟩ | ⟨c, hstep, hc⟩ := Automaton.step_none_cases s
  · exact .inl ⟨r, parse_eq_ok_iff_run.mpr (by rw [hrun, hstep])⟩
  · refine .inr ⟨_, parse_of_run_error (by rw [hrun, hstep]), ?_⟩
    simp [Complaint.toError, hc]

/-- An input at one of whose tokens the automaton stops is in error at this token,
whatever comes after it. -/
theorem parse_of_stops
    {front : List Token} {s : Automaton.State} {t : Token}
    (hfront : Automaton.shifted Automaton.start front = some s) (hstops : s.Stops t) :
    ∃ err : SyntaxError, err.token = t ∧ err.line = t.line ∧ err.incomplete = false ∧
      ∀ tokens rest, significant tokens = front ++ t :: rest → parse tokens = .error err := by
  have hrun : ∀ rest, Automaton.run Automaton.start (front ++ t :: rest) =
      Automaton.run s (t :: rest) := fun rest => Automaton.run_append_of_shifted hfront (t :: rest)
  cases hstep : Automaton.step s (some t) with
  | shift s' => exact absurd hstep (hstops s')
  | finish e =>
      refine ⟨⟨(Complaint.trailing t).message, t.line, t, false⟩, rfl, rfl, rfl,
        fun tokens rest htokens => ?_⟩
      simp only [parse_eq_report, Automaton.whole, htokens, hrun, Automaton.run, hstep]
      exact congrArg _ (Complaint.toError_of_token rfl _)
  | fail c consumed =>
      have hc : c.token? = some t := by
        have hjudge := Automaton.judges_step s t
        rwa [hstep] at hjudge
      refine ⟨⟨c.message, t.line, t, false⟩, rfl, rfl, rfl, fun tokens rest htokens => ?_⟩
      have herror : (Automaton.run Automaton.start (significant tokens)).1 = .error c := by
        rw [htokens, hrun, Automaton.run, hstep]
      rw [parse_of_run_error herror, Complaint.toError_of_token hc]

theorem parse_of_not_shifted {ts : List Token} (h : Automaton.shifted Automaton.start ts = none) :
    ∃ err : SyntaxError, err.incomplete = false ∧
      ∀ tokens us, significant tokens = ts ++ us → parse tokens = .error err := by
  obtain ⟨front, t, rest, s, rfl, hfront, hstops⟩ := Automaton.exists_stops_of_not_shifted h
  obtain ⟨err, -, -, hcomplete, hfail⟩ := parse_of_stops hfront hstops
  refine ⟨err, hcomplete, fun tokens us htokens => hfail tokens (rest ++ us) ?_⟩
  rw [htokens, List.append_assoc, List.cons_append]

/-- An error is incomplete exactly if the automaton gets through the input. -/
theorem incomplete_iff_shifted {tokens : List Token} {err : SyntaxError}
    (h : parse tokens = .error err) :
    err.incomplete = true ↔
      ∃ s, Automaton.shifted Automaton.start (significant tokens) = some s := by
  cases hshift : Automaton.shifted Automaton.start (significant tokens) with
  | some s =>
      obtain ⟨e, he⟩ | ⟨err', herr, hincomplete⟩ := parse_of_shifted hshift
      · simp [he] at h
      · simp_all
  | none =>
      obtain ⟨err', hcomplete, herr⟩ := parse_of_not_shifted hshift
      have := herr tokens [] (List.append_nil _).symm
      simp_all

/-! ## The first offending token -/

theorem significant_append (ts us : List Token) :
    significant (ts ++ us) = significant ts ++ significant us :=
  List.filter_append ts us

/-- The meaningful token behind some others, with its place among all tokens. -/
theorem exists_of_significant_eq
    {tokens front rest : List Token} {t : Token} (h : significant tokens = front ++ t :: rest) :
    ∃ before after, tokens = before ++ t :: after ∧ t.isTrivia = false ∧
      significant before = front := by
  obtain ⟨before, others, rfl, hbefore, hothers⟩ := List.filter_eq_append_iff.mp h
  obtain ⟨trivia, after, rfl, htrivia, ht, -⟩ := List.filter_eq_cons_iff.mp hothers
  refine ⟨before ++ trivia, after, by rw [List.append_assoc], by simpa using ht, ?_⟩
  have hnone : significant trivia = [] := List.filter_eq_nil_iff.mpr htrivia
  rw [significant_append, hnone, List.append_nil]
  exact hbefore

/-- An error that is not incomplete points at the first offending token: the tokens
before it are an expression or the beginning of one, and with it the error stays,
whatever comes after it. -/
theorem parse_error_at_first_offence
    {tokens : List Token} {err : SyntaxError} (h : parse tokens = .error err)
    (hcomplete : err.incomplete = false) :
    ∃ k t, tokens[k]? = some t ∧ t.isTrivia = false ∧ err.token = t ∧ err.line = t.line ∧
      ((∃ e, parse (tokens.take k) = .ok e) ∨
        ∃ err', parse (tokens.take k) = .error err' ∧ err'.incomplete = true) ∧
      ∀ us, parse (tokens.take (k + 1) ++ us) = .error err ∧
        parse (tokens ++ us) = .error err := by
  have hshifted : Automaton.shifted Automaton.start (significant tokens) = none := by
    rw [Option.eq_none_iff_forall_ne_some]
    intro s hs
    have hincomplete := (incomplete_iff_shifted h).mpr ⟨s, hs⟩
    cases hcomplete.symm.trans hincomplete
  obtain ⟨front, t, rest, s, htokens, hfront, hstops⟩ :=
    Automaton.exists_stops_of_not_shifted hshifted
  obtain ⟨err', htoken, hline, -, hfail⟩ := parse_of_stops hfront hstops
  obtain rfl : err' = err := by
    have herr := (hfail tokens rest htokens).symm.trans h
    cases herr
    rfl
  obtain ⟨before, after, rfl, ht, rfl⟩ := exists_of_significant_eq htokens
  have hoffends : ∀ others, parse (before ++ t :: others) = .error err' := by
    intro others
    have hothers : significant (t :: others) = t :: significant others :=
      List.filter_cons_of_pos (by simpa using ht)
    exact hfail _ (significant others) (by rw [significant_append, hothers])
  refine ⟨before.length, t, by simp, ht, htoken, hline, ?_, fun us => ⟨?_, ?_⟩⟩
  · rw [List.take_left]
    exact parse_of_shifted hfront
  · have htake : (before ++ t :: after).take (before.length + 1) = before ++ [t] :=
      List.take_length_add_append 1
    rw [htake, List.append_assoc]
    exact hoffends us
  · rw [List.append_assoc]
    exact hoffends (after ++ us)

/-- A closing parenthesis on the second line, where an argument is missing. -/
theorem parse_error_at_missing_argument :
    let tokens := scan "f(1,\n  )"
    let paren : Token := ⟨.closeParen, ")", 7, 1, 2⟩
    let err : SyntaxError := ⟨"spurious closing parenthesis", 2, paren, false⟩
    parse tokens = .error err ∧ err.incomplete = false ∧
      ∃ k t, tokens[k]? = some t ∧ t.isTrivia = false ∧ err.token = t ∧ err.line = t.line ∧
        ((∃ e, parse (tokens.take k) = .ok e) ∨
          ∃ err', parse (tokens.take k) = .error err' ∧ err'.incomplete = true) ∧
        ∀ us, parse (tokens.take (k + 1) ++ us) = .error err ∧
          parse (tokens ++ us) = .error err := by
  intro tokens paren err
  have herr : parse tokens = .error err := rfl
  exact ⟨herr, rfl, parse_error_at_first_offence herr rfl⟩

end BlockLang
