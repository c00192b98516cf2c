import Mathlib.Data.List.Forall2
import BlockLang.Proofs.Descent

/-!
# Reading around trivia

The parser meets blanks and comments between the tokens that carry meaning and passes
over them where it looks for the next one. What it does is what the automaton does with
the meaningful tokens alone, and what it leaves unread are the same meaningful tokens.
So a second reading, after an expression or after an error, starts again from the same
tokens. Only an error at the end of the input knows about trivia, since its line is the
line of the last token of any kind.
-/

namespace BlockLang

namespace Parser

variable {ts us : List Token}

/-- Two readings of the same meaningful tokens end alike and leave the same meaningful
tokens. -/
theorem expression_congr (h : significant ts = significant us) :
    (expression ts).1 = (expression us).1 ∧
      significant (expression ts).2 = significant (expression us).2 := by
  have hrun := expression_eq_run ts
  rw [h, expression_eq_run, Prod.mk.injEq] at hrun
  exact ⟨hrun.1.symm, hrun.2.symm⟩

theorem repeated_succ (n : Nat) (ts : List Token) :
    repeated (n + 1) ts = (expression ts).1 :: repeated n (expression ts).2 :=
  rfl

theorem repeated_congr (h : significant ts = significant us) (n : Nat) :
    repeated n ts = repeated n us := by
  induction n generalizing ts us with
  | zero => rfl
  | succ n ih =>
      obtain ⟨hresult, hrest⟩ := expression_congr h
      rw [repeated_succ, repeated_succ, hresult, ih hrest]

theorem length_repeated (n : Nat) (ts : List Token) : (repeated n ts).length = n := by
  induction n generalizing ts with
  | zero => rfl
  | succ n ih => rw [repeated_succ, List.length_cons, ih]

end Parser

/-! ## One expression -/

/-- The one expression that a list of meaningful tokens is. -/
def Automaton.whole (ts : List Token) : Except Complaint Source :=
  match run start ts with
  | (.ok e, []) => .ok e
  | (.ok _, t :: _) => .error (.trailing t)
  | (.error c, _) => .error c

theorem Parser.whole_eq (ts : List Token) :
    (Parser.whole ts).1 = Automaton.whole (significant ts) := by
  rw [Automaton.whole, Parser.expression_eq_run, Parser.whole]
  rcases hread : Parser.expression ts with ⟨c | e, rest⟩
  · rw [Parser.bind_of_error hread]
  · have hpeek : Parser.peek rest =
        (.ok (rest.dropWhile (·.isTrivia)).head?, rest.dropWhile (·.isTrivia)) := rfl
    rw [Parser.bind_of_ok hread, Parser.bind_of_ok hpeek]
    obtain ⟨hnone, hdrop⟩ | ⟨t, others, -, hdrop, hsome, -⟩ := dropWhile_trivia rest
    · rw [hdrop, hnone]
      rfl
    · rw [hdrop, hsome]
      rfl

/-- Parsing as a matter of the meaningful tokens and the last line. -/
theorem parse_eq_report (tokens : List Token) :
    parse tokens = Parser.report tokens (Automaton.whole (significant tokens)) := by
  rw [parse, Parser.whole_eq]

theorem parse_eq_ok_iff_run {tokens : List Token} {e : Source} :
    parse tokens = .ok e ↔ Automaton.run Automaton.start (significant tokens) = (.ok e, []) := by
  rw [parse_eq_report, Automaton.whole]
  rcases Automaton.run Automaton.start (significant tokens) with ⟨c | e', _ | ⟨t, rest⟩⟩ <;>
    simp [Parser.report]

/-! ## Readings that agree -/

/-- Two readings agree: they give the same expression, or errors with the same message
and offending token that are both incomplete or both not. Errors that are not incomplete
are on the same line. -/
inductive Agree : Except SyntaxError Source → Except SyntaxError Source → Prop where
  | expression (e : Source) : Agree (.ok e) (.ok e)
  | error {err err' : SyntaxError} (message : err.message = err'.message)
      (token : err.token = err'.token) (incomplete : err.incomplete = err'.incomplete)
      (line : err.incomplete = false → err.line = err'.line) : Agree (.error err) (.error err')

theorem agree_toError (c : Complaint) (line line' : Nat) :
    Agree (.error (c.toError line)) (.error (c.toError line')) := by
  unfold Complaint.toError
  cases c.token? with
  | none => exact .error rfl rfl rfl nofun
  | some t => exact .error rfl rfl rfl fun _ => rfl

theorem agree_report (ts us : List Token) (result : Except Complaint Source) :
    Agree (Parser.report ts result) (Parser.report us result) := by
  cases result with
  | error c => exact agree_toError c ..
  | ok e => exact .expression e

/-- Trivia never matters to the parser. Two lists with the same meaningful tokens are read
alike, expression after expression and also after errors; every reading has a result; and
as a whole both are the same expression or in error for the same reason. -/
theorem trivia_never_matters
    {ts us : List Token} (h : significant ts = significant us) (n : Nat) :
    (parseSequence n ts).length = n ∧
      List.Forall₂ Agree (parseSequence n ts) (parseSequence n us) ∧
      Agree (parse ts) (parse us) := by
  refine ⟨?_, ?_, ?_⟩
  · rw [parseSequence, List.length_map, Parser.length_repeated]
  · rw [parseSequence, parseSequence, Parser.repeated_congr h, List.forall₂_map_left_iff,
      List.forall₂_map_right_iff, List.forall₂_same]
    exact fun result _ => agree_report ts us result
  · rw [parse_eq_report, parse_eq_report, h]
    exact agree_report ..

/-- An integer that is out of range, a name, and the end of the input, which is a line
further down in the second source. -/
theorem trivia_never_matters_after_error :
    let ts := scan "99999999999999999999 x"
    let us := scan "99999999999999999999\tx\n// end"
    significant ts = significant us ∧ ts ≠ us ∧
      List.Forall₂ Agree (parseSequence 3 ts) (parseSequence 3 us) ∧
      Agree (parse ts) (parse us) := by
  intro ts us
  have h : significant ts = significant us := by decide +kernel
  obtain ⟨-, hsequence, hparse⟩ := trivia_never_matters h 3
  exact ⟨h, by decide +kernel, hsequence, hparse⟩

end BlockLang
