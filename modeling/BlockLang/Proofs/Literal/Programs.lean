import BlockLang.Proofs.Arithmetic.Division
import BlockLang.Proofs.Printing
import BlockLang.Proofs.Recognition.Prefix
import BlockLang.Proofs.Scanning.Tiling

/-!
# Numerals as programs

A source that is scanned as one integer is a program that denotes its mathematical
value, or it is refused. Three limits meet here: the scanner counts bytes, with the sign
and leading zeros; the reader counts the value; and the decimal form of every word stays
within both, the least word with not a byte to spare.
-/

namespace BlockLang

/-- A source is one token, and the parser rejects it. -/
def Rejected (source : Text) : Prop :=
  ∃ err : SyntaxError, compile source = .error (.parse err) ∧ err.incomplete = false ∧
    scan source = [err.token]

variable {w : Text} {t : Token}

/-! ## Sources of one token -/

theorem rejected_of_stops
    (hscan : scan w = [t]) (htrivia : t.isTrivia = false) (hstops : Automaton.start.Stops t) :
    Rejected w := by
  have hfront : Automaton.shifted Automaton.start [] = some Automaton.start := rfl
  obtain ⟨err, rfl, -, hcomplete, hparse⟩ := parse_of_stops hfront hstops
  have hmeaning : significant (scan w) = [] ++ err.token :: [] := by
    rw [hscan, significant_of_not_trivia htrivia]
    rfl
  refine ⟨err, ?_, hcomplete, hscan⟩
  rw [compile, hparse _ _ hmeaning]

theorem compile_of_read_ok {n : Int64}
    (hscan : scan w = [t]) (hkind : t.kind = .integer) (hread : Integer.read t.literal = .ok n) :
    compile w = .ok (.integer n) := by
  have hstep : Automaton.step Automaton.start (some t) =
      .shift ⟨.afterExpression (.integer n), []⟩ := by
    simp [Automaton.step, Automaton.start, Automaton.begin, hkind, hread]
  have hmeaning : significant (scan w) = [t] := by
    rw [hscan, significant_of_not_trivia (by simp [Token.isTrivia, Kind.isTrivia, hkind])]
    rfl
  have hparse : parse (scan w) = .ok (.integer n) := by
    rw [parse_eq_ok_iff_run, hmeaning, Automaton.run, hstep]
    rfl
  rw [compile, hparse]
  rfl

theorem rejected_of_read_error {flaw : Integer.Flaw}
    (hscan : scan w = [t]) (hkind : t.kind = .integer)
    (hread : Integer.read t.literal = .error flaw) : Rejected w := by
  refine rejected_of_stops hscan (by simp [Token.isTrivia, Kind.isTrivia, hkind]) fun s' => ?_
  cases flaw <;> simp [Automaton.step, Automaton.start, Automaton.begin, hkind, hread]

theorem rejected_of_longInteger (hscan : scan w = [t]) (hkind : t.kind = .longInteger) :
    Rejected w := by
  refine rejected_of_stops hscan (by simp [Token.isTrivia, Kind.isTrivia, hkind]) fun s' => ?_
  simp [Automaton.step, Automaton.start, Automaton.begin, hkind]

/-- A source that is one integer is the literal of this integer. -/
theorem literal_eq_of_scan (hscan : scan w = [t]) (hkind : t.kind = .integer) :
    t.literal = w := by
  cases w with
  | nil => cases hscan
  | cons b s =>
      rw [scan, scanAfter_cons, List.cons.injEq] at hscan
      obtain ⟨rfl, hrest⟩ := hscan
      have hremaining : Lexeme.remaining b s = [] := by
        cases hs : Lexeme.remaining b s with
        | nil => rfl
        | cons c rest =>
            rw [hs, scanAfter_cons] at hrest
            cases hrest
      have hlength : (b :: s).length ≤ (Lexeme.first b s).length :=
        List.drop_eq_nil_iff.mp hremaining
      rcases Lexeme.string_or_span b s with ⟨-, hstring⟩ | ⟨hspan, hspanLength⟩
      · rw [hstring] at hkind
        rcases Lexeme.string_kind s with h | h | h <;> cases h.symm.trans hkind
      · exact hspan.eq_of_length_le (hspanLength ▸ hlength)

/-! ## Numerals -/

namespace Integer

variable {z : Int}

/-- A numeral is a source of one token. -/
theorem IsNumeral.scan_eq (h : IsNumeral w z) :
    scan w = [⟨if maxIntegerLength < w.length then .longInteger else .integer, w, 0, w.length, 1⟩]
    := by
  rw [scan_of_isWord h.isWord, h.kindOfWord_eq]
  rfl

/-- A numeral that is short enough and whose value a word can hold denotes this word. -/
theorem IsNumeral.compile_eq {n : Int64} (h : IsNumeral w n.toInt)
    (hshort : w.length ≤ maxIntegerLength) :
    compile w = .ok (.integer n) := by
  have hscan := h.scan_eq
  rw [if_neg (Nat.not_lt.mpr hshort)] at hscan
  exact compile_of_read_ok hscan rfl (read_eq_ok_iff.mpr (denotes_iff.mpr h))

/-- A numeral that is too long, or whose value no word can hold, is rejected. -/
theorem IsNumeral.rejected (h : IsNumeral w z)
    (hout : ¬(w.length ≤ maxIntegerLength ∧ Fits z)) : Rejected w := by
  have hscan := h.scan_eq
  by_cases hshort : w.length ≤ maxIntegerLength
  · rw [if_neg (Nat.not_lt.mpr hshort)] at hscan
    cases hread : read w with
    | error flaw => exact rejected_of_read_error hscan rfl hread
    | ok n =>
        have hvalue := h.unique (denotes_iff.mp (read_eq_ok_iff.mp hread))
        exact absurd ⟨hshort, hvalue ▸ fits_toInt n⟩ hout
  · rw [if_pos (Nat.not_le.mp hshort)] at hscan
    exact rejected_of_longInteger hscan rfl

theorem isNumeral_text (n : Int64) : IsNumeral (text n) n.toInt :=
  denotes_iff.mp (denotes_text n)

end Integer

theorem Session.eval_of_integer
    {s : Session} {n : Int64} (h : compile w = .ok (.integer n))
    (hlimit : s.state.depth < s.settings.limit) :
    (s.eval w).1 = .ok (.integer n) := by
  let loaded := (loadTree s.state (.integer n : Source)).2
  obtain ⟨limit, hlevels⟩ : ∃ limit, s.settings.limit - loaded.depth = limit + 1 :=
    Nat.exists_eq_add_of_le' (Nat.sub_pos_of_lt hlimit)
  have heval : (Evaluator.eval s.settings (.integer n) s.frame loaded).1 = .ok (.integer n) := by
    have hyields : Evaluator.Yields s.settings (limit + 1) s.frame loaded.store (.integer n)
        (.integer n) := Evaluator.yields_integer n
    obtain ⟨t, ht, -⟩ := hyields loaded rfl
    rw [Evaluator.eval_eq_perform, hlevels, ht]
  have houtcome : (s.eval w).1 =
      (Evaluator.eval s.settings (.integer n) s.frame loaded).1.mapError Fault.toFailure := by
    rw [Session.eval, h]
    rfl
  rw [houtcome, heval]
  rfl

open Integer in
/-- Integer literals denote exactly their value. A numeral, of any length, is a program that
denotes the word with its value if it has at most 20 bytes and there is such a word, and
otherwise it is rejected; every other source that is scanned as one integer is rejected; and
what is shown of a word is a program with this word as its value, and `parseInt` reads it
back. -/
theorem numerals_denote_value :
    (∀ (w : Text) (z : Int), IsNumeral w z →
      (w.length ≤ 20 ∧ Fits z → ∃ n : Int64, n.toInt = z ∧ compile w = .ok (.integer n)) ∧
      (¬(w.length ≤ 20 ∧ Fits z) → Rejected w)) ∧
    (∀ (w : Text) (t : Token), scan w = [t] → t.kind = .integer → (∀ z, ¬IsNumeral w z) →
      Rejected w) ∧
    ∀ n : Int64,
      let shown := (Expr.integer n : Node).inspect
      compile shown = .ok (.integer n) ∧
      (∀ s : Session, s.state.depth < s.settings.limit → (s.eval shown).1 = .ok (.integer n)) ∧
      ∀ (settings : Settings) (caller : FrameId) (s : State),
        Library.call settings .parseInt [.string shown] caller s = (.ok (.integer n), s) := by
  refine ⟨fun w z h => ⟨?_, h.rejected⟩, fun w t hscan hkind hnone => ?_, fun n => ?_⟩
  · rintro ⟨hshort, hfits⟩
    obtain ⟨n, rfl⟩ := exists_toInt_eq hfits
    exact ⟨n, rfl, h.compile_eq hshort⟩
  · cases hread : read t.literal with
    | error flaw => exact rejected_of_read_error hscan hkind hread
    | ok n =>
        rw [literal_eq_of_scan hscan hkind] at hread
        exact absurd (denotes_iff.mp (read_eq_ok_iff.mp hread)) (hnone n.toInt)
  · have hcompile : compile (text n) = .ok (.integer n) :=
      (isNumeral_text n).compile_eq (length_text_le n)
    refine ⟨hcompile, fun s hlimit => Session.eval_of_integer hcompile hlimit, fun _ _ _ => ?_⟩
    have hread : read (text n) = .ok n := read_eq_ok_iff.mpr (denotes_text n)
    have hargument : Procedure.oneString .parseInt [.string (text n)] = .ok (text n) := rfl
    refine Library.call_of_value _ _ _ ?_
    change some _ = _
    simp [hargument, Expr.inspect, Expr.outline, Outline.inspect, hread, bind, Except.bind, pure,
      Except.pure]

/-- The least word fills the 20 bytes. A sign and a zero in front take the greatest one
beyond them, one more than the greatest is no word, and letters after digits make no
numeral. -/
theorem numerals_denote_value_at_limits :
    compile "-9223372036854775808" = .ok (.integer Int64.minValue) ∧
      Rejected "+09223372036854775807" ∧ Rejected "9223372036854775808" ∧ Rejected "12ab" := by
  obtain ⟨hnumeral, hother, -⟩ := numerals_denote_value
  have hmin : Integer.IsNumeral "-9223372036854775808" (-9223372036854775808) :=
    .minus ⟨by decide, by decide +kernel, rfl⟩
  have hlong : Integer.IsNumeral "+09223372036854775807" 9223372036854775807 :=
    .plus ⟨by decide, by decide +kernel, rfl⟩
  have hlarge : Integer.IsNumeral "9223372036854775808" 9223372036854775808 :=
    .plain ⟨by decide, by decide +kernel, rfl⟩
  have hletters (z : Int) : ¬Integer.IsNumeral "12ab" z :=
    fun h => absurd h.numeric (by decide)
  refine ⟨?_, (hnumeral _ _ hlong).2 (by decide), (hnumeral _ _ hlarge).2 (by decide),
    hother _ _ rfl rfl hletters⟩
  obtain ⟨n, hn, hcompile⟩ := (hnumeral _ _ hmin).1 (by decide)
  rw [hcompile, Int64.toInt_inj.mp (hn.trans Int64.toInt_minValue.symm)]

end BlockLang
