import BlockLang.Proofs.Lifting
import BlockLang.Proofs.Printing.RoundTrip

/-!
# Printing programs

Lifting builds trees that no text was read as: lets with an empty body, or with the
rest of a block as their body, wherever an expression may stand. They are derived by
the grammar all the same. To lift a derivation is to put braces around the statements
that a let without braces takes over, so no derivation of a program ends in such a let,
and any of them may be the value of a let with a body. A program that was compiled is
therefore read back from its source text as far as its strings are, and then there is
nothing left to lift.
-/

namespace BlockLang

open Grammar

/-! ## Lifting derivations -/

/-- A terminal with a text of its own. -/
def Terminal.word? : Terminal → Option Terminal
  | .mark _ => none
  | u => some u

/-- The terminals that are not marks. -/
def words (us : List Terminal) : List Terminal :=
  us.filterMap Terminal.word?

@[simp] theorem words_append (us vs : List Terminal) : words (us ++ vs) = words us ++ words vs :=
  List.filterMap_append

@[simp] theorem words_mark (kind : Kind) (us : List Terminal) :
    words (.mark kind :: us) = words us := rfl

@[simp] theorem words_name (x : Text) (us : List Terminal) :
    words (.name x :: us) = .name x :: words us := rfl

@[simp] theorem words_listed (yss : List (List Terminal)) :
    words (listed yss) = yss.flatMap words :=
  filterMap_listed (fun _ => rfl) yss

@[simp] theorem words_braced (yss : List (List Terminal)) :
    words (braced yss) = yss.flatMap words :=
  filterMap_braced (fun _ => rfl) yss

theorem stringTexts_words (us : List Terminal) : stringTexts (words us) = stringTexts us := by
  rw [stringTexts, words, List.filterMap_filterMap]
  congr 1
  funext u
  cases u <;> rfl

theorem each_scanned_words {us : List Terminal} :
    Each Terminal.Scanned (words us) ↔ Each Terminal.Scanned us := by
  induction us with
  | nil => rfl
  | cons u us ih =>
      cases u with
      | mark kind => simpa [Terminal.Scanned] using ih
      | _ => exact (each_cons.trans (and_congr_right fun _ => ih)).trans each_cons.symm

namespace Grammar

theorem Calls.isOpenLet_value : ∀ (calls : Calls) {operator : Source},
    operator.isOpenLet = false → (calls.value operator).isOpenLet = false
  | .nil, _, h => h
  | .cons _ rest, _, _ => Calls.isOpenLet_value rest rfl

theorem Postfix.isOpenLet_value (p : Postfix) : p.value.isOpenLet = false := by
  obtain ⟨head, calls⟩ := p
  refine calls.isOpenLet_value ?_
  cases head
  case letIn x value body => exact Expr.isOpenBody_of_placedAll body.placed_values
  all_goals rfl

/-- The lifting of statements, the first of which is not a let without braces. -/
theorem Phrases.exists_liftedBlock_cons
    {e : Source} (hopen : e.isOpenLet = false) {es : List Source} {us : List Terminal}
    {yss : List (List Terminal)}
    (he : ∃ q : Phrase false, q.value = e.lifted ∧ words q.yield = words us)
    (hes : ∃ qs : Phrases, qs.values = Expr.liftedBlock es ∧
      qs.yields.flatMap words = yss.flatMap words) :
    ∃ qs : Phrases, qs.values = Expr.liftedBlock (e :: es) ∧
      qs.yields.flatMap words = (us :: yss).flatMap words := by
  obtain ⟨q, hvalue, hyield⟩ := he
  obtain ⟨qs, hvalues, hyields⟩ := hes
  refine ⟨.cons q qs, ?_, ?_⟩
  · rw [Phrases.values, hvalue, hvalues, Expr.liftedBlock_cons hopen]
  · rw [Phrases.yields, List.flatMap_cons, List.flatMap_cons, hyield, hyields]

mutual

/-- The lifting of an expression that was derived is derived with the same words, and
does not end in a let without braces. -/
theorem Phrase.exists_lifted {b : Bool} : ∀ p : Phrase b,
    ∃ q : Phrase false, q.value = p.value.lifted ∧ words q.yield = words p.yield
  | .simple p => by
      obtain ⟨q, hvalue, hwords⟩ := Postfix.exists_lifted p
      exact ⟨.simple q, hvalue, hwords⟩
  | .define x value => by
      obtain ⟨w, hvalue, hwords⟩ := Phrase.exists_lifted value
      exact ⟨.define x w, by simp [Phrase.value, Expr.lifted, hvalue],
        by simp [Phrase.yield, hwords]⟩
  | .assign x value => by
      obtain ⟨w, hvalue, hwords⟩ := Phrase.exists_lifted value
      exact ⟨.assign x w, by simp [Phrase.value, Expr.lifted, hvalue],
        by simp [Phrase.yield, hwords]⟩
  | .bareLet x value => by
      obtain ⟨w, hvalue, hwords⟩ := Phrase.exists_lifted value
      refine ⟨.simple (.mk (.letIn x w .nil) .nil), ?_, ?_⟩
      · simp [Phrase.value, Postfix.value, Calls.value, Primary.value, Phrases.values,
          Expr.lifted, Expr.isOpenBody, hvalue]
      · simp [Phrase.yield, Postfix.yield, Calls.yield, Primary.yield, Phrases.yields, hwords]
  | .cond first rest => by
      obtain ⟨first', hfirst, hwords⟩ := Clause.exists_lifted first
      obtain ⟨rest', hrest, hwordsRest⟩ := Clauses.exists_lifted rest
      exact ⟨.cond first' rest', by simp [Phrase.value, Expr.lifted, hfirst, hrest],
        by simp [Phrase.yield, hwords, hwordsRest]⟩
termination_by structural p => p

theorem Postfix.exists_lifted : ∀ p : Postfix,
    ∃ q : Postfix, q.value = p.value.lifted ∧ words q.yield = words p.yield
  | .mk head calls => by
      obtain ⟨head', hhead, hwords⟩ := Primary.exists_lifted head
      obtain ⟨calls', hcalls, hwordsCalls⟩ := Calls.exists_lifted calls
      exact ⟨.mk head' calls', by simp [Postfix.value, hhead, hcalls],
        by simp [Postfix.yield, hwords, hwordsCalls]⟩
termination_by structural p => p

theorem Primary.exists_lifted : ∀ p : Primary,
    ∃ q : Primary, q.value = p.value.lifted ∧ words q.yield = words p.yield
  | .name x => ⟨.name x, by simp [Primary.value, Expr.lifted], rfl⟩
  | .integer n => ⟨.integer n, by simp [Primary.value, Expr.lifted], rfl⟩
  | .string s => ⟨.string s, by simp [Primary.value, Expr.lifted], rfl⟩
  | .parameters xs => ⟨.parameters xs, by simp [Primary.value, Expr.lifted], rfl⟩
  | .block es => by
      obtain ⟨es', hvalues, hwords⟩ := Phrases.exists_liftedBlock es
      exact ⟨.block es', by simp [Primary.value, Expr.lifted, hvalues],
        by simp [Primary.yield, hwords]⟩
  | .lambda word xs body => by
      obtain ⟨body', hvalues, hwords⟩ := Phrases.exists_liftedBlock body
      exact ⟨.lambda word xs body', by simp [Primary.value, Expr.lifted, hvalues],
        by simp [Primary.yield, hwords]⟩
  | .letIn x value body => by
      have hbody := Expr.isOpenBody_of_placedAll (Phrases.placed_values body)
      obtain ⟨w, hvalue, hwords⟩ := Phrase.exists_lifted value
      obtain ⟨body', hvalues, hwordsBody⟩ := Phrases.exists_liftedBlock body
      exact ⟨.letIn x w body', by simp [Primary.value, Expr.lifted, hbody, hvalue, hvalues],
        by simp [Primary.yield, hwords, hwordsBody]⟩
termination_by structural p => p

theorem Clause.exists_lifted : ∀ clause : Clause,
    ∃ clause' : Clause, clause'.value = (clause.value.1.lifted, clause.value.2.lifted) ∧
      words clause'.yield = words clause.yield
  | .mk test result => by
      obtain ⟨test', htest, hwordsTest⟩ := Phrase.exists_lifted test
      obtain ⟨result', hresult, hwordsResult⟩ := Phrase.exists_lifted result
      exact ⟨.mk test' result', by simp [Clause.value, htest, hresult],
        by simp [Clause.yield, hwordsTest, hwordsResult]⟩
termination_by structural clause => clause

theorem Clauses.exists_lifted : ∀ clauses : Clauses,
    ∃ clauses' : Clauses,
      clauses'.values = clauses.values.map (fun c => (c.1.lifted, c.2.lifted)) ∧
        words clauses'.yield = words clauses.yield
  | .nil => ⟨.nil, rfl, rfl⟩
  | .cons clause rest => by
      obtain ⟨clause', hclause, hwords⟩ := Clause.exists_lifted clause
      obtain ⟨rest', hrest, hwordsRest⟩ := Clauses.exists_lifted rest
      exact ⟨.cons clause' rest', by simp [Clauses.values, hclause, hrest],
        by simp [Clauses.yield, hwords, hwordsRest]⟩
termination_by structural clauses => clauses

theorem Phrases.exists_lifted : ∀ es : Phrases,
    ∃ qs : Phrases, qs.values = es.values.map Expr.lifted ∧
      qs.yields.flatMap words = es.yields.flatMap words
  | .nil => ⟨.nil, rfl, rfl⟩
  | .cons e es => by
      obtain ⟨e', hvalue, hwords⟩ := Phrase.exists_lifted e
      obtain ⟨es', hvalues, hwordsRest⟩ := Phrases.exists_lifted es
      exact ⟨.cons e' es', by simp [Phrases.values, hvalue, hvalues],
        by simp [Phrases.yields, hwords, hwordsRest]⟩
termination_by structural es => es

/-- The statements of a block. -/
theorem Phrases.exists_liftedBlock : ∀ es : Phrases,
    ∃ qs : Phrases, qs.values = Expr.liftedBlock es.values ∧
      qs.yields.flatMap words = es.yields.flatMap words
  | .nil => ⟨.nil, by rw [Phrases.values, Expr.liftedBlock_eq_map (by simp)]; rfl, rfl⟩
  -- The statements after a let without braces become its body, so it is the value of
  -- the let that is lifted here and not the let.
  | .cons (.bareLet x value) es => by
      obtain ⟨w, hvalue, hwords⟩ := Phrase.exists_lifted value
      obtain ⟨es', hvalues, hwordsRest⟩ := Phrases.exists_liftedBlock es
      refine ⟨.cons (.simple (.mk (.letIn x w es') .nil)) .nil, ?_, ?_⟩
      · simp [Phrases.values, Phrase.value, Postfix.value, Calls.value, Primary.value,
          Expr.liftedBlock_openLet, hvalue, hvalues]
      · simp [Phrases.yields, Phrase.yield, Postfix.yield, Calls.yield, Primary.yield, hwords,
          hwordsRest]
  | .cons (.define x value) es =>
      Phrases.exists_liftedBlock_cons rfl (Phrase.exists_lifted (.define x value))
        (Phrases.exists_liftedBlock es)
  | .cons (.assign x value) es =>
      Phrases.exists_liftedBlock_cons rfl (Phrase.exists_lifted (.assign x value))
        (Phrases.exists_liftedBlock es)
  | .cons (.cond first rest) es =>
      Phrases.exists_liftedBlock_cons rfl (Phrase.exists_lifted (.cond first rest))
        (Phrases.exists_liftedBlock es)
  | .cons (.simple p) es =>
      Phrases.exists_liftedBlock_cons p.isOpenLet_value (Phrase.exists_lifted (.simple p))
        (Phrases.exists_liftedBlock es)
termination_by structural es => es

theorem Calls.exists_lifted : ∀ calls : Calls,
    ∃ calls' : Calls,
      (∀ operator, calls'.value (Expr.lifted operator) = (calls.value operator).lifted) ∧
        words calls'.yield = words calls.yield
  | .nil => ⟨.nil, fun _ => rfl, rfl⟩
  | .cons operands rest => by
      obtain ⟨operands', hvalues, hwords⟩ := Phrases.exists_lifted operands
      obtain ⟨rest', hrest, hwordsRest⟩ := Calls.exists_lifted rest
      refine ⟨.cons operands' rest', fun operator => ?_, ?_⟩
      · rw [Calls.value, Calls.value, ← hrest, Expr.lifted, hvalues]
      · simp [Calls.yield, hwords, hwordsRest]
termination_by structural calls => calls

end

theorem Phrase.strings_lifted {b : Bool} (p : Phrase b) :
    p.value.lifted.strings = p.value.strings := by
  obtain ⟨q, hvalue, hwords⟩ := p.exists_lifted
  calc
    p.value.lifted.strings = stringTexts q.yield := by rw [← hvalue, q.strings_value]
    _ = stringTexts p.yield := by rw [← stringTexts_words, hwords, stringTexts_words]
    _ = p.value.strings := p.strings_value.symm

end Grammar

/-! ## Programs -/

/-- A program is the lifting of the expression that its text was read as. -/
theorem exists_phrase_of_compile {source : Text} {e : Source} (h : compile source = .ok e) :
    ∃ (b : Bool) (p : Phrase b), p.yield = spelled source ∧
      parse (scan source) = .ok p.value ∧ p.value.lifted = e := by
  obtain ⟨e₀, hparse, hlift⟩ := exists_of_compile h
  obtain ⟨⟨b, p⟩, hyield, hvalue⟩ := parse_eq_ok_iff_exists.mp hparse
  have hvalue : p.value = e₀ := hvalue
  have hlifted := Expr.lift_eq_lifted p.value p.placed_value
  rw [hvalue, hlift] at hlifted
  exact ⟨b, p, hyield, by rw [hvalue, hparse], by rw [hvalue, (Prod.mk.inj hlifted).1]⟩

/-- What the source text of a program spells. -/
theorem spelled_source_of_compile
    {source : Text} {e : Source} (h : compile source = .ok e) (indent : Nat) :
    ∃ q : Phrase false, q.value = e ∧ spelled (e.source indent) = reprint q.yield := by
  obtain ⟨b, p, hyield, -, rfl⟩ := exists_phrase_of_compile h
  obtain ⟨q, hvalue, hwords⟩ := p.exists_lifted
  have hscanned : Each Terminal.Scanned q.yield := by
    rw [← each_scanned_words, hwords, each_scanned_words, hyield]
    exact fun u hu => scanned_of_mem_spelled hu
  refine ⟨q, hvalue, ?_⟩
  rw [← hvalue]
  exact q.spelled_source hscanned indent

/-- Where a program is read, it is compiled to itself. -/
theorem compile_of_parse
    {text : Text} {e : Source} (hparse : parse (scan text) = .ok e)
    (he : e.within Head.ofProgram) :
    compile text = .ok e := by
  rw [compile, hparse]
  simp only [Expr.lift_of_within e he]

section Reprint

variable {b : Bool} {p : Phrase b} {text : Text} (hspelled : spelled text = reprint p.yield)

include hspelled

/-- A printed expression is read back if all its strings come back. -/
theorem parse_of_spelled_reprint (h : ∀ s ∈ p.value.strings, s.isUtf8 = true ∧ s.Fits) :
    parse (scan text) = .ok p.value := by
  have hfaithful : Each Terminal.Faithful p.yield := by
    intro u hu
    cases u with
    | string s =>
        rw [p.strings_value] at h
        obtain ⟨hutf8, hfits⟩ := h s (mem_stringTexts.mpr hu)
        exact ⟨hfits, Text.repaired_eq_iff.mpr hutf8⟩
    | _ => trivial
  obtain ⟨q, hyield, hvalue⟩ := p.exists_reprint hfaithful
  exact parse_eq_ok_iff_exists.mpr ⟨⟨b, q⟩, hyield.trans hspelled.symm, hvalue⟩

/-- If a printed expression is read as anything, no string was too long, and the
strings of what is read are the repaired ones. -/
theorem strings_of_spelled_reprint {e : Source} (h : parse (scan text) = .ok e) :
    (∀ s ∈ p.value.strings, s.Fits) ∧ e.strings = p.value.strings.map Text.repaired := by
  rw [p.strings_value]
  have hfits : ∀ s ∈ stringTexts p.yield, s.Fits := by
    intro s hs
    by_contra hlong
    apply longString_not_mem_of_parse h
    rw [hspelled]
    refine List.mem_map.mpr ⟨.string s, mem_stringTexts.mp hs, ?_⟩
    rw [Terminal.reprinted, if_neg hlong]
  obtain ⟨⟨c, q⟩, hyield, rfl⟩ := parse_eq_ok_iff_exists.mp h
  have hprinted : q.yield = reprint p.yield := hyield.trans hspelled
  refine ⟨hfits, q.strings_value.trans ?_⟩
  rw [hprinted, stringTexts_reprint hfits]

end Reprint

/-- A program is compiled to itself from its source text exactly if all its strings are
UTF-8 and, as they are written, no longer than a string may be. -/
theorem compile_source_iff_strings_survive
    (source : Text) (e : Source) (indent : Nat) (h : compile source = .ok e) :
    compile (e.source indent) = .ok e ↔
      ∀ s ∈ e.strings, s.isUtf8 = true ∧
        1 + s.charCount + s.chars.countP Outline.isEscaped ≤ 1000 := by
  obtain ⟨q, rfl, hspelled⟩ := spelled_source_of_compile h indent
  constructor
  · intro hcompile
    obtain ⟨c, r, -, hparse, hlifted⟩ := exists_phrase_of_compile hcompile
    obtain ⟨hfits, hrepaired⟩ := strings_of_spelled_reprint hspelled hparse
    have hback : q.value.strings.map Text.repaired = q.value.strings.map id :=
      calc
        q.value.strings.map Text.repaired = r.value.strings := hrepaired.symm
        _ = r.value.lifted.strings := r.strings_lifted.symm
        _ = q.value.strings.map id := by rw [hlifted, List.map_id]
    intro s hs
    exact ⟨Text.repaired_eq_iff.mp (List.map_inj_left.mp hback s hs), hfits s hs⟩
  · intro hsurvive
    exact compile_of_parse (parse_of_spelled_reprint hspelled hsurvive) (within_of_compile h)

/-- A let that has taken over the rest of its block. In its value and in an argument
there are lets with an empty body. -/
def settledLets : Source :=
  .block ()
    [.letIn () "a" (.letIn () "b" (.string "x\n") [])
      [.apply () (.identifier "f") [.letIn () "c" (.identifier "a") []],
       .letIn () "d" (.integer 2) [.identifier "d"]]]

theorem compile_settledLets :
    compile "\x7blet a = let b = \"x\\n\"; f(let c = a); let d = 2; d\x7d" = .ok settledLets :=
  rfl

/-- Lets that were lifted come back; a string with a stray byte does not. -/
theorem compile_source_settledLets_and_stray :
    compile (settledLets.source 4) = .ok settledLets ∧
      compile [0x22, 0xFF, 0x22] = .ok (.string [0xFF]) ∧
      compile ((Expr.string [0xFF] : Source).source 4) ≠ .ok (.string [0xFF]) := by
  refine ⟨?_, rfl, ?_⟩
  · exact (compile_source_iff_strings_survive _ settledLets 4 compile_settledLets).mpr (by decide)
  · intro hcompile
    have hstray := (compile_source_iff_strings_survive [0x22, 0xFF, 0x22] _ 4 rfl).mp hcompile
    exact absurd (hstray [0xFF] (List.mem_singleton.mpr rfl)).1 (by decide)

end BlockLang
