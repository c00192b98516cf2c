import BlockLang.Proofs.Recognition.Prefix
import BlockLang.Proofs.Printing.Phrases

/-!
# Printing and reading back

An expression that was read comes back from its source text exactly if all its
strings do. A string comes back if it is UTF-8 and short enough as it is written:
a stray byte is replaced by a character, and a string that is too long is not
read at all.
-/

namespace BlockLang

open Grammar

/-! ## The strings of an expression -/

namespace Expr

variable {ι : Type}

mutual

/-- The strings in an expression from left to right. -/
def strings : Expr ι → List Text
  | string s => [s]
  | lambda _ _ body => stringsOfAll body
  | block _ es => stringsOfAll es
  | clause _ test result => strings test ++ strings result
  | cond _ clauses => stringsOfClauses clauses
  | letIn _ _ value body => strings value ++ stringsOfAll body
  | define _ _ value => strings value
  | assign _ _ value => strings value
  | apply _ operator operands => strings operator ++ stringsOfAll operands
  | list _ elements => stringsOfAll elements
  | _ => []

/-- The strings in expressions from left to right. -/
def stringsOfAll : List (Expr ι) → List Text
  | [] => []
  | e :: es => strings e ++ stringsOfAll es

/-- The strings in clauses from left to right. -/
def stringsOfClauses : List (Expr ι × Expr ι) → List Text
  | [] => []
  | (test, result) :: clauses => strings test ++ strings result ++ stringsOfClauses clauses

end

end Expr

/-- The text of a string. -/
def Terminal.string? : Terminal → Option Text
  | .string s => some s
  | _ => none

/-- The strings among terminals. -/
def stringTexts (us : List Terminal) : List Text :=
  us.filterMap Terminal.string?

@[simp] theorem stringTexts_nil : stringTexts [] = [] := rfl

@[simp] theorem stringTexts_append (us vs : List Terminal) :
    stringTexts (us ++ vs) = stringTexts us ++ stringTexts vs :=
  List.filterMap_append

@[simp] theorem stringTexts_mark (kind : Kind) (us : List Terminal) :
    stringTexts (.mark kind :: us) = stringTexts us := rfl

@[simp] theorem stringTexts_name (x : Text) (us : List Terminal) :
    stringTexts (.name x :: us) = stringTexts us := rfl

section Marks

variable {α : Type} {f : Terminal → Option α} (hmark : ∀ kind, f (.mark kind) = none)

include hmark

theorem filterMap_preceded (kind : Kind) (yss : List (List Terminal)) :
    (preceded kind yss).filterMap f = yss.flatMap (List.filterMap f) := by
  induction yss with
  | nil => rfl
  | cons ys yss ih =>
      rw [preceded, List.filterMap_cons_none (hmark kind), List.filterMap_append, ih,
        List.flatMap_cons]

theorem filterMap_separated (kind : Kind) (yss : List (List Terminal)) :
    (separated kind yss).filterMap f = yss.flatMap (List.filterMap f) := by
  cases yss with
  | nil => rfl
  | cons ys yss =>
      rw [separated, List.filterMap_append, filterMap_preceded hmark, List.flatMap_cons]

theorem filterMap_listed (yss : List (List Terminal)) :
    (listed yss).filterMap f = yss.flatMap (List.filterMap f) := by
  simp [listed, hmark, filterMap_separated hmark]

theorem filterMap_braced (yss : List (List Terminal)) :
    (braced yss).filterMap f = yss.flatMap (List.filterMap f) := by
  simp [braced, hmark, filterMap_separated hmark]

end Marks

@[simp] theorem stringTexts_listed (yss : List (List Terminal)) :
    stringTexts (listed yss) = yss.flatMap stringTexts :=
  filterMap_listed (fun _ => rfl) yss

@[simp] theorem stringTexts_braced (yss : List (List Terminal)) :
    stringTexts (braced yss) = yss.flatMap stringTexts :=
  filterMap_braced (fun _ => rfl) yss

theorem stringTexts_nameYields (xs : List Name) :
    (nameYields xs).flatMap stringTexts = [] := by
  induction xs with
  | nil => rfl
  | cons x xs ih => exact ih

namespace Grammar

mutual

/-- The strings of an expression are those of its derivation. -/
theorem Phrase.strings_value {b : Bool} : ∀ p : Phrase b, p.value.strings = stringTexts p.yield
  | .simple p => Postfix.strings_value p
  | .define x value => by
      simpa [Phrase.value, Expr.strings, Phrase.yield] using Phrase.strings_value value
  | .assign x value => by
      simpa [Phrase.value, Expr.strings, Phrase.yield] using Phrase.strings_value value
  | .bareLet x value => by
      simpa [Phrase.value, Expr.strings, Expr.stringsOfAll, Phrase.yield]
        using Phrase.strings_value value
  | .cond first rest => by
      have hfirst := Clause.strings_value first
      have hrest := Clauses.strings_values rest
      simp [Phrase.value, Expr.strings, Expr.stringsOfClauses, Phrase.yield, hfirst, hrest]
termination_by structural p => p

theorem Postfix.strings_value : ∀ p : Postfix, p.value.strings = stringTexts p.yield
  | .mk head calls => by
      have hhead := Primary.strings_value head
      rw [Postfix.value, Calls.strings_value calls, hhead, Postfix.yield, stringTexts_append]
termination_by structural p => p

theorem Primary.strings_value : ∀ p : Primary, p.value.strings = stringTexts p.yield
  | .name x => by simp [Primary.value, Expr.strings, Primary.yield]
  | .integer n => by
      simp [Primary.value, Expr.strings, Primary.yield, stringTexts, Terminal.string?]
  | .string s => by
      simp [Primary.value, Expr.strings, Primary.yield, stringTexts, Terminal.string?]
  | .parameters xs => by
      simp [Primary.value, Expr.strings, Primary.yield, stringTexts_nameYields]
  | .block es => by
      simpa [Primary.value, Expr.strings, Primary.yield] using Phrases.strings_values es
  | .lambda word xs body => by
      simpa [Primary.value, Expr.strings, Primary.yield, stringTexts_nameYields]
        using Phrases.strings_values body
  | .letIn x value body => by
      have hvalue := Phrase.strings_value value
      have hbody := Phrases.strings_values body
      simp [Primary.value, Expr.strings, Primary.yield, hvalue, hbody]
termination_by structural p => p

theorem Clause.strings_value : ∀ clause : Clause,
    clause.value.1.strings ++ clause.value.2.strings = stringTexts clause.yield
  | .mk test result => by
      have htest := Phrase.strings_value test
      have hresult := Phrase.strings_value result
      simp [Clause.value, Clause.yield, htest, hresult]
termination_by structural clause => clause

theorem Clauses.strings_values : ∀ clauses : Clauses,
    Expr.stringsOfClauses clauses.values = stringTexts clauses.yield
  | .nil => rfl
  | .cons clause rest => by
      have hclause := Clause.strings_value clause
      have hrest := Clauses.strings_values rest
      simp [Clauses.values, Expr.stringsOfClauses, Clauses.yield, ← hclause, hrest]
termination_by structural clauses => clauses

theorem Phrases.strings_values : ∀ es : Phrases,
    Expr.stringsOfAll es.values = es.yields.flatMap stringTexts
  | .nil => rfl
  | .cons e es => by
      have he := Phrase.strings_value e
      have hes := Phrases.strings_values es
      simp [Phrases.values, Expr.stringsOfAll, Phrases.yields, he, hes]
termination_by structural es => es

theorem Calls.strings_value : ∀ (calls : Calls) {operator : Source},
    (calls.value operator).strings = operator.strings ++ stringTexts calls.yield
  | .nil, _ => by simp [Calls.value, Calls.yield]
  | .cons operands rest, _ => by
      have hoperands := Phrases.strings_values operands
      rw [Calls.value, Calls.strings_value rest, Expr.strings, hoperands]
      simp [Calls.yield]
termination_by structural calls => calls

end

end Grammar

/-! ## Strings that come back -/

/-- A terminal that means the same when it is printed. -/
def Terminal.Faithful : Terminal → Prop
  | .string s => s.Fits ∧ s.repaired = s
  | _ => True

theorem Terminal.reprinted_of_faithful {s : Text} (h : (Terminal.string s).Faithful) :
    (Terminal.string s).reprinted = .string s := by
  rw [Terminal.reprinted, if_pos h.1, h.2]

namespace Grammar

mutual

/-- If all strings come back, the printed terminals have a derivation with the same
value. -/
theorem Phrase.exists_reprint {b : Bool} : ∀ p : Phrase b, Each Terminal.Faithful p.yield →
    ∃ q : Phrase b, q.yield = reprint p.yield ∧ q.value = p.value
  | .simple p, h => by
      obtain ⟨q, hyield, hvalue⟩ := Postfix.exists_reprint p h
      exact ⟨.simple q, hyield, hvalue⟩
  | .define x value, h => by
      simp only [Phrase.yield, each_cons] at h
      obtain ⟨w, hyield, hvalue⟩ := Phrase.exists_reprint value h.2.2.2
      exact ⟨.define x w, by simp [Phrase.yield, hyield, Terminal.reprinted],
        by simp [Phrase.value, hvalue]⟩
  | .assign x value, h => by
      simp only [Phrase.yield, each_cons] at h
      obtain ⟨w, hyield, hvalue⟩ := Phrase.exists_reprint value h.2.2
      exact ⟨.assign x w, by simp [Phrase.yield, hyield, Terminal.reprinted],
        by simp [Phrase.value, hvalue]⟩
  | .bareLet x value, h => by
      simp only [Phrase.yield, each_cons] at h
      obtain ⟨w, hyield, hvalue⟩ := Phrase.exists_reprint value h.2.2.2
      exact ⟨.bareLet x w, by simp [Phrase.yield, hyield, Terminal.reprinted],
        by simp [Phrase.value, hvalue]⟩
  | .cond first rest, h => by
      simp only [Phrase.yield, each_cons, each_append] at h
      obtain ⟨first', hfirst, hvalue⟩ := Clause.exists_reprint first h.2.1
      obtain ⟨rest', hrest, hvalues⟩ := Clauses.exists_reprint rest h.2.2
      exact ⟨.cond first' rest', by simp [Phrase.yield, hfirst, hrest, Terminal.reprinted],
        by simp [Phrase.value, hvalue, hvalues]⟩
termination_by structural p => p

theorem Postfix.exists_reprint : ∀ p : Postfix, Each Terminal.Faithful p.yield →
    ∃ q : Postfix, q.yield = reprint p.yield ∧ q.value = p.value
  | .mk head calls, h => by
      rw [Postfix.yield, each_append] at h
      obtain ⟨head', hhead, hvalue⟩ := Primary.exists_reprint head h.1
      obtain ⟨calls', hcalls, hvalues⟩ := Calls.exists_reprint calls h.2
      exact ⟨.mk head' calls', by simp [Postfix.yield, hhead, hcalls],
        by simp [Postfix.value, hvalue, hvalues]⟩
termination_by structural p => p

theorem Primary.exists_reprint : ∀ p : Primary, Each Terminal.Faithful p.yield →
    ∃ q : Primary, q.yield = reprint p.yield ∧ q.value = p.value
  | .name x, _ => ⟨.name x, rfl, rfl⟩
  | .integer n, _ => by
      have hread := Integer.read_eq_ok_iff.mpr n.denotes
      refine ⟨.integer ⟨Integer.text n.value, n.value, Integer.denotes_text n.value⟩, ?_, rfl⟩
      simp [Primary.yield, Terminal.reprinted, hread]
  | .string s, h => by
      have hstring := Terminal.reprinted_of_faithful (h _ (List.mem_singleton.mpr rfl))
      exact ⟨.string s, by simp [Primary.yield, hstring], rfl⟩
  | .parameters xs, _ => by
      refine ⟨.parameters xs, ?_, rfl⟩
      rw [Primary.yield, reprint_listed, reprint_nameYields]
  | .block es, h => by
      obtain ⟨es', hyields, hvalues⟩ := Phrases.exists_reprint es h.of_braced
      exact ⟨.block es', by rw [Primary.yield, Primary.yield, reprint_braced, hyields],
        by rw [Primary.value, Primary.value, hvalues]⟩
  | .lambda word xs body, h => by
      rw [Primary.yield, each_cons, each_append] at h
      obtain ⟨body', hyields, hvalues⟩ := Phrases.exists_reprint body h.2.2.of_braced
      refine ⟨.lambda .letters xs body', ?_, by rw [Primary.value, Primary.value, hvalues]⟩
      rw [Primary.yield, Primary.yield, reprint_cons, reprint_append, reprint_listed,
        reprint_nameYields, reprint_braced, hyields]
      cases word <;> rfl
  | .letIn x value body, h => by
      simp only [Primary.yield, each_cons, each_append] at h
      obtain ⟨w, hyield, hvalue⟩ := Phrase.exists_reprint value h.2.2.2.1
      obtain ⟨body', hyields, hvalues⟩ := Phrases.exists_reprint body h.2.2.2.2.of_braced
      exact ⟨.letIn x w body',
        by simp [Primary.yield, reprint_braced, hyield, hyields, Terminal.reprinted],
        by simp [Primary.value, hvalue, hvalues]⟩
termination_by structural p => p

theorem Clause.exists_reprint : ∀ clause : Clause, Each Terminal.Faithful clause.yield →
    ∃ clause' : Clause, clause'.yield = reprint clause.yield ∧ clause'.value = clause.value
  | .mk test result, h => by
      simp only [Clause.yield, each_cons, each_append] at h
      obtain ⟨test', htest, htestValue⟩ := Phrase.exists_reprint test h.2.1
      obtain ⟨result', hresult, hresultValue⟩ := Phrase.exists_reprint result h.2.2.2.1
      exact ⟨.mk test' result', by simp [Clause.yield, htest, hresult, Terminal.reprinted],
        by simp [Clause.value, htestValue, hresultValue]⟩
termination_by structural clause => clause

theorem Clauses.exists_reprint : ∀ clauses : Clauses, Each Terminal.Faithful clauses.yield →
    ∃ clauses' : Clauses, clauses'.yield = reprint clauses.yield ∧
      clauses'.values = clauses.values
  | .nil, _ => ⟨.nil, rfl, rfl⟩
  | .cons clause rest, h => by
      rw [Clauses.yield, each_append] at h
      obtain ⟨clause', hclause, hvalue⟩ := Clause.exists_reprint clause h.1
      obtain ⟨rest', hrest, hvalues⟩ := Clauses.exists_reprint rest h.2
      exact ⟨.cons clause' rest', by simp [Clauses.yield, hclause, hrest],
        by simp [Clauses.values, hvalue, hvalues]⟩
termination_by structural clauses => clauses

theorem Phrases.exists_reprint : ∀ es : Phrases, (∀ ys ∈ es.yields, Each Terminal.Faithful ys) →
    ∃ es' : Phrases, es'.yields = es.yields.map reprint ∧ es'.values = es.values
  | .nil, _ => ⟨.nil, rfl, rfl⟩
  | .cons e es, h => by
      obtain ⟨he, hes⟩ := List.forall_mem_cons.mp h
      obtain ⟨e', hyield, hvalue⟩ := Phrase.exists_reprint e he
      obtain ⟨es', hyields, hvalues⟩ := Phrases.exists_reprint es hes
      exact ⟨.cons e' es', by simp [Phrases.yields, hyield, hyields],
        by simp [Phrases.values, hvalue, hvalues]⟩
termination_by structural es => es

theorem Calls.exists_reprint : ∀ calls : Calls, Each Terminal.Faithful calls.yield →
    ∃ calls' : Calls, calls'.yield = reprint calls.yield ∧
      ∀ operator, calls'.value operator = calls.value operator
  | .nil, _ => ⟨.nil, rfl, fun _ => rfl⟩
  | .cons operands rest, h => by
      rw [Calls.yield, each_append] at h
      obtain ⟨operands', hyields, hvalues⟩ := Phrases.exists_reprint operands h.1.of_listed
      obtain ⟨rest', hrest, hrestValue⟩ := Calls.exists_reprint rest h.2
      exact ⟨.cons operands' rest', by simp [Calls.yield, reprint_listed, hyields, hrest],
        fun operator => by simp [Calls.value, hvalues, hrestValue]⟩
termination_by structural calls => calls

end

end Grammar

/-! ## Reading back -/

theorem not_isError_of_parse
    {tokens : List Token} {e : Source} (h : parse tokens = .ok e) {t : Token}
    (ht : t ∈ significant tokens) : t.kind.isError = false := by
  by_contra herror
  have hshifted := Automaton.shifted_eq_none_of_mem ht (by simpa using herror) Automaton.start
  obtain ⟨err, -, hfail⟩ := parse_of_not_shifted hshifted
  rw [hfail tokens [] (List.append_nil _).symm] at h
  cases h

theorem longString_not_mem_of_parse
    {source : Text} {e : Source} (h : parse (scan source) = .ok e) :
    .mark .longString ∉ spelled source := by
  intro hmem
  obtain ⟨t, ht, hterminal⟩ := List.mem_map.mp hmem
  have hkind := (Token.terminal_eq_mark_iff.mp hterminal).1
  have hvalid := not_isError_of_parse h ht
  rw [hkind] at hvalid
  cases hvalid

theorem mem_stringTexts {us : List Terminal} {s : Text} : s ∈ stringTexts us ↔ .string s ∈ us := by
  simp only [stringTexts, List.mem_filterMap]
  constructor
  · rintro ⟨u, hu, hs⟩
    cases u with
    | string s' =>
        obtain rfl := Option.some.inj hs
        exact hu
    | _ => cases hs
  · intro hs
    exact ⟨_, hs, rfl⟩

/-- If no string is too long, the strings that are read back are the repaired
ones. -/
theorem stringTexts_reprint {us : List Terminal} (h : ∀ s ∈ stringTexts us, s.Fits) :
    stringTexts (reprint us) = (stringTexts us).map Text.repaired := by
  induction us with
  | nil => rfl
  | cons u us ih =>
      have htail : ∀ s ∈ stringTexts us, s.Fits := fun s hs =>
        h s (mem_stringTexts.mpr (List.mem_cons_of_mem _ (mem_stringTexts.mp hs)))
      rw [reprint_cons]
      cases u with
      | name x => exact ih htail
      | string s =>
          have hs : s.Fits := h s (mem_stringTexts.mpr (List.mem_cons_self ..))
          rw [Terminal.reprinted, if_pos hs]
          exact congrArg (s.repaired :: ·) (ih htail)
      | integer literal =>
          have hnone : (Terminal.integer literal).reprinted.string? = none := by
            rw [Terminal.reprinted]
            split <;> rfl
          rw [stringTexts, List.filterMap_cons_none hnone]
          exact ih htail
      | mark kind =>
          have hnone : (Terminal.mark kind).reprinted.string? = none := by
            unfold Terminal.reprinted
            split <;> simp_all [Terminal.string?]
          rw [stringTexts, List.filterMap_cons_none hnone]
          exact ih htail

/-- What the source text of an expression spells that the grammar derives from what can
be scanned. -/
theorem Grammar.Phrase.spelled_source
    {b : Bool} (p : Phrase b) (h : Each Terminal.Scanned p.yield) (indent : Nat) :
    spelled (p.value.source indent) = reprint p.yield := by
  have htext := p.prints indent h [] Scan.cut_nil
  rw [List.append_nil, spelled_nil, List.append_nil] at htext
  exact htext

/-- What the source text of an expression spells that was read. -/
theorem spelled_source
    {source : Text} {e : Source} (h : parse (scan source) = .ok e) (indent : Nat) :
    ∃ (b : Bool) (p : Phrase b), p.value = e ∧ spelled (e.source indent) = reprint p.yield := by
  obtain ⟨⟨b, p⟩, hyield, rfl⟩ := parse_eq_ok_iff_exists.mp h
  have hspelled : p.yield = spelled source := hyield
  refine ⟨b, p, rfl, p.spelled_source ?_ indent⟩
  rw [hspelled]
  exact fun u hu => scanned_of_mem_spelled hu

/-- An expression that was read is read back from its source text exactly if all its
strings are UTF-8 and, as they are written, no longer than a string may be. -/
theorem parse_source_iff_strings_survive
    (source : Text) (e : Source) (indent : Nat) (h : parse (scan source) = .ok e) :
    parse (scan (e.source indent)) = .ok e ↔
      ∀ s ∈ e.strings, s.isUtf8 = true ∧
        1 + s.charCount + s.chars.countP Outline.isEscaped ≤ 1000 := by
  obtain ⟨b, p, rfl, hspelled⟩ := spelled_source h indent
  rw [p.strings_value]
  constructor
  · intro hparse
    have hfits : ∀ s ∈ stringTexts p.yield, s.Fits := by
      intro s hs
      by_contra hlong
      apply longString_not_mem_of_parse hparse
      rw [hspelled]
      refine List.mem_map.mpr ⟨.string s, mem_stringTexts.mp hs, ?_⟩
      rw [Terminal.reprinted, if_neg hlong]
    obtain ⟨⟨c, q⟩, hyield, hvalue⟩ := parse_eq_ok_iff_exists.mp hparse
    have hprinted : q.yield = reprint p.yield := hyield.trans hspelled
    have hback : (stringTexts p.yield).map Text.repaired = (stringTexts p.yield).map id :=
      calc
        (stringTexts p.yield).map Text.repaired = stringTexts (reprint p.yield) :=
          (stringTexts_reprint hfits).symm
        _ = stringTexts q.yield := by rw [hprinted]
        _ = q.value.strings := q.strings_value.symm
        _ = p.value.strings := congrArg Expr.strings hvalue
        _ = (stringTexts p.yield).map id := by rw [p.strings_value, List.map_id]
    intro s hs
    exact ⟨Text.repaired_eq_iff.mp (List.map_inj_left.mp hback s hs), hfits s hs⟩
  · intro hsurvive
    have hfaithful : Each Terminal.Faithful p.yield := by
      intro u hu
      cases u with
      | string s =>
          obtain ⟨hutf8, hfits⟩ := hsurvive s (mem_stringTexts.mpr hu)
          exact ⟨hfits, Text.repaired_eq_iff.mpr hutf8⟩
      | _ => trivial
    obtain ⟨q, hyield, hvalue⟩ := p.exists_reprint hfaithful
    exact parse_eq_ok_iff_exists.mpr ⟨⟨b, q⟩, hyield.trans hspelled.symm, hvalue⟩

/-- A let whose value is a block that ends in a let without braces. -/
def nestedLet : Source :=
  .letIn () "x" (.block () [.letIn () "y" (.string "a\n") [.placeholder]])
    [.apply () (.lambda () ["z"] [.assign () "x" (.identifier "z")]) [.integer 7]]

theorem parse_nestedLet :
    parse (scan "let x = \x7blet y = \"a\\n\"\x7d \x7bλ(z) \x7bx=z\x7d(+7)\x7d") = .ok nestedLet :=
  rfl

/-- Nested lets come back although they were written otherwise; a string with a stray
byte does not. -/
theorem parse_source_nestedLet_and_stray :
    parse (scan (nestedLet.source 2)) = .ok nestedLet ∧
      parse (scan [0x22, 0xFF, 0x22]) = .ok (.string [0xFF]) ∧
      parse (scan ((Expr.string [0xFF] : Source).source 2)) ≠ .ok (.string [0xFF]) := by
  refine ⟨?_, rfl, ?_⟩
  · exact (parse_source_iff_strings_survive _ nestedLet 2 parse_nestedLet).mpr (by decide)
  · intro hparse
    have hstray := (parse_source_iff_strings_survive [0x22, 0xFF, 0x22] _ 2 rfl).mp hparse
    exact absurd (hstray [0xFF] (List.mem_singleton.mpr rfl)).1 (by decide)

end BlockLang
