import BlockLang.Proofs.Prompting
import BlockLang.Proofs.Recognition.Prefix
import BlockLang.Proofs.Scanning.Locality

/-!
# Completing an input

Whatever the parser has begun can be completed, so an error is incomplete
exactly if further lines could still mend it. Names, parentheses and braces are
enough to complete every state: an expression that is wanted can be the name
`a`, and each context has a closing token. At the prompt, this is why no line is asked
for after a hopeless input.
-/

namespace BlockLang

open Grammar

/-! ## Texts that go on -/

/-- Some text spells terminals with a property. -/
def Attainable (P : List Terminal → Prop) : Prop :=
  ∃ t, P (spelled t)

/-- The name that completions use. -/
def filler : Name :=
  ⟨[0x61], by decide⟩

namespace Attainable

theorem mono {P Q : List Terminal → Prop} (hP : Attainable P) (h : ∀ us, P us → Q us) :
    Attainable Q := by
  obtain ⟨t, ht⟩ := hP
  exact ⟨t, h _ ht⟩

theorem mark
    {P : List Terminal → Prop} {kind : Kind} (b : UInt8) (h : Scan.punctuation? b = some kind)
    (hP : Attainable P) : Attainable (MarkThen kind P) := by
  obtain ⟨t, ht⟩ := hP
  refine ⟨b :: 0x20 :: t, spelled t, ?_, ht⟩
  rw [spelled_mark h (fun _ => by simp), spelled_space rfl]

theorem arrow {P : List Terminal → Prop} (hP : Attainable P) :
    Attainable (MarkThen .arrow P) := by
  obtain ⟨t, ht⟩ := hP
  exact ⟨0x3D :: 0x3E :: t, spelled t, spelled_arrow t, ht⟩

theorem name {P : Text → List Terminal → Prop} (hP : Attainable (P filler)) :
    Attainable (NameThen P) := by
  obtain ⟨t, ht⟩ := hP
  have hword : Scan.IsWord filler := ⟨nofun, rfl, by rintro b ⟨⟩; decide⟩
  refine ⟨filler ++ 0x20 :: t, filler, spelled t, ?_, ht⟩
  rw [spelled_word hword (Scan.cut_cons rfl t), spelled_space rfl]
  rfl

theorem calls
    {P : Source → List Terminal → Prop} {e : Source} (hP : Attainable (P e)) :
    Attainable (CallsThen P e) :=
  hP.mono fun us hus => ⟨.nil, us, rfl, hus⟩

theorem phrase
    {P : Source → List Terminal → Prop} (hP : Attainable (P (.identifier filler))) :
    Attainable (PhraseThen P) := by
  have hname : Attainable (NameThen fun x us => x = filler ∧ P (.identifier x) us) :=
    name (hP.mono fun _ hus => ⟨rfl, hus⟩)
  refine hname.mono ?_
  rintro _ ⟨x, us, rfl, -, hus⟩
  exact ⟨false, .simple (.mk (.name x) .nil), us, rfl, nofun, hus⟩

theorem closeParen {P : List Terminal → Prop} (hP : Attainable P) :
    Attainable (MarkThen .closeParen P) :=
  mark 0x29 rfl hP

theorem moreNames {P : List Text → List Terminal → Prop} (hP : Attainable (P [])) :
    Attainable (MoreNamesThen P) :=
  hP.closeParen.mono fun _ ⟨us, h, hus⟩ => ⟨[], us, h, hus⟩

theorem names {P : List Text → List Terminal → Prop} (hP : Attainable (P [])) :
    Attainable (NamesThen P) :=
  hP.closeParen.mono fun _ ⟨us, h, hus⟩ => ⟨[], us, h, hus⟩

theorem clauses {P : List (Source × Source) → List Terminal → Prop} (hP : Attainable (P [])) :
    Attainable (ClausesThen P) :=
  hP.mono fun us hus => ⟨.nil, us, rfl, hus⟩

section Series

variable {sep close : Kind} {P : List Source → List Terminal → Prop}

theorem more (b : UInt8) (h : Scan.punctuation? b = some close) (hP : Attainable (P [])) :
    Attainable (MoreThen sep close P) :=
  (hP.mark b h).mono fun _ ⟨us, h, hus⟩ => ⟨.nil, us, h, hus⟩

theorem series (b : UInt8) (h : Scan.punctuation? b = some close) (hP : Attainable (P [])) :
    Attainable (SeriesThen sep close P) :=
  (hP.mark b h).mono fun _ ⟨us, h, hus⟩ => ⟨.nil, us, h, hus⟩

end Series

end Attainable

/-! ## Every state can be completed -/

namespace Automaton

theorem attainable_resumes (k : List Context) (e : Source) :
    ∃ r, Attainable (Resumes r k e) := by
  induction k generalizing e with
  | nil => exact ⟨e, [], spelled_nil, rfl⟩
  | cons c k ih =>
      cases c with
      | statement role done => exact (ih _).imp fun r h => .more 0x7D rfl h.calls
      | argument operator done => exact (ih _).imp fun r h => .more 0x29 rfl h.calls
      | test clauses => exact (ih _).imp fun r h => .arrow <| .phrase h.clauses.closeParen
      | result clauses test => exact (ih _).imp fun r h => h.clauses.closeParen
      | binding form x =>
          cases form with
          | define => exact ih _
          | assign => exact ih _
          | letIn =>
              have hbody : ∀ r, Attainable (Resumes r k (.letIn () x e [])) →
                  Attainable (MarkThen .openBrace (SeriesThen .semicolon .closeBrace fun es =>
                    CallsThen (Resumes r k) (.letIn () x e es))) :=
                fun r h => .mark 0x7B rfl (.series 0x7D rfl h.calls)
              exact (ih _).imp fun r h => (hbody r h).mono fun _ hus => .inr hus

theorem attainable_afterList (role : ListRole) (k : List Context) (xs : List Text) :
    ∃ r, Attainable (AfterList r k xs role) := by
  cases role with
  | plain => exact (attainable_resumes k _).imp fun r h => h.calls
  | lambda =>
      exact (attainable_resumes k _).imp fun r h => .mark 0x7B rfl (.series 0x7D rfl h.calls)

/-- Whatever has been begun can be completed. -/
theorem attainable_accepts (s : State) : ∃ r, Attainable (Accepts r s) := by
  obtain ⟨next, k⟩ := s
  simp only [Accepts]
  cases next with
  | expression => exact (attainable_resumes k _).imp fun r h => .phrase h
  | statementOrClose role => exact (attainable_resumes k _).imp fun r h => .series 0x7D rfl h.calls
  | argumentOrClose operator =>
      exact (attainable_resumes k _).imp fun r h => .series 0x29 rfl h.calls
  | afterName x =>
      exact (attainable_resumes k (.identifier x)).imp fun r h => h.calls.mono fun _ hus => .inr hus
  | afterExpression e => exact (attainable_resumes k _).imp fun r h => h.calls
  | lambdaOpen => exact (attainable_afterList _ k _).imp fun r h => .mark 0x28 rfl h.names
  | parameterOrClose role => exact (attainable_afterList _ k _).imp fun r h => h.names
  | parameter role done =>
      exact (attainable_afterList _ k _).imp fun r h => .name h.moreNames
  | afterParameter role done => exact (attainable_afterList _ k _).imp fun r h => h.moreNames
  | bodyOpen xs => exact attainable_afterList _ k xs
  | clauseOpen =>
      exact (attainable_resumes k _).imp fun r h =>
        .mark 0x28 rfl <| .phrase <| .arrow <| .phrase h.clauses.closeParen
  | afterClause clauses => exact (attainable_resumes k _).imp fun r h => h.clauses
  | bindingName form =>
      exact (attainable_resumes (.binding form filler :: k) _).imp fun r h =>
        .name <| .mark 0x3D rfl <| .phrase h
  | bindingEquals form x =>
      exact (attainable_resumes (.binding form x :: k) _).imp fun r h =>
        .mark 0x3D rfl <| .phrase h

end Automaton

/-! ## Sources and further lines -/

/-- Further lines can make an expression of a source. -/
def Completable (source : Text) : Prop :=
  ∃ (t : Text) (e : Source), parse (scan (source ++ "\n" ++ t)) = .ok e

theorem exists_significant_newline
    {source : Text} (h : ¬EndsInOpenString source) (t : Text) :
    ∃ us, significant (scan (source ++ "\n" ++ t)) = significant (scan source) ++ us ∧
      us.map Token.terminal = spelled t := by
  refine ⟨_, ?_, terminals_scanAfter (0 + source.length + 1) (1 + newlines source + 1) t⟩
  rw [append_newline, scan, significant_scanAfter_newline source t (not_openEnd h)]
  rfl

theorem completable_of_shifted
    {source : Text} (h : ¬EndsInOpenString source) {s : Automaton.State}
    (hs : Automaton.shifted Automaton.start (significant (scan source)) = some s) :
    Completable source := by
  obtain ⟨r, t, ht⟩ := Automaton.attainable_accepts s
  obtain ⟨us, hus, hspelled⟩ := exists_significant_newline h t
  refine ⟨t, r, parse_eq_ok_iff_run.mpr ?_⟩
  rw [hus, Automaton.run_append_of_shifted hs, Automaton.run_eq_ok_iff, hspelled]
  exact ht

/-- An incomplete error is one that further lines could mend. -/
theorem incomplete_iff_completable
    {source : Text} (h : ¬EndsInOpenString source) {err : SyntaxError}
    (herr : parse (scan source) = .error err) :
    err.incomplete = true ↔ Completable source := by
  rw [incomplete_iff_shifted herr]
  constructor
  · rintro ⟨s, hs⟩
    exact completable_of_shifted h hs
  · rintro ⟨t, e, he⟩
    obtain ⟨us, hus, -⟩ := exists_significant_newline h t
    cases hshift : Automaton.shifted Automaton.start (significant (scan source)) with
    | some s => exact ⟨s, rfl⟩
    | none =>
        obtain ⟨err', -, hfail⟩ := parse_of_not_shifted hshift
        rw [hfail _ us hus] at he
        cases he

/-- No further line changes any other error. -/
theorem parse_newline_of_not_incomplete
    {source : Text} (h : ¬EndsInOpenString source) {err : SyntaxError}
    (herr : parse (scan source) = .error err) (hcomplete : err.incomplete = false) (t : Text) :
    parse (scan (source ++ "\n" ++ t)) = .error err := by
  obtain ⟨us, hus, -⟩ := exists_significant_newline h t
  cases hshift : Automaton.shifted Automaton.start (significant (scan source)) with
  | some s =>
      have := (incomplete_iff_shifted herr).mpr ⟨s, hshift⟩
      simp [hcomplete] at this
  | none =>
      obtain ⟨err', -, hfail⟩ := parse_of_not_shifted hshift
      rw [hfail _ us hus, ← hfail (scan source) [] (List.append_nil _).symm, herr]

/-! ## Open strings -/

theorem Kind.isTrivia_of_isError {kind : Kind} (h : kind.isError = true) :
    kind.isTrivia = false := by
  cases kind <;> first | rfl | cases h

/-- A source that ends in an open string has a malformed token. -/
theorem EndsInOpenString.shifted_eq_none
    {source : Text} (h : EndsInOpenString source) (s : Automaton.State) :
    Automaton.shifted s (significant (scan source)) = none := by
  obtain ⟨t, ht, s', -, hopen, hkind, -⟩ := h.exists_token
  have herror : t.kind.isError = true := by
    rw [hkind, Lexeme.string]
    simp only [hopen.1]
    split <;> rfl
  have hmem : t ∈ significant (scan source) :=
    List.mem_filter.mpr ⟨ht, by simp [Token.isTrivia, Kind.isTrivia_of_isError herror]⟩
  exact Automaton.shifted_eq_none_of_mem hmem herror s

/-! ## Reading at the prompt -/

/-- A source is no expression yet, but further lines could make it one, and it
is not of a kind that the prompt hands over in any case: a command, a blank line,
or a source that ends in an open string. -/
structure Pending (source : Text) : Prop where
  not_expression : ∀ e, parse (scan source) ≠ .ok e
  completable : Completable source
  not_command : isCommand source = false
  not_blank : Text.trim source ≠ []
  not_openString : ¬EndsInOpenString source

/-- A text that asks for another line could be completed by one. -/
theorem AsksForMore.pending {text : Text} (h : AsksForMore text) : Pending text := by
  obtain ⟨err, herr, hincomplete⟩ := h.incomplete
  have hopen : ¬EndsInOpenString text := by
    intro hopen
    obtain ⟨s, hs⟩ := (incomplete_iff_shifted herr).mp hincomplete
    rw [hopen.shifted_eq_none] at hs
    cases hs
  refine ⟨?_, (incomplete_iff_completable hopen herr).mp hincomplete, h.not_command, h.not_blank,
    hopen⟩
  intro e he
  rw [herr] at he
  cases he

/-- A text that is handed over at once is not pending. -/
theorem IsInput.not_pending {text : Text} (h : IsInput text) : ¬Pending text := by
  intro hpending
  rcases h with hblank | hcommand | hcomplete
  · exact hpending.not_blank hblank
  · rw [hpending.not_command] at hcommand
    cases hcommand
  · cases hparse : parse (scan text) with
    | ok e => exact hpending.not_expression e hparse
    | error err =>
        have hincomplete :=
          (incomplete_iff_completable hpending.not_openString hparse).mpr hpending.completable
        rw [hcomplete err hparse] at hincomplete
        cases hincomplete

namespace Prompt

/-- The lines that a reading has kept are those that further lines could complete. A
line was asked for in front of any but the first line of a stretch, and at its end unless
the lines were handed over at once: there each time the lines so far were pending. Lines
that were handed over at once are not. -/
structure Account.AsksWhilePending (a : Account) : Prop where
  dropped : ∀ lines ∈ a.dropped, ∀ shown, shown <+: lines → shown ≠ [] → Pending (textOf shown)
  begun : ∀ shown, shown <+: a.lines → shown ≠ [] → shown ≠ a.lines → Pending (textOf shown)
  kept : a.ending ≠ .handed → ∀ shown, shown <+: a.lines → shown ≠ [] → Pending (textOf shown)
  handed : a.ending = .handed → ¬Pending (textOf a.lines)

theorem Account.Sound.asksWhilePending {a : Account} {rest : List Typed} (h : a.Sound rest) :
    a.AsksWhilePending where
  dropped := by
    intro lines hlines shown hshown hne
    exact (h.dropped lines hlines shown hshown hne).pending
  begun := by
    intro shown hshown hne hproper
    exact (h.begun shown hshown hne hproper).pending
  kept := by
    intro hending shown hshown hne
    exact (h.pending hending shown hshown hne).pending
  handed := by
    intro hending
    exact (h.handed hending).2.not_pending

end Prompt

/-- An error is incomplete exactly if further lines could still mend it, and any
other error stays the same whatever lines follow. So whatever is typed, and whether a
reading ends with an input, with a failure or at the end of what is typed, the prompt has
asked for another line only after pending lines, also where they were given up in the end.
It hands pending lines over only at the end of what is typed. -/
theorem incomplete_iff_further_lines_mend :
    (∀ source, ¬EndsInOpenString source →
      ((∃ err, parse (scan source) = .error err ∧ err.incomplete = true) ↔
        (∃ err, parse (scan source) = .error err) ∧ Completable source) ∧
      ∀ err, parse (scan source) = .error err → err.incomplete = false →
        ∀ t : Text, parse (scan (source ++ "\n" ++ t)) = .error err) ∧
    ∀ typed, ∃ a : Prompt.Account, a.Explains typed (Prompt.readInput typed) ∧
      a.AsksWhilePending ∧
      ∀ text, (Prompt.readInput typed).input = some text → Pending text →
        (Prompt.readInput typed).rest = [] := by
  refine ⟨fun source h => ⟨⟨?_, ?_⟩, ?_⟩, fun typed => ?_⟩
  · rintro ⟨err, herr, hincomplete⟩
    exact ⟨⟨err, herr⟩, (incomplete_iff_completable h herr).mp hincomplete⟩
  · rintro ⟨⟨err, herr⟩, hcompletable⟩
    exact ⟨err, herr, (incomplete_iff_completable h herr).mpr hcompletable⟩
  · intro err herr hcomplete t
    exact parse_newline_of_not_incomplete h herr hcomplete t
  · obtain ⟨a, ha⟩ := Prompt.exists_explains_readInput typed
    have hasks := ha.sound.asksWhilePending
    refine ⟨a, ha, hasks, fun text htext hpending => ?_⟩
    rw [ha.input, Prompt.Account.input] at htext
    by_cases hhanded : a.ending = .handed
    · rw [if_pos (.inl hhanded), Option.some.injEq] at htext
      rw [← htext] at hpending
      exact absurd hpending (hasks.handed hhanded)
    · by_cases hcut : a.ending = .cutOff
      · exact (ha.sound.cutOff hcut).2
      · rw [if_neg (by rintro (h | h) <;> contradiction)] at htext
        cases htext

theorem not_endsInOpenString_call : ¬EndsInOpenString ":f(" := by
  decide

/-- An unfinished call is incomplete. In a reading that gives one up and loses another
one to a failing prompt, every further line was asked for rightly. -/
theorem incomplete_call_is_completable :
    let typed : List Typed := [.line "f(", .abort, .line "g(", .line "1,", .broken, .line "h"]
    ¬EndsInOpenString ":f(" ∧ Completable ":f(" ∧
      ∃ a : Prompt.Account,
        a.Explains typed ⟨none, [.first, .further, .first, .further, .further], [.line "h"]⟩ ∧
        a.AsksWhilePending := by
  intro typed
  obtain ⟨hsource, htyped⟩ := incomplete_iff_further_lines_mend
  have hopen := (hsource ":f(" not_endsInOpenString_call).1
  obtain ⟨a, hexplains, hasks, -⟩ := htyped typed
  exact ⟨not_endsInOpenString_call, (hopen.mp ⟨_, rfl, rfl⟩).2, a, hexplains, hasks⟩

/-- A command is handed over although a further line would make an expression of
it. -/
theorem readInput_command_completable :
    (Prompt.readInput [.line ":f(", .line "1)"]).input = some (":f(" : Text) ∧
      (∃ e, parse (scan (":f(" ++ "\n" ++ "1)")) = .ok e) ∧
      (∀ e, parse (scan ":f(") ≠ .ok e) ∧ ¬EndsInOpenString ":f(" :=
  ⟨rfl, ⟨_, rfl⟩, by rintro e ⟨⟩, not_endsInOpenString_call⟩

end BlockLang
