import BlockLang.Proofs.Scanning.Spelling

/-!
# Tokens cover the source

The tokens of a source stand side by side from its first byte to its last one, and
each of them is the first lexeme of the source from its position on. So what holds
of all first lexemes holds of all tokens: they are as long as the bytes they were
read from, and only a string has another literal than these bytes. A word is read
where no other form begins, and there it is never empty.
-/

namespace BlockLang

/-! ## Tokens side by side -/

/-- The bytes of a source that a token covers. -/
def Token.span (source : Text) (t : Token) : Text :=
  (source.drop t.position).take t.length

/-- Tokens that are not empty stand side by side from one position to another. -/
def Tiles : Nat → List Token → Nat → Prop
  | start, [], stop => start = stop
  | start, t :: ts, stop => t.position = start ∧ 1 ≤ t.length ∧ Tiles t.endPosition ts stop

namespace Tiles

variable {start stop : Nat} {ts : List Token}

theorem add_length_le (h : Tiles start ts stop) : start + ts.length ≤ stop := by
  induction ts generalizing start with
  | nil => exact Nat.le_of_eq h
  | cons t ts ih =>
      obtain ⟨rfl, hpos, hrest⟩ := h
      have hle := ih hrest
      simp only [Token.endPosition, List.length_cons] at hle ⊢
      omega

/-- The spans of tokens that stand side by side are one stretch of the source. -/
theorem spans_eq (h : Tiles start ts stop) (source : Text) :
    spans source ts = (source.drop start).take (stop - start) := by
  induction ts generalizing start with
  | nil =>
      obtain rfl : start = stop := h
      simp [spans]
  | cons t ts ih =>
      obtain ⟨rfl, -, hrest⟩ := h
      have hle := hrest.add_length_le
      have hsplit : stop - t.position = t.length + (stop - t.endPosition) := by
        simp only [Token.endPosition] at hle ⊢
        omega
      have htail : spans source ts = (source.drop t.endPosition).take (stop - t.endPosition) :=
        ih hrest
      calc
        spans source (t :: ts) = t.span source ++ spans source ts := rfl
        _ = t.span source ++
              ((source.drop t.position).drop t.length).take (stop - t.endPosition) := by
            rw [htail, Token.endPosition, List.drop_drop]
        _ = (source.drop t.position).take (stop - t.position) := by
            rw [hsplit, List.take_add, Token.span]

end Tiles

theorem tiles_scanAfter (position line : Nat) (s : Text) :
    Tiles position (scanAfter 0 position line s) (position + s.length) := by
  induction s using lexeme_induction generalizing position line with
  | nil => simp [Tiles]
  | cons b s ih =>
      rw [scanAfter_cons, ← Lexeme.length_add_remaining, ← Nat.add_assoc]
      exact ⟨rfl, Lexeme.first_length_pos b s, ih ..⟩

/-- Every token is the first lexeme of the source from its position on, and its line
counts the line ends before it. -/
theorem eq_first_of_mem_scanAfter
    {s : Text} {position line : Nat} {t : Token} (ht : t ∈ scanAfter 0 position line s) :
    position ≤ t.position ∧ ∃ b rest, s.drop (t.position - position) = b :: rest ∧
      t = (Lexeme.first b rest).token t.position
        (line + newlines (s.take (t.position - position))) := by
  induction s using lexeme_induction generalizing position line with
  | nil => simp at ht
  | cons b s ih =>
      rw [scanAfter_cons] at ht
      rcases List.mem_cons.mp ht with rfl | ht
      · exact ⟨Nat.le_refl _, b, s, by simp [Lexeme.token], by simp [Lexeme.token, newlines]⟩
      · obtain ⟨hle, c, rest, hdrop, htoken⟩ := ih ht
        have hoffset : t.position - position = (Lexeme.first b s).length +
            (t.position - (position + (Lexeme.first b s).length)) := by omega
        have htake : newlines ((b :: s).take (t.position - position)) =
            newlines ((b :: s).take (Lexeme.first b s).length) +
              newlines ((Lexeme.remaining b s).take
                (t.position - (position + (Lexeme.first b s).length))) := by
          rw [hoffset, List.take_add, newlines_append, Lexeme.remaining]
        refine ⟨by omega, c, rest, ?_, ?_⟩
        · rw [hoffset, ← List.drop_drop]
          exact hdrop
        · rw [htake, ← Nat.add_assoc]
          exact htoken

/-! ## First lexemes -/

theorem Kind.isError_ofWord (word : Text) : (ofWord word).isError = false := by
  unfold ofWord ofKeyword? keywords
  simp only [List.lookup_cons, List.lookup_nil]
  repeat' split
  all_goals rfl

namespace Scan

/-- Whether a source that starts with byte `b` and goes on with `s` starts with a
word: no other form begins like this. -/
def startsWord (b : UInt8) (s : Text) : Bool :=
  !(isSpace b || startsComment b s || b == 0x22 || isDigit b || isSign b ||
    (b == 0x3D && s.head? == some 0x3E) || (punctuation? b).isSome || isEnd b)

end Scan

namespace Lexeme

/-- A first lexeme is a string, or it is the bytes that it was read from. -/
theorem string_or_span (b : UInt8) (s : Text) :
    (b = 0x22 ∧ first b s = string s) ∨
      (first b s).literal <+: b :: s ∧ (first b s).length = (first b s).literal.length := by
  generalize first b s = lexeme, begins_first b s = h
  cases h with
  | quote h => exact .inl ⟨h, rfl⟩
  | space h => exact .inr ⟨(List.prefix_cons_inj b).mpr (List.takeWhile_prefix _), rfl⟩
  | comment h =>
      obtain ⟨s, rfl⟩ := Scan.eq_of_startsComment h
      refine .inr ⟨(List.prefix_cons_inj b).mpr ?_, rfl⟩
      exact (List.prefix_cons_inj _).mpr (List.takeWhile_prefix _)
  | number h => exact .inr ⟨(List.prefix_cons_inj b).mpr (Scan.word_prefix s), rfl⟩
  | word h => exact .inr ⟨(List.prefix_cons_inj b).mpr (Scan.word_prefix s), rfl⟩
  | arrow h hs =>
      obtain ⟨rest, rfl⟩ : ∃ rest, s = 0x3E :: rest := by
        cases s with
        | nil => cases hs
        | cons c rest => exact ⟨rest, by rw [Option.some.inj hs]⟩
      exact .inr ⟨⟨rest, by rw [h]; rfl⟩, rfl⟩
  | nul h => exact .inr ⟨(List.prefix_cons_inj b).mpr List.nil_prefix, rfl⟩
  | mark h => exact .inr ⟨(List.prefix_cons_inj b).mpr List.nil_prefix, rfl⟩

theorem string_kind (s : Text) :
    (string s).kind = .string ∨ (string s).kind = .openString ∨ (string s).kind = .longString := by
  unfold string
  dsimp only
  split
  · exact .inr (.inr rfl)
  · split
    · exact .inl rfl
    · exact .inr (.inl rfl)

/-- Only a NUL byte is illegal. -/
theorem first_illegal_iff (b : UInt8) (s : Text) : (first b s).kind = .illegal ↔ b = 0x00 := by
  constructor
  · intro hkind
    generalize first b s = lexeme, begins_first b s = h at hkind
    cases h with
    | nul h => exact eq_of_beq h
    | quote h => rcases string_kind s with h | h | h <;> cases h.symm.trans hkind
    | number h =>
        simp only [ofSpan, integerKind] at hkind
        split at hkind
        · cases hkind
        · split at hkind <;> cases hkind
    | mark h =>
        simp only [ofSpan] at hkind
        subst hkind
        unfold Scan.punctuation? at h
        split at h <;> cases h
    | word h =>
        simp only [ofSpan, wordKind] at hkind
        split at hkind
        · cases hkind
        · have hvalid := Kind.isError_ofWord (b :: Scan.word s)
          rw [hkind] at hvalid
          cases hvalid
    | _ => cases hkind
  · rintro rfl
    rfl

/-- Where no other form begins, the bytes up to the next delimiter are a word, and it
is not empty. -/
theorem first_of_startsWord
    {b : UInt8} {s : Text} (h : Scan.startsWord b s = true) :
    Scan.word (b :: s) ≠ [] ∧
      first b s = ofSpan (wordKind (Scan.word (b :: s))) (Scan.word (b :: s)) := by
  simp only [Scan.startsWord, Bool.not_eq_true', Bool.or_eq_false_iff] at h
  obtain ⟨⟨⟨⟨⟨⟨⟨hspace, hcomment⟩, hquote⟩, hdigit⟩, hsign⟩, harrow⟩, hmark⟩, hend⟩ := h
  have hdelimits : Scan.delimits b s = false := by
    simp [Scan.delimits, hspace, hcomment, hmark, hend]
  have hword : Scan.word (b :: s) = b :: Scan.word s := by
    rw [Scan.word, hdelimits]
    rfl
  have hnumeric : Scan.isNumeric (b :: Scan.word s) = false := by
    simp [Scan.isNumeric, hdigit, hsign]
  rw [hword, first_of_not_delimits hdelimits (by simpa using hquote), kindOfWord, hnumeric]
  exact ⟨List.cons_ne_nil _ _, rfl⟩

end Lexeme

/-! ## The tokens of a source -/

/-- Scanning comes to an end, and its tokens cover the source from the first byte to
the last one without a gap. A token that is no string has its bytes as its literal,
every token is on the line of its first byte, only a NUL byte is illegal, and a word
is never empty where one is read. -/
theorem scan_covers_source (source : Text) :
    (scan source).length ≤ source.length ∧
      Tiles 0 (scan source) source.length ∧
      spans source (scan source) = source ∧
      ∀ t ∈ scan source,
        (t.kind ≠ .string → t.kind ≠ .openString → t.kind ≠ .longString →
          t.literal = t.span source) ∧
        t.line = 1 + newlines (source.take t.position) ∧
        (t.kind = .illegal ↔ t.span source = [0x00]) ∧
        ∀ b s, source.drop t.position = b :: s → Scan.startsWord b s = true →
          Scan.word (b :: s) ≠ [] ∧ t.span source = Scan.word (b :: s) := by
  have htiles : Tiles 0 (scan source) source.length := by
    have hscan := tiles_scanAfter 0 1 source
    rwa [Nat.zero_add] at hscan
  refine ⟨by simpa using htiles.add_length_le, htiles, by simpa using htiles.spans_eq source,
    fun t ht => ?_⟩
  obtain ⟨-, b, s, hdrop, htoken⟩ := eq_first_of_mem_scanAfter ht
  rw [Nat.sub_zero] at hdrop htoken
  have hspan : t.span source = (b :: s).take (Lexeme.first b s).length := by
    rw [Token.span, hdrop, htoken]
    rfl
  have hkind : t.kind = (Lexeme.first b s).kind := by rw [htoken]; rfl
  have hliteral : t.literal = (Lexeme.first b s).literal := by rw [htoken]; rfl
  refine ⟨fun hstring hopen hlong => ?_, by rw [htoken]; rfl, ?_, fun c r hc hword => ?_⟩
  · rcases Lexeme.string_or_span b s with ⟨-, hfirst⟩ | ⟨hstart, hlength⟩
    · rw [hkind, hfirst] at hstring hopen hlong
      rcases Lexeme.string_kind s with h | h | h
      · exact absurd h hstring
      · exact absurd h hopen
      · exact absurd h hlong
    · rw [hliteral, hspan, hlength]
      exact List.prefix_iff_eq_take.mp hstart
  · rw [hkind, Lexeme.first_illegal_iff, hspan]
    constructor
    · rintro rfl
      rfl
    · intro hnul
      obtain ⟨n, hn⟩ : ∃ n, (Lexeme.first b s).length = n + 1 :=
        ⟨_, (Nat.sub_add_cancel (Lexeme.first_length_pos b s)).symm⟩
      rw [hn, List.take_succ_cons] at hnul
      exact (List.cons.inj hnul).1
  · obtain ⟨rfl, rfl⟩ := List.cons.inj (hdrop.symm.trans hc)
    obtain ⟨hne, hfirst⟩ := Lexeme.first_of_startsWord hword
    refine ⟨hne, ?_⟩
    rw [hspan, hfirst]
    exact (List.prefix_iff_eq_take.mp (Scan.word_prefix (b :: s))).symm

/-- A word, a string that reaches over a line end, and a NUL byte. -/
theorem scan_covers_string_and_nul :
    let source : Text := "f(\"x\n\"\x00"
    let nul : Token := ⟨.illegal, [0x00], 6, 1, 2⟩
    let name : Token := ⟨.identifier, "f", 0, 1, 1⟩
    Tiles 0 (scan source) source.length ∧ spans source (scan source) = source ∧
      nul ∈ scan source ∧ nul.literal = nul.span source ∧
      nul.line = 1 + newlines (source.take nul.position) ∧
      (nul.kind = .illegal ↔ nul.span source = [0x00]) ∧
      name ∈ scan source ∧ name.span source = Scan.word source := by
  intro source nul name
  obtain ⟨-, htiles, hspans, htokens⟩ := scan_covers_source source
  have hnul : nul ∈ scan source := by decide
  have hname : name ∈ scan source := by decide
  obtain ⟨hliteral, hline, hillegal, -⟩ := htokens nul hnul
  obtain ⟨-, -, -, hword⟩ := htokens name hname
  exact ⟨htiles, hspans, hnul, hliteral (by decide) (by decide) (by decide), hline, hillegal,
    hname, (hword 0x66 (source.drop 1) rfl rfl).2⟩

end BlockLang
