import BlockLang.Failure
import BlockLang.Proofs.Places
import BlockLang.Proofs.Recognition.Prefix
import BlockLang.Proofs.Scanning.Tiling

/-!
# Reports of syntax errors

The report of an error shows the line of the offending token and a caret under its
first byte. Two counts meet there. Scanning counts the lines byte by byte, the place
of a token is found character by character. They agree because a token never starts
within a character: the bytes that tokens end with or stop in front of are characters
by themselves.
-/

namespace BlockLang

open Text (isSingle)

/-! ## Edges of lexemes -/

namespace Scan

theorem isSingle_of_isSpace {b : UInt8} (h : isSpace b = true) : isSingle b = true := by
  simp only [isSpace, Bool.or_eq_true, beq_iff_eq] at h
  rcases h with ((rfl | rfl) | rfl) | rfl <;> rfl

theorem isSingle_of_isEnd {b : UInt8} (h : isEnd b = true) : isSingle b = true := by
  obtain rfl := eq_of_beq h
  rfl

theorem isSingle_of_punctuation {b : UInt8} {kind : Kind} (h : punctuation? b = some kind) :
    isSingle b = true := by
  unfold punctuation? at h
  split at h <;> first | rfl | cases h

theorem isSingle_of_delimits {b : UInt8} {s : Text} (h : delimits b s = true) :
    isSingle b = true := by
  simp only [delimits, startsComment, Bool.or_eq_true, Bool.and_eq_true, beq_iff_eq,
    Option.isSome_iff_exists] at h
  rcases h with ((h | h) | ⟨rfl, -⟩) | ⟨kind, h⟩
  · exact isSingle_of_isSpace h
  · exact isSingle_of_isEnd h
  · rfl
  · exact isSingle_of_punctuation h

/-- A word stops in front of a single byte. -/
theorem exists_word_append (s : Text) :
    ∃ rest, s = word s ++ rest ∧ ∀ b ∈ rest.head?, isSingle b = true := by
  induction s with
  | nil => exact ⟨[], rfl, nofun⟩
  | cons b s ih =>
      rw [word]
      split
      · rename_i h
        refine ⟨b :: s, rfl, ?_⟩
        rintro _ ⟨⟩
        exact isSingle_of_delimits h
      · obtain ⟨rest, hs, hrest⟩ := ih
        exact ⟨rest, congrArg (b :: ·) hs, hrest⟩

/-- A comment stops in front of a single byte. -/
theorem exists_commentBody_append (s : Text) :
    ∃ rest, s = commentBody s ++ rest ∧ ∀ b ∈ rest.head?, isSingle b = true := by
  refine ⟨_, List.takeWhile_append_dropWhile.symm, fun b hb => ?_⟩
  have hstop := List.head?_dropWhile_not (fun b => b != 0x0A && !isEnd b) s
  rw [hb] at hstop
  simp only [Bool.and_eq_false_iff, bne_eq_false_iff_eq, Bool.not_eq_false'] at hstop
  rcases hstop with rfl | h
  · rfl
  · exact isSingle_of_isEnd h

/-- Behind the body of a string stands its closing quote, or a byte that ends the source. -/
theorem Body.exists_append {s : Text} {body : StringBody} (h : Body s body) :
    ∃ span rest, s = span ++ rest ∧ span.length = body.length ∧
      (body.closed = true ∧ rest.head? = some 0x22 ∨
        body.closed = false ∧ ∀ b ∈ rest.head?, isSingle b = true) := by
  induction h with
  | nil => exact ⟨[], [], rfl, rfl, .inr ⟨rfl, nofun⟩⟩
  | @stop b s hb =>
      refine ⟨[], b :: s, rfl, rfl, .inr ⟨rfl, ?_⟩⟩
      rintro _ ⟨⟩
      exact isSingle_of_isEnd hb
  | @quote s => exact ⟨[], 0x22 :: s, rfl, rfl, .inl ⟨rfl, rfl⟩⟩
  | @escape e s body he h ih =>
      obtain ⟨span, rest, rfl, hlength, hrest⟩ := ih
      exact ⟨0x5C :: e :: span, rest, rfl, congrArg (· + 2) hlength, hrest⟩
  | @plain b s body hb hquote hescape h ih =>
      obtain ⟨span, rest, rfl, hlength, hrest⟩ := ih
      exact ⟨b :: span, rest, rfl, congrArg (· + 1) hlength, hrest⟩

end Scan

namespace Lexeme

/-- A lexeme ends between two characters of the source that it starts. -/
def Ends (lexeme : Lexeme) (source : Text) : Prop :=
  ∃ span rest, source = span ++ rest ∧ lexeme.length = span.length ∧ Text.Apart span rest

theorem ends_string (s : Text) : (string s).Ends (0x22 :: s) := by
  obtain ⟨span, rest, hs, hlength, ⟨hclosed, hquote⟩ | ⟨hopen, hrest⟩⟩ :=
    (Scan.body_stringBody s).exists_append
  · obtain ⟨rest, rfl⟩ := List.head?_eq_some_iff.mp hquote
    refine ⟨0x22 :: span ++ [0x22], rest, by simp [hs], ?_, Text.apart_concat rfl _ _⟩
    simp [string, hclosed, hlength]
  · exact ⟨0x22 :: span, rest, by simp [hs], by simp [string, hopen, hlength], .inr hrest⟩

theorem ends_ofSpan_singleton {b : UInt8} (h : isSingle b = true) (kind : Kind) (s : Text) :
    (ofSpan kind [b]).Ends (b :: s) :=
  ⟨[b], s, rfl, rfl, Text.apart_concat h [] s⟩

theorem ends_ofSpan_word (kind : Kind) (b : UInt8) (s : Text) :
    (ofSpan kind (b :: Scan.word s)).Ends (b :: s) := by
  obtain ⟨rest, hs, hrest⟩ := Scan.exists_word_append s
  exact ⟨b :: Scan.word s, rest, congrArg (b :: ·) hs, rfl, .inr hrest⟩

/-- No lexeme ends within a character. -/
theorem Begins.ends {b : UInt8} {s : Text} {lexeme : Lexeme} (h : Begins b s lexeme) :
    lexeme.Ends (b :: s) := by
  cases h with
  | space h =>
      refine ⟨b :: s.takeWhile Scan.isSpace, s.dropWhile Scan.isSpace, ?_, rfl, .inl ?_⟩
      · rw [List.cons_append, List.takeWhile_append_dropWhile]
      · intro c hc
        apply Scan.isSingle_of_isSpace
        rcases List.mem_cons.mp (List.mem_of_getLast? hc) with rfl | hc
        · exact h
        · exact List.all_eq_true.mp List.all_takeWhile c hc
  | comment h =>
      obtain ⟨s, rfl⟩ := Scan.eq_of_startsComment h
      obtain ⟨rest, hs, hrest⟩ := Scan.exists_commentBody_append s
      exact ⟨b :: 0x2F :: Scan.commentBody s, rest, congrArg (b :: 0x2F :: ·) hs, rfl, .inr hrest⟩
  | quote h =>
      subst h
      exact ends_string s
  | number h => exact ends_ofSpan_word _ b s
  | word h => exact ends_ofSpan_word _ b s
  | arrow h hs =>
      subst h
      rcases s with _ | ⟨c, s⟩
      · cases hs
      · obtain rfl : c = 0x3E := Option.some.inj hs
        exact ⟨[0x3D] ++ [0x3E], s, rfl, rfl, Text.apart_concat rfl [0x3D] s⟩
  | nul h => exact ends_ofSpan_singleton (Scan.isSingle_of_isEnd h) _ s
  | mark h => exact ends_ofSpan_singleton (Scan.isSingle_of_punctuation h) _ s

end Lexeme

/-- No token starts within a character. -/
theorem apart_of_mem_scanAfter
    {front s : Text} {position line : Nat} {t : Token} (hfront : Text.Apart front s)
    (ht : t ∈ scanAfter 0 position line s) :
    Text.Apart (front ++ s.take (t.position - position)) (s.drop (t.position - position)) := by
  -- `front` takes up one lexeme after the other; all that matters of it is its last byte.
  induction s using lexeme_induction generalizing front position line with
  | nil => simp at ht
  | cons b s ih =>
      obtain ⟨span, rest, hsource, hlength, hapart⟩ := (Lexeme.begins_first b s).ends
      have hspan : span ≠ [] := by
        rintro rfl
        cases hlength ▸ Lexeme.first_length_pos b s
      have hremaining : Lexeme.remaining b s = rest := by
        rw [Lexeme.remaining, hsource, hlength, List.drop_left]
      rw [scanAfter_cons] at ht
      rcases List.mem_cons.mp ht with rfl | ht
      · simpa [Lexeme.token] using hfront
      · have hle := (eq_first_of_mem_scanAfter ht).1
        have hrest := hapart.append_left hspan front
        have hoffset : t.position - position = span.length +
            (t.position - (position + (Lexeme.first b s).length)) := by omega
        rw [← hremaining] at hrest
        have hnext := ih hrest ht
        rwa [hremaining, List.append_assoc, ← List.take_length_add_append,
          ← List.drop_length_add_append, ← hsource, ← hoffset] at hnext

/-! ## Excerpts -/

namespace Excerpt

/-- What stands under a character in front of the caret. -/
def blank (c : Char) : UInt8 :=
  if c = '\t' then 0x09 else 0x20

theorem blanked_eq (s : Text) : blanked s = s.chars.map blank := by
  refine List.map_congr_left fun c _ => ?_
  have hiff : c.toNat = 0x09 ↔ c = '\t' := by
    rw [← Char.toNat_inj]
    rfl
  simp [blank, hiff]

theorem apart_markedMargin (line : Nat) (s : Text) : Text.Apart (markedMargin line) s := by
  obtain ⟨front, hfront⟩ : ∃ front, markedMargin line = front ++ [0x20] :=
    ⟨("  >  " : Text) ++ Text.padLeft 3 (Text.ofNat line) ++ [0x20, 0x7C], by
      rw [List.append_assoc]
      rfl⟩
  rw [hfront]
  exact Text.apart_concat rfl front s

/-- The caret stands behind one blank for each character of the margin and of the text
that the column leaves before it. -/
theorem caretLine_eq (line : Nat) {before tail : Text} (h : Text.Apart before tail) :
    caretLine (markedMargin line) (before ++ tail) (before.charCount + 1) =
      (markedMargin line ++ before).chars.map blank ++ "^ unexpected here" := by
  have htake : (Text.chars (before ++ tail)).take before.charCount = before.chars := by
    have hcount : before.charCount = before.chars.length := by
      rw [Text.charCount, Text.chars, List.length_map]
    rw [h.chars_append, hcount, List.take_left]
  have hchars : (Text.ofChars before.chars).chars = before.chars := by
    rw [Text.chars, Text.pieces_ofChars, List.map_map]
    exact List.map_id _
  rw [caretLine, Nat.add_sub_cancel, htake, blanked_eq, (apart_markedMargin line _).chars_append,
    hchars, (apart_markedMargin line before).chars_append]

/-- A block of lines with a caret under the last one, which starts with the text `before`
in front of the caret. -/
def block (lead : List (Text × Nat)) (line : Nat) (content before : Text) : Text :=
  lead.flatMap plainLine ++ markedMargin line ++ content ++ "\n" ++
    ((markedMargin line ++ before).chars.map blank ++ "^ unexpected here")

theorem block_ne_nil (lead : List (Text × Nat)) (line : Nat) (content before : Text) :
    block lead line content before ≠ [] := by
  apply List.append_ne_nil_of_right_ne_nil
  apply List.append_ne_nil_of_right_ne_nil
  decide

end Excerpt

/-- The excerpt for a line of the source, which shows up to two lines before it. -/
theorem exists_excerpt_eq {source content : Text} {n : Nat}
    (h : (Excerpt.lines source)[n]? = some content) (column : Nat) :
    ∃ lead : List (Text × Nat), (∀ p ∈ lead, IsLine source p.2 p.1) ∧
      lead.map Prod.snd = (List.range' 1 n).drop (n - 2) ∧
      excerpt source (n + 1) column =
        lead.flatMap Excerpt.plainLine ++ Excerpt.markedMargin (n + 1) ++ content ++ "\n" ++
          Excerpt.caretLine (Excerpt.markedMargin (n + 1)) content column := by
  have hlt : n < (Excerpt.lines source).length := (List.getElem?_eq_some_iff.mp h).1
  refine ⟨(((Excerpt.lines source).take n).drop (n - 2)).zipIdx (n - 2 + 1), ?_, ?_, ?_⟩
  · rintro ⟨line, number⟩ hmem
    obtain ⟨hle, hget⟩ := List.mk_mem_zipIdx_iff_le_and_getElem?_sub.mp hmem
    have hnumber : n - 2 + (number - (n - 2 + 1)) + 1 = number := by omega
    rw [List.getElem?_drop, List.getElem?_take] at hget
    split at hget
    · exact hnumber ▸ Excerpt.isLine_of_getElem? hget
    · cases hget
  · rw [List.zipIdx_map_snd, List.drop_range', List.length_drop, List.length_take]
    congr 1 <;> omega
  · have hrange : ¬(n + 1 == 0 || decide ((Excerpt.lines source).length < n + 1)) = true := by
      simp
      omega
    simp only [excerpt, if_neg hrange, List.getD_eq_getElem?_getD, Nat.add_sub_cancel, h]
    rfl

/-! ## Reports -/

theorem report_syntaxError {source : Text} {err : SyntaxError} {line column : Nat}
    (hcomplete : err.incomplete = false) (hlength : err.token.length ≠ 0)
    (hline : err.line = line)
    (hplace : Place.ofPosition source err.token.position = ⟨line, column⟩)
    (hexcerpt : excerpt source line column ≠ []) :
    Failure.report source (.parse err) =
      "Parse error on line " ++ Text.ofNat line ++ ": " ++ err.message ++ "\n" ++
        excerpt source line column := by
  have htext : err.text = "line " ++ Text.ofNat line ++ ": " ++ err.message := by
    rw [SyntaxError.text, hcomplete, hline]
    rfl
  have hreport : Failure.report source (.parse err) = Failure.syntaxReport source err := rfl
  rw [hreport, Failure.syntaxReport, hcomplete, if_neg Bool.false_ne_true,
    if_neg (by simpa using hlength), hplace, if_neg (by simpa using hexcerpt), htext]
  simp only [← List.append_assoc]
  rfl

/-- The token of an error that is not incomplete is one of the source that carries
meaning, and the error is on its line. -/
theorem mem_scan_of_error {source : Text} {err : SyntaxError}
    (h : parse (scan source) = .error err) (hcomplete : err.incomplete = false) :
    err.token ∈ scan source ∧ err.token.isTrivia = false ∧ err.line = err.token.line := by
  have hshifted : Automaton.shifted Automaton.start (significant (scan source)) = none := by
    rw [Option.eq_none_iff_forall_ne_some]
    intro s hs
    have hincomplete := (incomplete_iff_shifted h).mpr ⟨s, hs⟩
    cases hcomplete.symm.trans hincomplete
  obtain ⟨front, t, rest, s, htokens, hfront, hstops⟩ :=
    Automaton.exists_stops_of_not_shifted hshifted
  obtain ⟨err', rfl, hline, -, hfail⟩ := parse_of_stops hfront hstops
  obtain rfl : err' = err := Except.error.inj ((hfail _ rest htokens).symm.trans h)
  have hmem : err'.token ∈ significant (scan source) := by simp [htokens]
  obtain ⟨hscan, hkind⟩ := List.mem_filter.mp hmem
  exact ⟨hscan, by simpa using hkind, hline⟩

/-- `before` is what stands on a line of a source in front of a position. -/
def LeadsTo (source : Text) (line : Nat) (before : Text) (position : Nat) : Prop :=
  ∃ front rest, source = front ++ before ++ rest ∧ LineStart front ∧ line = newlines front + 1 ∧
    0x0A ∉ before ∧ position = (front ++ before).length

/-- A token that carries meaning, on the line that scanning counted. -/
theorem exists_line_of_mem_scan {source : Text} {t : Token} (ht : t ∈ scan source)
    (hmeaning : t.isTrivia = false) :
    ∃ front before rest, source = front ++ before ++ rest ∧ LineStart front ∧
      t.line = newlines front + 1 ∧ 0x0A ∉ before ∧ t.position = (front ++ before).length ∧
      Text.Apart (front ++ before) rest ∧ rest.head? ≠ some 0x0A := by
  obtain ⟨-, b, rest, hdrop, htoken⟩ := eq_first_of_mem_scanAfter ht
  have hapart := apart_of_mem_scanAfter (Text.apart_nil source) ht
  rw [Nat.sub_zero] at hdrop htoken hapart
  rw [List.nil_append, hdrop] at hapart
  obtain ⟨front, before, htake, hstart, hbefore⟩ := exists_lineStart (source.take t.position)
  rw [htake] at hapart htoken
  refine ⟨front, before, b :: rest, ?_, hstart, ?_, hbefore, ?_, hapart, ?_⟩
  · rw [← htake, ← hdrop, List.take_append_drop]
  · rw [htoken, Lexeme.token, newlines_append, newlines_eq_zero_iff.mpr hbefore, Nat.add_zero,
      Nat.add_comm]
  · have hlength := congrArg List.length hdrop
    rw [List.length_drop, List.length_cons] at hlength
    rw [← htake, List.length_take]
    omega
  · rintro ⟨⟩
    rw [htoken] at hmeaning
    cases hmeaning

/-- What the excerpt for a token shows: the token is on the line that scanning counted,
behind the text `before`, this line is shown as `content`, and above it the lines
`lead`. The column of the token is on the line or right behind it. -/
structure Shows (source : Text) (t : Token) (lead : List (Text × Nat)) (content before : Text) :
    Prop where
  place : Place.ofPosition source t.position = ⟨t.line, before.charCount + 1⟩
  leadsTo : LeadsTo source t.line before t.position
  inRange : 1 ≤ t.line ∧ t.line ≤ (Excerpt.lines source).length
  isLine : IsLine source t.line content
  starts : before <+: content
  column : before.charCount ≤ content.charCount
  numbers : lead.map Prod.snd = (List.range' 1 (t.line - 1)).drop (t.line - 3)
  areLines : ∀ p ∈ lead, IsLine source p.2 p.1

/-- The excerpt for a token that carries meaning. -/
theorem exists_shows {source : Text} {t : Token} (ht : t ∈ scan source)
    (hmeaning : t.isTrivia = false) :
    ∃ lead content before, Shows source t lead content before ∧
      excerpt source t.line (before.charCount + 1) =
        Excerpt.block lead t.line content before := by
  obtain ⟨front, before, rest, hsource, hstart, hline, hbefore, hposition, hapart, hrest⟩ :=
    exists_line_of_mem_scan ht hmeaning
  have hplace : Place.ofPosition source t.position = ⟨t.line, before.charCount + 1⟩ := by
    rw [hsource, hposition, hline]
    exact Place.ofPosition_eq hstart hbefore hapart
  have hlt : newlines front < (Excerpt.lines source).length := by
    rw [Excerpt.length_lines, hsource, newlines_append, newlines_append]
    omega
  have hget := List.getElem?_eq_getElem hlt
  generalize (Excerpt.lines source)[newlines front] = content at hget
  have hcontent := Excerpt.isLine_of_getElem? hget
  obtain ⟨tail, rfl, others, rfl⟩ : ∃ tail, content = before ++ tail ∧ tail <+: rest :=
    IsLine.exists_eq_append hstart hbefore hrest (hsource ▸ hcontent)
  have htail : Text.Apart before tail := hapart.of_append
  obtain ⟨lead, hlead, hnumbers, hexcerpt⟩ := exists_excerpt_eq hget (before.charCount + 1)
  rw [Excerpt.caretLine_eq _ htail, ← hline] at hexcerpt
  refine ⟨lead, before ++ tail, before, ⟨hplace, ?_, ?_, hline ▸ hcontent,
    List.prefix_append before tail, ?_, ?_, hlead⟩, hexcerpt⟩
  · exact ⟨front, tail ++ others, hsource, hstart, hline, hbefore, hposition⟩
  · omega
  · rw [Text.charCount, Text.charCount, htail.pieces_append, List.length_append]
    omega
  · rw [hnumbers, hline]
    rfl

/-- The report of an error that is not incomplete points at the offending token: it names
the line of the token, shows this line, and has the caret behind one blank for each
character of the margin and of the text on the line in front of the token. -/
theorem report_points_at_token {source : Text} {err : SyntaxError}
    (h : parse (scan source) = .error err) (hcomplete : err.incomplete = false) :
    ∃ lead content before, Shows source err.token lead content before ∧
      err.token ∈ scan source ∧ err.line = err.token.line ∧
      Failure.report source (.parse err) =
        "Parse error on line " ++ Text.ofNat err.token.line ++ ": " ++ err.message ++ "\n" ++
          Excerpt.block lead err.token.line content before := by
  obtain ⟨hscan, hmeaning, hline⟩ := mem_scan_of_error h hcomplete
  obtain ⟨lead, content, before, hshows, hexcerpt⟩ := exists_shows hscan hmeaning
  obtain ⟨-, b, rest, -, htoken⟩ := eq_first_of_mem_scanAfter hscan
  have hlength : err.token.length ≠ 0 := by
    rw [htoken]
    exact Nat.ne_of_gt (Lexeme.first_length_pos b rest)
  refine ⟨lead, content, before, hshows, hscan, hline, ?_⟩
  rw [← hexcerpt]
  apply report_syntaxError hcomplete hlength hline hshows.place
  rw [hexcerpt]
  exact Excerpt.block_ne_nil lead _ content before

/-- A closing parenthesis behind a string that reaches over a line end and has a stray
byte. -/
theorem report_points_at_paren_after_string :
    let source : Text := ("//é\r\n\"λ\r\n" : Text) ++ [0xFF] ++ ("\"\t)" : Text)
    let err : SyntaxError :=
      ⟨"unexpected \")\" after the end of the expression", 3, ⟨.closeParen, ")", 14, 1, 3⟩, false⟩
    parse (scan source) = .error err ∧ err.incomplete = false ∧
      ∃ lead content before, Shows source err.token lead content before ∧
        err.token ∈ scan source ∧ err.line = err.token.line ∧
        Failure.report source (.parse err) =
          "Parse error on line " ++ Text.ofNat err.token.line ++ ": " ++ err.message ++ "\n" ++
            Excerpt.block lead err.token.line content before := by
  intro source err
  have herr : parse (scan source) = .error err := rfl
  exact ⟨herr, rfl, report_points_at_token herr rfl⟩

end BlockLang
