import BlockLang.Token.Scan
import BlockLang.Proofs.Grammar

/-!
# Scanning, one lexeme at a time

The scanner goes through a source byte by byte and skips the bytes of a lexeme
after its first one. It counts lines only in blanks and in strings, where alone they
can end. Here this is turned into the equation that is used everywhere else: the
tokens of a source are its first lexeme followed by the tokens of what remains after
it, further down by the line ends in its span. Facts about all tokens then follow by
`lexeme_induction`.
-/

namespace BlockLang

/-- The number of line ends in a text. -/
def newlines (s : Text) : Nat :=
  s.count 0x0A

theorem newlines_append (s t : Text) : newlines (s ++ t) = newlines s + newlines t := by
  simp [newlines, List.count_append]

theorem newlines_cons (b : UInt8) (s : Text) : newlines (b :: s) = newlines [b] + newlines s :=
  newlines_append [b] s

theorem newlines_eq_zero_iff {s : Text} : newlines s = 0 ↔ 0x0A ∉ s :=
  List.count_eq_zero

theorem lineEnds_eq (b : UInt8) : Scan.lineEnds b = newlines [b] := by
  unfold Scan.lineEnds newlines
  by_cases h : b = 0x0A <;> simp [h]

theorem foldl_lineEnds (s : Text) (lines : Nat) :
    s.foldl (fun lines b => lines + Scan.lineEnds b) lines = lines + newlines s := by
  induction s generalizing lines with
  | nil => rfl
  | cons b s ih => rw [List.foldl_cons, ih, lineEnds_eq, Nat.add_assoc, ← newlines_cons]

/-- Skipping is scanning what remains, from a later place. -/
theorem scanAfter_eq (skip position line : Nat) (s : Text) :
    scanAfter skip position line s = scanAfter 0 (position + skip) line (s.drop skip) := by
  induction s generalizing skip position line with
  | nil => simp [scanAfter]
  | cons b s ih =>
      cases skip with
      | zero => rfl
      | succ skip => rw [scanAfter, ih, List.drop_succ_cons, Nat.add_assoc, Nat.add_comm 1]

/-! ## The first lexeme -/

namespace Lexeme

/-- What the first lexeme of a source is, by its first bytes. -/
inductive Begins (b : UInt8) (s : Text) : Lexeme → Prop where
  | space (h : Scan.isSpace b = true) :
      Begins b s (blank (b :: s.takeWhile Scan.isSpace))
  | comment (h : Scan.startsComment b s = true) :
      Begins b s (ofSpan .comment (b :: 0x2F :: Scan.commentBody (s.drop 1)))
  | quote (h : b = 0x22) : Begins b s (string s)
  | number (h : (Scan.isDigit b || Scan.isSign b) = true) :
      Begins b s (ofSpan (integerKind (b :: Scan.word s)) (b :: Scan.word s))
  | arrow (h : b = 0x3D) (hs : s.head? = some 0x3E) : Begins b s (ofSpan .arrow [0x3D, 0x3E])
  | nul (h : Scan.isEnd b = true) : Begins b s (ofSpan .illegal [b])
  | mark {kind : Kind} (h : Scan.punctuation? b = some kind)
      (harrow : ¬(b = 0x3D ∧ s.head? = some 0x3E)) : Begins b s (ofSpan kind [b])
  | word (h : Scan.delimits b s = false) (hquote : b ≠ 0x22)
      (hnumber : (Scan.isDigit b || Scan.isSign b) = false) :
      Begins b s (ofSpan (wordKind (b :: Scan.word s)) (b :: Scan.word s))

theorem begins_first (b : UInt8) (s : Text) : Begins b s (first b s) := by
  unfold first
  split
  · exact .space ‹_›
  split
  · exact .comment ‹_›
  split
  · exact .quote (eq_of_beq ‹_›)
  split
  · exact .number ‹_›
  split
  · rename_i h
    simp only [Bool.and_eq_true, beq_iff_eq] at h
    exact .arrow h.1 h.2
  split
  · exact .nul ‹_›
  split
  · refine .mark ‹_› ?_
    simp_all
  · refine .word ?_ ?_ ?_ <;> simp_all [Scan.delimits]

end Lexeme

/-! ## Lengths -/

namespace Scan

theorem eq_of_startsComment {b : UInt8} {s : Text} (h : startsComment b s = true) :
    ∃ s', s = 0x2F :: s' := by
  cases s with
  | nil => simp [startsComment] at h
  | cons c s =>
      simp only [startsComment, List.head?_cons, Bool.and_eq_true, beq_iff_eq,
        Option.some.injEq] at h
      exact ⟨s, by rw [h.2]⟩

theorem word_prefix (s : Text) : word s <+: s := by
  induction s with
  | nil => exact List.prefix_refl []
  | cons b s ih =>
      rw [word]
      split
      · exact List.nil_prefix
      · exact (List.prefix_cons_inj b).mpr ih

/-- How the body of a string is read from the left. -/
inductive Body : Text → StringBody → Prop where
  | nil : Body [] ⟨[], 0, 0, false⟩
  | stop {b : UInt8} {s : Text} (hb : isEnd b = true) : Body (b :: s) ⟨[], 0, 0, false⟩
  | quote {s : Text} : Body (0x22 :: s) ⟨[], 0, 0, true⟩
  | escape {e : UInt8} {s : Text} {body : StringBody} (he : isEnd e = false)
      (h : Body s body) :
      Body (0x5C :: e :: s)
        ⟨unescape e :: body.value, body.length + 2, lineEnds e + body.lines, body.closed⟩
  | plain {b : UInt8} {s : Text} {body : StringBody} (hb : isEnd b = false) (hquote : b ≠ 0x22)
      (hescape : b = 0x5C → ∀ e ∈ s.head?, isEnd e = true) (h : Body s body) :
      Body (b :: s) ⟨b :: body.value, body.length + 1, lineEnds b + body.lines, body.closed⟩

theorem body_stringBody (s : Text) : Body s (stringBody s) := by
  fun_induction stringBody s with
  | case1 => exact .nil
  | case2 b h => exact .stop h
  | case3 b h hquote =>
      obtain rfl := eq_of_beq hquote
      exact .quote
  | case4 b h hquote =>
      exact .plain (by simpa using h) (by simpa using hquote) (by simp) .nil
  | case5 b e s h => exact .stop h
  | case6 b e s h hquote =>
      obtain rfl := eq_of_beq hquote
      exact .quote
  | case7 b e s h hquote hescape body ih =>
      simp only [Bool.and_eq_true, beq_iff_eq, Bool.not_eq_true'] at hescape
      obtain ⟨rfl, he⟩ := hescape
      exact .escape he ih
  | case8 b e s h hquote hescape body ih =>
      exact .plain (by simpa using h) (by simpa using hquote) (by simpa using hescape) ih

theorem Body.eq_stringBody {s : Text} {body : StringBody} (h : Body s body) :
    stringBody s = body := by
  induction h with
  | nil => rfl
  | @stop b s hb => cases s <;> simp [stringBody, hb]
  | @quote s => cases s <;> rfl
  | escape he h ih =>
      have hb : isEnd 0x5C = false := rfl
      simp [stringBody, he, hb, ih]
  | @plain b s body hb hquote hescape h ih =>
      cases s with
      | nil =>
          cases h
          simp [stringBody, hb, hquote]
      | cons e s =>
          have hnot : ¬(b = 0x5C ∧ isEnd e = false) := by
            rintro ⟨rfl, he⟩
            simp [hescape rfl e rfl] at he
          simp only [stringBody, hb, beq_iff_eq, hquote, Bool.and_eq_true, Bool.not_eq_true',
            hnot, ↓reduceIte, ih, Bool.false_eq_true]

theorem Body.length_le {s : Text} {body : StringBody} (h : Body s body) :
    body.length + (if body.closed then 1 else 0) ≤ s.length := by
  induction h with
  | escape he h ih =>
      simp only [List.length_cons]
      omega
  | plain hb hquote hescape h ih =>
      simp only [List.length_cons]
      omega
  | _ => simp

/-- A string counts the line ends up to its closing quote. -/
theorem Body.lines_eq {s : Text} {body : StringBody} (h : Body s body) :
    body.lines = newlines (s.take (body.length + if body.closed then 1 else 0)) := by
  induction h with
  | @escape e s body he h ih =>
      rw [Nat.add_right_comm, List.take_succ_cons, List.take_succ_cons, newlines_cons,
        newlines_cons e, ← ih, lineEnds_eq]
      exact (Nat.zero_add _).symm
  | @plain b s body hb hquote hescape h ih =>
      rw [Nat.add_right_comm, List.take_succ_cons, newlines_cons, ← ih, lineEnds_eq]
  | _ => rfl

theorem newline_not_mem_word (s : Text) : 0x0A ∉ word s := by
  induction s with
  | nil => exact List.not_mem_nil
  | cons b s ih =>
      rw [word]
      split
      · exact List.not_mem_nil
      · rename_i hdelimits
        rw [List.mem_cons, not_or]
        refine ⟨?_, ih⟩
        rintro rfl
        exact hdelimits rfl

theorem newline_not_mem_commentBody (s : Text) : 0x0A ∉ commentBody s := by
  intro hmem
  have hbyte := List.all_eq_true.mp List.all_takeWhile _ hmem
  cases hbyte

end Scan

namespace Lexeme

theorem first_length_pos (b : UInt8) (s : Text) : 1 ≤ (first b s).length := by
  generalize first b s = lexeme, begins_first b s = h
  cases h with
  | quote h =>
      unfold string
      dsimp only
      split <;> omega
  | space h => simp [blank]
  | _ => simp [ofSpan]

theorem first_length_le (b : UInt8) (s : Text) : (first b s).length ≤ (b :: s).length := by
  generalize first b s = lexeme, begins_first b s = h
  cases h with
  | space h =>
      have hle : (s.takeWhile Scan.isSpace).length ≤ s.length :=
        (List.takeWhile_prefix _).length_le
      simpa [blank] using hle
  | comment h =>
      obtain ⟨s, rfl⟩ := Scan.eq_of_startsComment h
      have hle : (Scan.commentBody s).length ≤ s.length := (List.takeWhile_prefix _).length_le
      simpa [ofSpan] using hle
  | quote h =>
      have := (Scan.body_stringBody s).length_le
      simp only [string, List.length_cons]
      split <;> simp_all
  | number h => simpa [ofSpan] using (Scan.word_prefix s).length_le
  | word h => simpa [ofSpan] using (Scan.word_prefix s).length_le
  | arrow h hs =>
      cases s with
      | nil => simp at hs
      | cons c s => simp [ofSpan]
  | nul h => simp [ofSpan]
  | mark h => simp [ofSpan]

theorem lines_ofSpan {b : UInt8} {x s : Text} (hb : b ≠ 0x0A) (hx : 0x0A ∉ x) (h : x <+: s)
    (kind : Kind) :
    (ofSpan kind (b :: x)).lines = newlines ((b :: s).take (ofSpan kind (b :: x)).length) := by
  unfold ofSpan
  rw [← List.prefix_iff_eq_take.mp ((List.prefix_cons_inj b).mpr h), eq_comm, newlines_eq_zero_iff,
    List.mem_cons, not_or]
  exact ⟨hb.symm, hx⟩

/-- The lines that a lexeme counts are those that end in its span. -/
theorem lines_first (b : UInt8) (s : Text) :
    (first b s).lines = newlines ((b :: s).take (first b s).length) := by
  generalize first b s = lexeme, begins_first b s = h
  cases h with
  | space h =>
      have hspan : b :: s.takeWhile Scan.isSpace <+: b :: s :=
        (List.prefix_cons_inj b).mpr (List.takeWhile_prefix _)
      rw [blank, ← List.prefix_iff_eq_take.mp hspan, foldl_lineEnds, Nat.zero_add]
  | comment h =>
      have hb : b ≠ 0x0A := by
        rintro rfl
        cases h
      obtain ⟨s, rfl⟩ := Scan.eq_of_startsComment h
      refine lines_ofSpan hb ?_ ?_ _
      · simp [Scan.newline_not_mem_commentBody]
      · exact (List.prefix_cons_inj _).mpr (List.takeWhile_prefix _)
  | quote h =>
      obtain rfl := h
      have hlength : (string s).length =
          (Scan.stringBody s).length + (if (Scan.stringBody s).closed then 1 else 0) + 1 := by
        unfold string
        dsimp only
        split <;> rfl
      rw [hlength, List.take_succ_cons, newlines_cons, ← (Scan.body_stringBody s).lines_eq]
      exact (Nat.zero_add _).symm
  | number h =>
      have hb : b ≠ 0x0A := by
        rintro rfl
        cases h
      exact lines_ofSpan hb (Scan.newline_not_mem_word s) (Scan.word_prefix s) _
  | word h =>
      have hb : b ≠ 0x0A := by
        rintro rfl
        cases h
      exact lines_ofSpan hb (Scan.newline_not_mem_word s) (Scan.word_prefix s) _
  | arrow h hs =>
      obtain ⟨s', rfl⟩ := List.head?_eq_some_iff.mp hs
      obtain rfl := h
      rfl
  | nul h =>
      have hb : b ≠ 0x0A := by
        rintro rfl
        cases h
      exact lines_ofSpan hb List.not_mem_nil List.nil_prefix _
  | mark h =>
      have hb : b ≠ 0x0A := by
        rintro rfl
        cases h
      exact lines_ofSpan hb List.not_mem_nil List.nil_prefix _

/-- The token that a lexeme is at a place of the source. -/
def token (lexeme : Lexeme) (position line : Nat) : Token :=
  ⟨lexeme.kind, lexeme.literal, position, lexeme.length, line⟩

/-- What remains of a source after its first lexeme. -/
def remaining (b : UInt8) (s : Text) : Text :=
  (b :: s).drop (first b s).length

theorem length_add_remaining (b : UInt8) (s : Text) :
    (first b s).length + (remaining b s).length = (b :: s).length := by
  rw [remaining, List.length_drop]
  exact Nat.add_sub_of_le (first_length_le b s)

theorem newlines_add_remaining (b : UInt8) (s : Text) :
    newlines ((b :: s).take (first b s).length) + newlines (remaining b s) = newlines (b :: s) := by
  rw [remaining, ← newlines_append, List.take_append_drop]

end Lexeme

/-! ## The tokens of a source -/

@[simp] theorem scanAfter_nil (skip position line : Nat) :
    scanAfter skip position line [] = [] := by
  cases skip <;> rfl

/-- The tokens of a source are its first lexeme and the tokens of what remains
after it. -/
theorem scanAfter_cons (position line : Nat) (b : UInt8) (s : Text) :
    scanAfter 0 position line (b :: s) =
      (Lexeme.first b s).token position line ::
        scanAfter 0 (position + (Lexeme.first b s).length)
          (line + newlines ((b :: s).take (Lexeme.first b s).length))
          (Lexeme.remaining b s) := by
  obtain ⟨n, hn⟩ : ∃ n, (Lexeme.first b s).length = n + 1 :=
    ⟨_, (Nat.sub_add_cancel (Lexeme.first_length_pos b s)).symm⟩
  rw [scanAfter, scanAfter_eq, Lexeme.remaining, ← Lexeme.lines_first, Lexeme.token, hn,
    List.drop_succ_cons]
  simp only [Nat.add_sub_cancel, Nat.add_assoc, Nat.add_comm 1]

/-- A source that is one lexeme. -/
theorem scanAfter_of_first
    {b : UInt8} {s : Text} (h : (Lexeme.first b s).length = s.length + 1) (position line : Nat) :
    scanAfter 0 position line (b :: s) = [(Lexeme.first b s).token position line] := by
  have hrest : Lexeme.remaining b s = [] := by
    rw [Lexeme.remaining, h]
    exact List.drop_length
  rw [scanAfter_cons, hrest, scanAfter_nil]

/-- Induction over the lexemes of a source. -/
theorem lexeme_induction {motive : Text → Prop} (nil : motive [])
    (cons : ∀ b s, motive (Lexeme.remaining b s) → motive (b :: s)) (s : Text) :
    motive s := by
  induction h : s.length using Nat.strongRecOn generalizing s with
  | _ n ih =>
      cases s with
      | nil => exact nil
      | cons b s =>
          refine cons b s (ih _ ?_ _ rfl)
          have hpos := Lexeme.first_length_pos b s
          have hsum := Lexeme.length_add_remaining b s
          omega

/-! ## Terminals -/

theorem significant_cons (t : Token) (ts : List Token) :
    significant (t :: ts) = (if t.isTrivia then [] else [t]) ++ significant ts := by
  unfold significant
  by_cases h : t.isTrivia = true <;> simp [h]

/-- The terminals of a lexeme: none if it is trivia. -/
def Lexeme.terminals (lexeme : Lexeme) : List Terminal :=
  if lexeme.kind.isTrivia then [] else [(lexeme.token 0 0).terminal]

/-- The terminals of a source. -/
def spelled (source : Text) : List Terminal :=
  terminals (scan source)

theorem terminals_scanAfter_cons (position line : Nat) (b : UInt8) (s : Text) :
    terminals (scanAfter 0 position line (b :: s)) =
      (Lexeme.first b s).terminals ++
        terminals (scanAfter 0 (position + (Lexeme.first b s).length)
          (line + newlines ((b :: s).take (Lexeme.first b s).length))
          (Lexeme.remaining b s)) := by
  rw [scanAfter_cons, terminals, significant_cons, List.map_append, terminals]
  congr 1
  unfold Lexeme.terminals Token.isTrivia Lexeme.token
  split <;> rfl

/-- What a text spells does not depend on its place. -/
theorem terminals_scanAfter (position line : Nat) (s : Text) :
    terminals (scanAfter 0 position line s) = spelled s := by
  have hplace : ∀ position line position' line',
      terminals (scanAfter 0 position line s) = terminals (scanAfter 0 position' line' s) := by
    induction s using lexeme_induction with
    | nil => simp
    | cons b s ih =>
        intro position line position' line'
        rw [terminals_scanAfter_cons, terminals_scanAfter_cons]
        exact congrArg _ (ih ..)
  exact hplace position line 0 1

theorem spelled_cons (b : UInt8) (s : Text) :
    spelled (b :: s) = (Lexeme.first b s).terminals ++ spelled (Lexeme.remaining b s) := by
  rw [spelled, scan, terminals_scanAfter_cons, terminals_scanAfter]

end BlockLang
