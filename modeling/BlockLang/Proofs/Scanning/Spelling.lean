import BlockLang.Proofs.Scanning.Junction

/-!
# What texts spell

The terminals of a text that starts with a given lexeme. Spaces spell nothing,
and punctuation spells itself in front of every text. A word spells its name, its
keyword or its number if the text after it cuts words.
-/

namespace BlockLang

namespace Scan

/-- A text in front of which every word ends. -/
def Cut (t : Text) : Prop :=
  ∀ b ∈ t.head?, cuts b = true

theorem cut_nil : Cut [] := nofun

theorem cut_cons {b : UInt8} (h : cuts b = true) (t : Text) : Cut (b :: t) := by
  rintro _ ⟨⟩
  exact h

/-- The bytes of one lexeme that is neither a string nor trivia nor
punctuation. -/
structure IsWord (x : Text) : Prop where
  ne_nil : x ≠ []
  word_eq : word x = x
  not_quote : ∀ b ∈ x.head?, b ≠ 0x22

/-- Whether a word starts like an integer. -/
def isNumeric (x : Text) : Bool :=
  x.head?.any fun b => isDigit b || isSign b

theorem delimits_eq_false_of_word_eq {b : UInt8} {x : Text} (h : word (b :: x) = b :: x) :
    delimits b x = false ∧ word x = x := by
  rw [word] at h
  split at h
  · cases h
  · rename_i hdelimits
    exact ⟨Bool.eq_false_iff.mpr hdelimits, (List.cons.inj h).2⟩

end Scan

namespace Lexeme

theorem first_of_punctuation
    {b : UInt8} {kind : Kind} {t : Text} (h : Scan.punctuation? b = some kind)
    (harrow : b = 0x3D → t.head? ≠ some 0x3E) :
    first b t = ofSpan kind [b] := by
  have hb : (b == 0x3D && t.head? == some 0x3E) = false := by
    by_cases hb : b = 0x3D <;> simp_all
  unfold first
  rw [hb, h]
  unfold Scan.punctuation? at h
  split at h <;> first | rfl | cases h

theorem first_arrow (t : Text) : first 0x3D (0x3E :: t) = ofSpan .arrow [0x3D, 0x3E] := rfl

end Lexeme

/-! ## Spaces and punctuation -/

theorem spelled_nil : spelled [] = [] := rfl

theorem spelled_space {b : UInt8} (hb : Scan.isSpace b = true) (t : Text) :
    spelled (b :: t) = spelled t := by
  rw [spelled, terminals, scan, significant_scanAfter_space hb, ← terminals, terminals_scanAfter]

theorem spelled_mark
    {b : UInt8} {kind : Kind} (h : Scan.punctuation? b = some kind) {t : Text}
    (harrow : b = 0x3D → t.head? ≠ some 0x3E) :
    spelled (b :: t) = .mark kind :: spelled t := by
  have hterminals : (Lexeme.ofSpan kind [b]).terminals = [.mark kind] := by
    unfold Scan.punctuation? at h
    split at h <;> cases h <;> rfl
  rw [spelled_cons, Lexeme.remaining, Lexeme.first_of_punctuation h harrow, hterminals]
  rfl

theorem spelled_arrow (t : Text) : spelled (0x3D :: 0x3E :: t) = .mark .arrow :: spelled t := by
  rw [spelled_cons, Lexeme.remaining, Lexeme.first_arrow]
  rfl

/-! ## Words -/

theorem Scan.delimits_of_numeric {b : UInt8} (h : (isDigit b || isSign b) = true) (s : Text) :
    delimits b s = false := by
  have hmark : punctuation? b = none := by
    unfold punctuation?
    split <;> first | rfl | exact absurd h (by decide)
  have hspace : isSpace b = false := by
    unfold isSpace
    simp only [Bool.or_eq_false_iff, beq_eq_false_iff_ne]
    refine ⟨⟨⟨?_, ?_⟩, ?_⟩, ?_⟩ <;> rintro rfl <;> exact absurd h (by decide)
  have hend : isEnd b = false := by
    simp only [isEnd, beq_eq_false_iff_ne]
    rintro rfl
    exact absurd h (by decide)
  have hslash : b ≠ 0x2F := by
    rintro rfl
    exact absurd h (by decide)
  simp [delimits, hspace, hend, hmark, startsComment, hslash]

namespace Lexeme

/-- The kind of a word. -/
def kindOfWord (x : Text) : Kind :=
  if Scan.isNumeric x then integerKind x else wordKind x

theorem first_of_not_delimits
    {b : UInt8} {s : Text} (h : Scan.delimits b s = false) (hquote : b ≠ 0x22) :
    first b s = ofSpan (kindOfWord (b :: Scan.word s)) (b :: Scan.word s) := by
  unfold Scan.delimits at h
  simp only [Bool.or_eq_false_iff, Option.isSome_eq_false_iff, Option.isNone_iff_eq_none] at h
  obtain ⟨⟨⟨hspace, hend⟩, hcomment⟩, hmark⟩ := h
  have harrow : b ≠ 0x3D := by
    rintro rfl
    cases hmark
  unfold first kindOfWord Scan.isNumeric
  simp only [hspace, hcomment, hquote, hend, hmark, beq_iff_eq, Bool.false_eq_true,
    ↓reduceIte, Bool.false_and, List.head?_cons, Option.any_some, beq_eq_false_iff_ne.mpr harrow]
  split <;> simp_all

end Lexeme

theorem Lexeme.first_of_isWord {b : UInt8} {x t : Text} (hx : Scan.IsWord (b :: x))
    (ht : Scan.Cut t) : first b (x ++ t) = ofSpan (kindOfWord (b :: x)) (b :: x) := by
  obtain ⟨hdelimits, hword⟩ := Scan.delimits_eq_false_of_word_eq hx.word_eq
  have hdelimits' : Scan.delimits b (x ++ t) = false := by
    rwa [Scan.delimits, Scan.startsComment_append ht]
  rw [first_of_not_delimits hdelimits' (hx.not_quote b rfl), Scan.word_append ht, hword]

theorem Lexeme.first_isWord {b : UInt8} {x : Text} (hx : Scan.IsWord (b :: x)) :
    first b x = ofSpan (kindOfWord (b :: x)) (b :: x) := by
  simpa using first_of_isWord hx Scan.cut_nil

/-- A word in front of a text that cuts it. -/
theorem spelled_word {x t : Text} (hx : Scan.IsWord x) (ht : Scan.Cut t) :
    spelled (x ++ t) = (Lexeme.ofSpan (Lexeme.kindOfWord x) x).terminals ++ spelled t := by
  cases x with
  | nil => exact absurd rfl hx.ne_nil
  | cons b x =>
      rw [List.cons_append, spelled_cons, Lexeme.remaining, Lexeme.first_of_isWord hx ht]
      simp [Lexeme.ofSpan]

/-- A source that is one word. -/
theorem scan_of_isWord {x : Text} (hx : Scan.IsWord x) :
    scan x = [(Lexeme.ofSpan (Lexeme.kindOfWord x) x).token 0 1] := by
  cases x with
  | nil => exact absurd rfl hx.ne_nil
  | cons b x =>
      have hfirst := Lexeme.first_isWord hx
      rw [scan, scanAfter_of_first (by rw [hfirst]; rfl), hfirst]

/-! ## What can be spelled -/

namespace Scan

theorem startsComment_word {b : UInt8} {s : Text} (h : startsComment b s = false) :
    startsComment b (word s) = false := by
  cases s with
  | nil => exact h
  | cons c s =>
      rw [word]
      split
      · simp [startsComment]
      · exact h

theorem word_word (s : Text) : word (word s) = word s := by
  induction s with
  | nil => rfl
  | cons b s ih =>
      by_cases h : delimits b s = true
      · rw [word, if_pos h]
        rfl
      · have hdelimits : delimits b (word s) = false := by
          simp only [delimits, Bool.or_eq_true, not_or, Bool.not_eq_true] at h
          simp [delimits, h.1.1, startsComment_word h.1.2, h.2]
        rw [word, if_neg h, word, hdelimits, ih]
        rfl

theorem isWord_of_not_delimits
    {b : UInt8} {s : Text} (h : delimits b s = false) (hquote : b ≠ 0x22) :
    IsWord (b :: word s) := by
  have hword : word (b :: s) = b :: word s := by
    rw [word, h]
    rfl
  refine ⟨by simp, ?_, ?_⟩
  · rw [← hword, word_word]
  · rintro c ⟨⟩
    exact hquote

theorem isEnd_unescape {e : UInt8} (h : isEnd e = false) : isEnd (unescape e) = false := by
  unfold unescape
  split
  · rfl
  · rfl
  · exact h

theorem Body.not_isEnd {s : Text} {body : StringBody} (h : Body s body) :
    ∀ b ∈ body.value, isEnd b = false := by
  induction h with
  | escape he h ih => exact List.forall_mem_cons.mpr ⟨isEnd_unescape he, ih⟩
  | plain hb hquote hescape h ih => exact List.forall_mem_cons.mpr ⟨hb, ih⟩
  | _ => simp

end Scan

/-- What the scanner guarantees of the literal of a terminal: a name is a word that
is no keyword, and a string does not reach past the end of the source. -/
def Terminal.Scanned : Terminal → Prop
  | .name x => Scan.IsWord x ∧ Lexeme.kindOfWord x = .identifier
  | .string s => ∀ b ∈ s, Scan.isEnd b = false
  | _ => True

theorem Kind.ofWord_ne_string (word : Text) : ofWord word ≠ .string := by
  unfold ofWord ofKeyword? keywords
  simp only [List.lookup_cons, List.lookup_nil]
  repeat' split
  all_goals simp

theorem Scan.punctuation?_ne {b : UInt8} {kind : Kind} (h : punctuation? b = some kind) :
    kind ≠ .identifier ∧ kind ≠ .string := by
  unfold punctuation? at h
  split at h <;> cases h <;> simp

namespace Lexeme

theorem integerKind_ne (span : Text) :
    integerKind span ≠ .identifier ∧ integerKind span ≠ .string := by
  unfold integerKind
  split
  · simp
  · split <;> simp

theorem isWord_of_first {b : UInt8} {s : Text} (h : (first b s).kind = .identifier) :
    Scan.IsWord (first b s).literal ∧ kindOfWord (first b s).literal = .identifier := by
  generalize first b s = lexeme, begins_first b s = hfirst at h
  cases hfirst with
  | quote hb =>
      unfold string at h
      dsimp only at h
      split at h
      · cases h
      · split at h <;> cases h
  | number hb => exact absurd h (integerKind_ne _).1
  | mark hb harrow => exact absurd h (Scan.punctuation?_ne hb).1
  | word hb hquote hnumber =>
      refine ⟨Scan.isWord_of_not_delimits hb hquote, ?_⟩
      rw [kindOfWord, if_neg]
      · exact h
      · simpa [Scan.isNumeric, ofSpan] using hnumber
  | _ => cases h

theorem not_isEnd_of_first {b : UInt8} {s : Text} (h : (first b s).kind = .string) :
    ∀ c ∈ (first b s).literal, Scan.isEnd c = false := by
  generalize first b s = lexeme, begins_first b s = hfirst at h
  cases hfirst with
  | quote hb => exact (Scan.body_stringBody s).not_isEnd
  | number hb => exact absurd h (integerKind_ne _).2
  | mark hb harrow => exact absurd h (Scan.punctuation?_ne hb).2
  | word hb hquote hnumber =>
      unfold ofSpan wordKind at h
      dsimp only at h
      split at h
      · cases h
      · exact absurd h (Kind.ofWord_ne_string _)
  | _ => cases h

theorem scanned_first (b : UInt8) (s : Text) : ∀ u ∈ (first b s).terminals, u.Scanned := by
  intro u hu
  unfold terminals at hu
  split at hu
  · cases hu
  · obtain rfl := List.mem_singleton.mp hu
    unfold Token.terminal
    split
    · exact isWord_of_first ‹_›
    · trivial
    · exact not_isEnd_of_first ‹_›
    · trivial

end Lexeme

theorem scanned_of_mem_spelled {source : Text} {u : Terminal} (h : u ∈ spelled source) :
    u.Scanned := by
  induction source using lexeme_induction with
  | nil => cases h
  | cons b s ih =>
      rw [spelled_cons] at h
      rcases List.mem_append.mp h with h | h
      · exact Lexeme.scanned_first b s u h
      · exact ih h

end BlockLang
