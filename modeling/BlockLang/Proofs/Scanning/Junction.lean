import Mathlib.Tactic.Tauto
import BlockLang.Proofs.Scanning

/-!
# Scanning two texts with a line end between them

A line end separates the lexemes before it from those after it, with one
exception: a string that is still open at the end of the first text goes on
behind the line end. White space at the end of the first text is not an
exception as far as meaning goes, since it and the line end become one piece of
trivia.
-/

namespace BlockLang

/-- A quote opens a string that has no closing quote and reaches the end of the
text `s` behind the quote. -/
def Scan.LeavesOpen (s : Text) : Prop :=
  (stringBody s).closed = false ∧ (stringBody s).length = s.length

/-- The last lexeme of a source is a string that is left open. -/
def EndsInOpenString (source : Text) : Prop :=
  ∃ t, (scan source).getLast? = some t ∧
    ∃ s, source.drop t.position = 0x22 :: s ∧ Scan.LeavesOpen s

instance (s : Text) : Decidable (Scan.LeavesOpen s) :=
  inferInstanceAs (Decidable (_ ∧ _))

theorem endsInOpenString_iff {source : Text} :
    EndsInOpenString source ↔ ∃ t ∈ (scan source).getLast?,
      (source.drop t.position).head? = some 0x22 ∧
        Scan.LeavesOpen (source.drop t.position).tail := by
  refine exists_congr fun t => and_congr_right fun _ => ?_
  constructor
  · rintro ⟨s, hdrop, hopen⟩
    rw [hdrop]
    exact ⟨rfl, hopen⟩
  · rintro ⟨hhead, hopen⟩
    obtain ⟨s, hdrop⟩ := List.head?_eq_some_iff.mp hhead
    exact ⟨s, hdrop, by rwa [hdrop] at hopen⟩

instance (source : Text) : Decidable (EndsInOpenString source) :=
  decidable_of_iff _ endsInOpenString_iff.symm

namespace Scan

theorem Body.append
    {s v : Text} {body : StringBody} (h : Body s body)
    (hopen : ¬(body.closed = false ∧ body.length = s.length)) :
    Body (s ++ v) body := by
  induction h with
  | nil => simp at hopen
  | stop hb => exact .stop hb
  | quote => exact .quote
  | escape he h ih => exact .escape he (ih (by simpa using hopen))
  | @plain b s body hb hquote hescape h ih =>
      refine .plain hb hquote ?_ (ih (by simpa using hopen))
      intro hslash e he
      cases s with
      | nil =>
          cases h
          simp at hopen
      | cons d s => exact hescape hslash e he

theorem stringBody_append {s : Text} (h : ¬LeavesOpen s) (v : Text) :
    stringBody (s ++ v) = stringBody s :=
  ((body_stringBody s).append h).eq_stringBody

/-- A byte in front of which every word ends. -/
def cuts (b : UInt8) : Bool :=
  isSpace b || isEnd b || (punctuation? b).isSome

theorem startsComment_append {b : UInt8} {s v : Text} (hv : ∀ c ∈ v.head?, cuts c = true) :
    startsComment b (s ++ v) = startsComment b s := by
  cases s with
  | nil =>
      cases v with
      | nil => rfl
      | cons c v =>
          have hc : c ≠ 0x2F := by
            rintro rfl
            exact absurd (hv _ rfl) (by decide)
          simp [startsComment, hc]
  | cons d s => rfl

theorem word_append {s v : Text} (hv : ∀ b ∈ v.head?, cuts b = true) :
    word (s ++ v) = word s := by
  induction s with
  | nil =>
      cases v with
      | nil => rfl
      | cons c v =>
          have hc : delimits c v = true := by
            have := hv c rfl
            simp only [cuts, Bool.or_eq_true] at this
            simp only [delimits, Bool.or_eq_true]
            tauto
          simp [word, hc]
  | cons b s ih =>
      rw [List.cons_append, word, word, delimits, delimits, startsComment_append hv, ih]

theorem takeWhile_append_of_head
    {p : UInt8 → Bool} {s v : Text} (hv : ∀ b ∈ v.head?, p b = false) :
    (s ++ v).takeWhile p = s.takeWhile p := by
  have hnil : v.takeWhile p = [] := by
    cases v with
    | nil => rfl
    | cons b v => simp [hv b rfl]
  rw [List.takeWhile_append, hnil, List.append_nil]
  split
  · rename_i h
    exact ((List.takeWhile_prefix p).eq_of_length h).symm
  · rfl

theorem takeWhile_append_of_mem
    {p : UInt8 → Bool} {s : Text} {c : UInt8} (hc : c ∈ s) (hp : p c = false) (v : Text) :
    (s ++ v).takeWhile p = s.takeWhile p := by
  induction s with
  | nil => simp at hc
  | cons b s ih =>
      by_cases hb : p b = true
      · have hmem : c ∈ s := by
          rcases List.mem_cons.mp hc with rfl | hmem
          · simp [hb] at hp
          · exact hmem
        simp [hb, ih hmem]
      · simp [hb]

end Scan

/-! ## The first lexeme in front of a line end -/

namespace Lexeme

theorem string_append {s : Text} (h : ¬Scan.LeavesOpen s) (v : Text) :
    string (s ++ v) = string s := by
  have hle := (Scan.body_stringBody s).length_le
  have htake : (s ++ v).take (Scan.stringBody s).length = s.take (Scan.stringBody s).length :=
    List.take_append_of_le_length (by omega)
  simp only [string, Scan.stringBody_append h, htake]

theorem first_append_newline
    {b : UInt8} {s : Text} (v : Text)
    (hspace : Scan.isSpace b = true → ∃ c ∈ s, Scan.isSpace c = false)
    (hquote : b = 0x22 → ¬Scan.LeavesOpen s) :
    first b (s ++ 0x0A :: v) = first b s := by
  have hcuts : ∀ c ∈ (0x0A :: v).head?, Scan.cuts c = true := by
    rintro c ⟨⟩
    rfl
  have hcomment : Scan.startsComment b (s ++ 0x0A :: v) = Scan.startsComment b s :=
    Scan.startsComment_append hcuts
  have hhead : ((s ++ 0x0A :: v).head? == some 0x3E) = (s.head? == some 0x3E) := by
    cases s <;> rfl
  unfold first
  rw [hcomment, hhead, Scan.word_append hcuts]
  by_cases h : Scan.isSpace b = true
  · obtain ⟨c, hc, hp⟩ := hspace h
    rw [if_pos h, if_pos h, Scan.takeWhile_append_of_mem hc hp]
  rw [if_neg h, if_neg h]
  by_cases h : Scan.startsComment b s = true
  · obtain ⟨s, rfl⟩ := Scan.eq_of_startsComment h
    rw [if_pos h, if_pos h]
    simp only [List.cons_append, List.drop_succ_cons, List.drop_zero, Scan.commentBody]
    rw [Scan.takeWhile_append_of_head (by rintro c ⟨⟩; rfl)]
  rw [if_neg h, if_neg h]
  by_cases h : b = 0x22
  · rw [string_append (hquote h)]
  · simp [h]

theorem first_of_space {b : UInt8} (h : Scan.isSpace b = true) (s : Text) :
    first b s = blank (b :: s.takeWhile Scan.isSpace) := by
  rw [first, if_pos h]

theorem first_quote (s : Text) : first 0x22 s = string s := by
  simp [first, Scan.isSpace, Scan.startsComment]

end Lexeme

/-! ## White space -/

theorem significant_scanAfter_spaces
    {b : UInt8} (hb : Scan.isSpace b = true) (position line : Nat) (s : Text) :
    significant (scanAfter 0 position line (b :: s)) =
      significant (scanAfter 0 (position + (s.takeWhile Scan.isSpace).length + 1)
        (line + newlines (b :: s.takeWhile Scan.isSpace)) (s.dropWhile Scan.isSpace)) := by
  have hsplit : s.takeWhile Scan.isSpace ++ s.dropWhile Scan.isSpace = s :=
    List.takeWhile_append_dropWhile
  have htake : s.take (s.takeWhile Scan.isSpace).length = s.takeWhile Scan.isSpace :=
    (List.prefix_iff_eq_take.mp (List.takeWhile_prefix _)).symm
  have hdrop : s.drop (s.takeWhile Scan.isSpace).length = s.dropWhile Scan.isSpace :=
    calc
      s.drop (s.takeWhile Scan.isSpace).length =
          (s.takeWhile Scan.isSpace ++ s.dropWhile Scan.isSpace).drop
            (s.takeWhile Scan.isSpace).length := by rw [hsplit]
      _ = s.dropWhile Scan.isSpace := List.drop_left
  rw [scanAfter_cons, significant_cons, Lexeme.remaining, Lexeme.first_of_space hb]
  simp only [Lexeme.blank, Lexeme.token, Token.isTrivia, Kind.isTrivia, List.length_cons,
    List.take_succ_cons, List.drop_succ_cons, htake, hdrop, ↓reduceIte, List.nil_append,
    Nat.add_assoc]

/-- A space carries no meaning, whatever comes after it. -/
theorem significant_scanAfter_space
    {b : UInt8} (hb : Scan.isSpace b = true) (position line : Nat) (s : Text) :
    significant (scanAfter 0 position line (b :: s)) =
      significant (scanAfter 0 (position + 1) (line + newlines [b]) s) := by
  rw [significant_scanAfter_spaces hb]
  cases s with
  | nil => rfl
  | cons c s =>
      by_cases hc : Scan.isSpace c = true
      · rw [significant_scanAfter_spaces hc, List.takeWhile_cons_of_pos hc,
          List.dropWhile_cons_of_pos hc, newlines_cons b (c :: s.takeWhile Scan.isSpace)]
        congr 2
        · rw [List.length_cons]
          omega
        · omega
      · rw [List.takeWhile_cons_of_neg hc, List.dropWhile_cons_of_neg hc]
        rfl

theorem significant_scanAfter_append_spaces
    {w : Text} (hw : ∀ b ∈ w, Scan.isSpace b = true) (position line : Nat) (s : Text) :
    significant (scanAfter 0 position line (w ++ s)) =
      significant (scanAfter 0 (position + w.length) (line + newlines w) s) := by
  induction w generalizing position line with
  | nil => simp [newlines]
  | cons b w ih =>
      rw [List.cons_append, significant_scanAfter_space (hw b (List.mem_cons_self ..)),
        ih fun c hc => hw c (List.mem_cons_of_mem _ hc), newlines_cons b w, List.length_cons,
        Nat.add_assoc, Nat.add_assoc, Nat.add_comm 1]

/-! ## The junction -/

/-- A source whose last lexeme is a string that is left open, read lexeme by
lexeme. -/
inductive OpenEnd : Text → Prop where
  | here {s : Text} (h : Scan.LeavesOpen s) : OpenEnd (0x22 :: s)
  | later {b : UInt8} {s : Text} (h : OpenEnd (Lexeme.remaining b s)) : OpenEnd (b :: s)

theorem OpenEnd.exists_last {a : Text} (h : OpenEnd a) (position line : Nat) :
    ∃ t, (scanAfter 0 position line a).getLast? = some t ∧ position ≤ t.position ∧
      ∃ s, a.drop (t.position - position) = 0x22 :: s ∧ Scan.LeavesOpen s := by
  induction h generalizing position line with
  | @here s h =>
      have hlength : (Lexeme.first 0x22 s).length = s.length + 1 := by
        simp [Lexeme.first_quote, Lexeme.string, h.1, h.2]
      refine ⟨(Lexeme.first 0x22 s).token position line, ?_, Nat.le_refl _, s, ?_, h⟩
      · rw [scanAfter_of_first hlength]
        rfl
      · simp [Lexeme.token]
  | @later b s h ih =>
      obtain ⟨t, hlast, hle, s', hdrop, hopen⟩ :=
        ih (position + (Lexeme.first b s).length)
          (line + newlines ((b :: s).take (Lexeme.first b s).length))
      refine ⟨t, ?_, by omega, s', ?_, hopen⟩
      · rw [scanAfter_cons, List.getLast?_cons, hlast]
        rfl
      · rw [← hdrop, Lexeme.remaining, List.drop_drop]
        congr 1
        omega

theorem not_openEnd {source : Text} (h : ¬EndsInOpenString source) : ¬OpenEnd source := by
  intro hopen
  obtain ⟨t, hlast, -, s, hdrop, hs⟩ := hopen.exists_last 0 1
  exact h ⟨t, hlast, s, hdrop, hs⟩

theorem append_newline (a b : Text) : a ++ "\n" ++ b = a ++ 0x0A :: b :=
  List.append_assoc ..

/-- Scanning goes on as before as long as the first lexeme is the same. -/
theorem scanAfter_append
    {c : UInt8} {a v : Text} (h : Lexeme.first c (a ++ v) = Lexeme.first c a)
    (position line : Nat) :
    scanAfter 0 position line (c :: (a ++ v)) =
      (Lexeme.first c a).token position line ::
        scanAfter 0 (position + (Lexeme.first c a).length)
          (line + newlines ((c :: a).take (Lexeme.first c a).length))
          (Lexeme.remaining c a ++ v) := by
  have hle := Lexeme.first_length_le c a
  rw [scanAfter_cons, Lexeme.remaining, h, ← List.cons_append,
    List.take_append_of_le_length hle, List.drop_append_of_le_length hle]
  rfl

/-- The meaningful tokens of two texts with a line end between them are those of
the first text followed by those of the second. -/
theorem significant_scanAfter_newline
    (a b : Text) (h : ¬OpenEnd a) (position line : Nat) :
    significant (scanAfter 0 position line (a ++ 0x0A :: b)) =
      significant (scanAfter 0 position line a) ++
        significant (scanAfter 0 (position + a.length + 1) (line + newlines a + 1) b) := by
  induction a using lexeme_induction generalizing position line with
  | nil =>
      rw [List.nil_append, significant_scanAfter_space rfl]
      rfl
  | cons c a ih =>
      by_cases hspaces : Scan.isSpace c = true ∧ ∀ d ∈ a, Scan.isSpace d = true
      · -- white space up to the end of `a` is one lexeme with the line end
        have hall : ∀ d ∈ c :: a, Scan.isSpace d = true := by
          rintro d (_ | ⟨_, hd⟩)
          · exact hspaces.1
          · exact hspaces.2 d hd
        have halone := significant_scanAfter_append_spaces hall position line []
        rw [List.append_nil, scanAfter_nil] at halone
        rw [significant_scanAfter_append_spaces hall, significant_scanAfter_space rfl, halone]
        rfl
      · have hfirst : Lexeme.first c (a ++ 0x0A :: b) = Lexeme.first c a := by
          refine Lexeme.first_append_newline b ?_ ?_
          · intro hc
            simpa using fun hall => hspaces ⟨hc, hall⟩
          · rintro rfl hopen
            exact h (.here hopen)
        have hlength := Lexeme.length_add_remaining c a
        have hlines := Lexeme.newlines_add_remaining c a
        rw [List.cons_append, scanAfter_append hfirst, scanAfter_cons position line c a,
          significant_cons, significant_cons, ih fun hopen => h (.later hopen), List.append_assoc]
        congr 4 <;> omega

end BlockLang
