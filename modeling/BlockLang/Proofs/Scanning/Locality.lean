import Mathlib.Data.List.TakeWhile
import BlockLang.Proofs.Scanning.Tiling

/-!
# Scanning is local

Where a lexeme ends is decided by the bytes behind it, so it could matter what these
are. It does not: a lexeme that stops there also stops at the end of the source, and
it is read from its own bytes alone as it is read in front of others. Of two texts
with a line end between them, the lexemes of the second are those that it has by
itself, further down. The lexemes of the first are left as they are unless the last
one is a string that is still open, since such a string takes the line end along.
-/

namespace BlockLang

/-! ## Places -/

/-- A token in a source that has so many more bytes and line ends in front of it. -/
def Token.moved (bytes lines : Nat) (t : Token) : Token :=
  ⟨t.kind, t.literal, t.position + bytes, t.length, t.line + lines⟩

theorem scanAfter_add (bytes lines position line : Nat) (s : Text) :
    scanAfter 0 (position + bytes) (line + lines) s =
      (scanAfter 0 position line s).map (Token.moved bytes lines) := by
  induction s using lexeme_induction generalizing position line with
  | nil => simp
  | cons b s ih =>
      rw [scanAfter_cons, scanAfter_cons, List.map_cons, ← ih, Nat.add_right_comm position,
        Nat.add_right_comm line]
      rfl

theorem significant_map_moved (bytes lines : Nat) (ts : List Token) :
    significant (ts.map (Token.moved bytes lines)) =
      (significant ts).map (Token.moved bytes lines) :=
  List.filter_map

/-! ## The bytes of a lexeme -/

namespace Scan

/-- The body of a string is read from its own bytes and its closing quote. -/
theorem Body.take {s : Text} {body : StringBody} (h : Body s body) :
    Body (s.take (body.length + (if body.closed then 1 else 0))) body := by
  induction h with
  | nil => exact .nil
  | stop hb => exact .nil
  | quote => exact .quote
  | escape he h ih =>
      rw [Nat.add_right_comm]
      exact .escape he ih
  | @plain b s body hb hquote hescape h ih =>
      rw [Nat.add_right_comm]
      refine .plain hb hquote (fun hslash e he => hescape hslash e ?_) ih
      rw [List.head?_take, Option.mem_ite_none_left] at he
      exact he.2

end Scan

namespace Lexeme

theorem first_comment (s : Text) :
    first 0x2F (0x2F :: s) = ofSpan .comment (0x2F :: 0x2F :: Scan.commentBody s) :=
  rfl

theorem string_take (s : Text) : string (s.take ((string s).length - 1)) = string s := by
  have hbody := (Scan.body_stringBody s).take.eq_stringBody
  have hlength : (string s).length - 1 =
      (Scan.stringBody s).length + (if (Scan.stringBody s).closed then 1 else 0) := by
    unfold string
    dsimp only
    split <;> rfl
  rw [hlength]
  simp only [string, hbody, List.take_take, Nat.min_eq_left (Nat.le_add_right _ _)]

theorem first_word {b : UInt8} {s : Text} (h : Scan.delimits b s = false) (hquote : b ≠ 0x22) :
    first b (Scan.word s) = first b s := by
  rw [first_isWord (Scan.isWord_of_not_delimits h hquote), first_of_not_delimits h hquote]

/-- A lexeme is the first one of its own bytes, whatever it was read in front of. -/
theorem exists_first_eq (b : UInt8) (s : Text) :
    ∃ x, x <+: s ∧ (first b s).length = x.length + 1 ∧ first b x = first b s := by
  have h := begins_first b s
  generalize hfirst : first b s = lexeme at h ⊢
  cases h with
  | space h =>
      refine ⟨s.takeWhile Scan.isSpace, List.takeWhile_prefix _, rfl, ?_⟩
      rw [first_of_space h, List.takeWhile_idem]
  | comment h =>
      obtain rfl : b = 0x2F := eq_of_beq (Bool.and_eq_true_iff.mp h).1
      obtain ⟨s, rfl⟩ := Scan.eq_of_startsComment h
      refine ⟨0x2F :: Scan.commentBody s, ?_, rfl, ?_⟩
      · exact (List.prefix_cons_inj _).mpr (List.takeWhile_prefix _)
      · rw [first_comment]
        exact congrArg (fun body => ofSpan .comment (0x2F :: 0x2F :: body)) List.takeWhile_idem
  | quote h =>
      subst h
      have hpos := first_length_pos 0x22 s
      have hle := first_length_le 0x22 s
      rw [hfirst] at hpos hle
      refine ⟨s.take ((string s).length - 1), List.take_prefix _ s, ?_, ?_⟩
      · rw [List.length_take]
        rw [List.length_cons] at hle
        omega
      · rw [first_quote, string_take]
  | number h =>
      -- like any other word, an integer reaches up to the next delimiter
      have hquote : b ≠ 0x22 := by
        rintro rfl
        cases h
      exact ⟨Scan.word s, Scan.word_prefix s, rfl,
        (first_word (Scan.delimits_of_numeric h s) hquote).trans hfirst⟩
  | word h hquote =>
      exact ⟨Scan.word s, Scan.word_prefix s, rfl, (first_word h hquote).trans hfirst⟩
  | arrow h hs =>
      subst h
      obtain ⟨s, rfl⟩ := List.head?_eq_some_iff.mp hs
      exact ⟨[0x3E], (List.prefix_cons_inj _).mpr List.nil_prefix, rfl, rfl⟩
  | nul h =>
      obtain rfl := eq_of_beq h
      exact ⟨[], List.nil_prefix, rfl, rfl⟩
  | mark h => exact ⟨[], List.nil_prefix, rfl, first_of_punctuation h fun _ => by simp⟩

end Lexeme

/-- Every token is the only one of its own bytes. -/
theorem scan_span {source : Text} {t : Token} (ht : t ∈ scan source) :
    scan (t.span source) = [⟨t.kind, t.literal, 0, t.length, 1⟩] := by
  obtain ⟨-, b, s, hdrop, htoken⟩ := eq_first_of_mem_scanAfter ht
  rw [Nat.sub_zero] at hdrop htoken
  obtain ⟨x, hstart, hlength, hfirst⟩ := Lexeme.exists_first_eq b s
  have hspan : t.span source = b :: x := by
    rw [Token.span, hdrop, htoken, Lexeme.token, hlength, List.take_succ_cons]
    exact congrArg (b :: ·) (List.prefix_iff_eq_take.mp hstart).symm
  rw [hspan, scan, scanAfter_of_first (hfirst ▸ hlength), hfirst, htoken]
  rfl

/-! ## Open strings -/

namespace Scan

/-- A string that is left open takes a line end along. -/
theorem Body.exists_newline {s : Text} {body : StringBody} (h : Body s body)
    (hclosed : body.closed = false) (hlength : body.length = s.length) (v : Text) :
    ∃ body', Body (s ++ 0x0A :: v) body' ∧ s.length < body'.length := by
  induction h with
  | nil =>
      have hplain : Body (0x0A :: v) _ := .plain rfl (by decide) (by simp) (body_stringBody v)
      exact ⟨_, hplain, Nat.succ_pos _⟩
  | stop hb => cases hlength
  | quote => cases hclosed
  | escape he h ih =>
      obtain ⟨body', hbody, hlt⟩ := ih hclosed (by simpa using hlength)
      exact ⟨_, .escape he hbody, Nat.add_lt_add_right hlt 2⟩
  | @plain b s body hb hquote hescape h ih =>
      obtain ⟨body', hbody, hlt⟩ := ih hclosed (by simpa using hlength)
      by_cases hlast : b = 0x5C ∧ s = []
      · -- a backslash at the end of `s` becomes an escape of the line end
        obtain ⟨rfl, rfl⟩ := hlast
        exact ⟨_, .escape rfl (body_stringBody v), Nat.lt_add_left _ Nat.one_lt_two⟩
      · refine ⟨_, .plain hb hquote (fun hslash e he => ?_) hbody, Nat.add_lt_add_right hlt 1⟩
        cases s with
        | nil => exact absurd ⟨hslash, rfl⟩ hlast
        | cons d s => exact hescape hslash e he

theorem LeavesOpen.lt_length {s : Text} (h : LeavesOpen s) (v : Text) :
    s.length < (stringBody (s ++ 0x0A :: v)).length := by
  obtain ⟨body, hbody, hlt⟩ := (body_stringBody s).exists_newline h.1 h.2 v
  rwa [hbody.eq_stringBody]

end Scan

theorem Lexeme.lt_length_string (s : Text) : (Scan.stringBody s).length < (string s).length := by
  unfold string
  dsimp only
  split <;> omega

/-- The last token of a source that ends in an open string. -/
theorem EndsInOpenString.exists_token {source : Text} (h : EndsInOpenString source) :
    ∃ t ∈ scan source, ∃ s, source.drop t.position = 0x22 :: s ∧ Scan.LeavesOpen s ∧
      t.kind = (Lexeme.string s).kind ∧ t.length = s.length + 1 := by
  obtain ⟨t, hlast, s, hdrop, hopen⟩ := h
  have ht := List.mem_of_getLast? hlast
  obtain ⟨-, b, s', hdrop', htoken⟩ := eq_first_of_mem_scanAfter ht
  rw [Nat.sub_zero, hdrop] at hdrop'
  obtain ⟨rfl, rfl⟩ := List.cons.inj hdrop'
  rw [Lexeme.first_quote] at htoken
  refine ⟨t, ht, s, hdrop, hopen, by rw [htoken]; rfl, ?_⟩
  rw [htoken]
  simp [Lexeme.token, Lexeme.string, hopen.1, hopen.2]

/-- Behind a line end the last token of a source that ends in an open string is longer. -/
theorem EndsInOpenString.exists_not_mem {a : Text} (h : EndsInOpenString a) (b : Text) :
    ∃ t ∈ significant (scan a), t ∉ scan (a ++ 0x0A :: b) := by
  obtain ⟨t, ht, s, hdrop, hopen, hkind, hlength⟩ := h.exists_token
  refine ⟨t, List.mem_filter.mpr ⟨ht, ?_⟩, fun hmem => ?_⟩
  · rw [Token.isTrivia, hkind]
    rcases Lexeme.string_kind s with h | h | h <;> rw [h] <;> rfl
  · obtain ⟨-, c, s', hdrop', htoken⟩ := eq_first_of_mem_scanAfter hmem
    have hle : t.position ≤ a.length := by
      by_contra hgt
      rw [List.drop_eq_nil_of_le (by omega)] at hdrop
      cases hdrop
    rw [Nat.sub_zero, List.drop_append_of_le_length hle, hdrop, List.cons_append] at hdrop'
    obtain ⟨rfl, rfl⟩ := List.cons.inj hdrop'
    have hlonger : t.length = (Lexeme.string (s ++ 0x0A :: b)).length := by
      rw [htoken, Lexeme.first_quote]
      rfl
    have hbody := hopen.lt_length b
    have hstring := Lexeme.lt_length_string (s ++ 0x0A :: b)
    omega

/-! ## Locality -/

/-- Scanning is local. A line end between two texts separates their meaningful tokens
exactly if the first text does not end in an open string: they are those of the first
text, and those of the second one further down. And every token of a source is the only
token of its own bytes. -/
theorem scanning_is_local :
    (∀ a b : Text, ¬EndsInOpenString a ↔
      significant (scan (a ++ "\n" ++ b)) =
        significant (scan a) ++
          (significant (scan b)).map (Token.moved (a.length + 1) (1 + newlines a))) ∧
    ∀ source : Text, ∀ t ∈ scan source,
      scan (t.span source) = [⟨t.kind, t.literal, 0, t.length, 1⟩] := by
  refine ⟨fun a b => ?_, fun source t ht => scan_span ht⟩
  rw [append_newline]
  constructor
  · intro h
    have hmoved := scanAfter_add (a.length + 1) (1 + newlines a) 0 1 b
    rw [← significant_map_moved, scan, significant_scanAfter_newline a b (not_openEnd h), scan,
      scan, ← hmoved]
    congr 3
    omega
  · -- the open string is a token of `a` but not of the joined texts
    intro hsplit hopen
    obtain ⟨t, ht, hnot⟩ := hopen.exists_not_mem b
    have hmem : t ∈ significant (scan (a ++ 0x0A :: b)) := by
      rw [hsplit]
      exact List.mem_append_left _ ht
    exact hnot (List.mem_filter.mp hmem).1

/-- A NUL byte stops a string behind its backslash, and slashes on two lines are no
comment. -/
theorem scanning_is_local_behind_nul :
    let a : Text := "\"\\\x00/"
    let b : Text := "/=\n>"
    let opened : Token := ⟨.openString, "\\", 0, 2, 1⟩
    ¬EndsInOpenString a ∧
      significant (scan (a ++ "\n" ++ b)) =
        significant (scan a) ++
          (significant (scan b)).map (Token.moved (a.length + 1) (1 + newlines a)) ∧
      opened ∈ scan a ∧ scan (opened.span a) = [opened] := by
  intro a b opened
  obtain ⟨hsplit, halone⟩ := scanning_is_local
  have hopen : ¬EndsInOpenString a := by decide
  have hopened : opened ∈ scan a := by decide
  exact ⟨hopen, (hsplit a b).mp hopen, hopened, halone a opened hopened⟩

end BlockLang
