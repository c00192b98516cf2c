import BlockLang.Text.Excerpt
import BlockLang.Proofs.Scanning
import BlockLang.Proofs.Characters.Boundaries

/-!
# Lines and columns

A line of a source starts at its first byte or behind a line feed and goes on to the
next line feed, or to a carriage return right in front of it. The place of a position
is found from the pieces of the source, its lines from the bytes. Both agree: the line
of a place is one more than the line feeds before it, its column is one more than the
characters between the start of this line and the position.
-/

namespace BlockLang

/-! ## Line feeds among the pieces -/

/-- Whether a piece is a line feed. -/
def Piece.isNewline : Piece → Bool
  | .char c => c.toNat == 0x0A
  | .stray _ => false

theorem newlines_bytes_char (c : Char) :
    newlines (String.utf8EncodeChar c) = if (Piece.char c).isNewline then 1 else 0 := by
  rcases Text.utf8EncodeChar_single_or c with ⟨b, henc, -, hb⟩ | ⟨hc, hall⟩
  · have hiff : b = 0x0A ↔ c.toNat = 0x0A := by
      rw [← hb, ← UInt8.toNat_inj]
      rfl
    simp [henc, newlines, Piece.isNewline, List.count_singleton, hiff]
  · have hne : c.toNat ≠ 0x0A := by omega
    have hmem : (0x0A : UInt8) ∉ String.utf8EncodeChar c := by
      intro h
      cases hall _ h
    simp [newlines_eq_zero_iff.mpr hmem, Piece.isNewline, hne]

/-- The line feeds of a text are pieces of it. -/
theorem newlines_eq_countP_pieces (s : Text) :
    newlines s = s.pieces.countP Piece.isNewline := by
  induction s using Text.pieces_induction with
  | nil => rfl
  | char c s ih =>
      rw [newlines_append, newlines_bytes_char, Text.pieces_encode_append, List.countP_cons, ih,
        Nat.add_comm]
  | stray a s h ih =>
      have hne : a ≠ 0x0A := by
        rintro rfl
        cases Text.not_isSingle_of_stray h
      have hzero : newlines [a] = 0 := newlines_eq_zero_iff.mpr (by simpa using hne.symm)
      rw [newlines_cons, hzero, Text.pieces_of_stray h, List.countP_cons, ih, Nat.zero_add]
      rfl

/-! ## Places -/

namespace Place

theorem after_eq (place : Place) (p : Piece) :
    place.after p =
      if p.isNewline then ⟨place.line + 1, 1⟩ else ⟨place.line, place.column + 1⟩ := by
  cases p <;> rfl

/-- The place behind a text that starts at a place. -/
def past (place : Place) (s : Text) : Place :=
  s.pieces.foldl after place

theorem past_append {s t : Text} (h : s.Apart t) (place : Place) :
    place.past (s ++ t) = (place.past s).past t := by
  rw [past, h.pieces_append, List.foldl_append, past, past]

theorem foldl_after_line (place : Place) (ps : List Piece) :
    (ps.foldl after place).line = place.line + ps.countP Piece.isNewline := by
  induction ps generalizing place with
  | nil => rfl
  | cons p ps ih =>
      rw [List.foldl_cons, ih, List.countP_cons, after_eq]
      split <;> simp only <;> omega

/-- A text moves a place down by its line feeds. -/
theorem past_line (place : Place) (s : Text) : (place.past s).line = place.line + newlines s := by
  rw [past, foldl_after_line, newlines_eq_countP_pieces]

theorem foldl_after_of_countP_eq_zero
    (place : Place) {ps : List Piece} (h : ps.countP Piece.isNewline = 0) :
    ps.foldl after place = ⟨place.line, place.column + ps.length⟩ := by
  induction ps generalizing place with
  | nil => rfl
  | cons p ps ih =>
      rw [List.countP_cons] at h
      have hp : p.isNewline = false := by
        cases hp : p.isNewline with
        | false => rfl
        | true => simp [hp] at h
      rw [List.foldl_cons, ih _ (by omega), after_eq, hp, List.length_cons]
      simp only [Bool.false_eq_true, ↓reduceIte, mk.injEq, true_and]
      omega

/-- A text without a line feed moves a place to the right by its characters. -/
theorem past_of_not_mem (place : Place) {s : Text} (h : 0x0A ∉ s) :
    place.past s = ⟨place.line, place.column + s.charCount⟩ := by
  rw [← newlines_eq_zero_iff, newlines_eq_countP_pieces] at h
  exact foldl_after_of_countP_eq_zero place h

theorem advance_append (place : Place) (ps qs : List Piece) :
    place.advance (ps.flatMap Piece.bytes).length (ps ++ qs) = ps.foldl after place := by
  induction ps generalizing place with
  | nil => cases qs <;> rfl
  | cons p ps ih =>
      have hpos : p.bytes.length ≠ 0 := by
        cases p with
        | char c => exact fun h => String.utf8EncodeChar_ne_nil (List.length_eq_zero_iff.mp h)
        | stray b => nofun
      rw [List.flatMap_cons, List.length_append, List.cons_append, advance, if_neg (by simp [hpos]),
        Nat.add_sub_cancel_left, ih, List.foldl_cons]

/-- The place of a position that is within no character. -/
theorem ofPosition_append {s t : Text} (h : s.Apart t) :
    ofPosition (s ++ t) s.length = start.past s := by
  have hbytes : (s.pieces.flatMap Piece.bytes).length = s.length :=
    congrArg List.length (Text.flatMap_bytes_pieces s)
  rw [ofPosition, h.pieces_append, ← hbytes, advance_append, past]

end Place

/-! ## Starts of lines -/

/-- A line of the source starts behind this text. -/
def LineStart (front : Text) : Prop :=
  front = [] ∨ front.getLast? = some 0x0A

namespace LineStart

theorem nil : LineStart [] := .inl rfl

theorem concat (s : Text) : LineStart (s ++ [0x0A]) := .inr List.getLast?_concat

theorem append {s t : Text} (hs : LineStart s) (ht : LineStart t) : LineStart (s ++ t) := by
  rcases ht with rfl | ht
  · rwa [List.append_nil]
  · exact .inr (by rw [List.getLast?_append, ht]; rfl)

theorem apart {front : Text} (h : LineStart front) (t : Text) : front.Apart t := by
  refine .inl fun b hb => ?_
  rcases h with rfl | h
  · cases hb
  · cases h.symm.trans hb
    rfl

theorem past_eq {front : Text} (h : LineStart front) :
    Place.start.past front = ⟨newlines front + 1, 1⟩ := by
  rcases List.eq_nil_or_concat front with rfl | ⟨s, b, rfl⟩
  · rfl
  · obtain rfl : b = 0x0A := by simpa [LineStart] using h
    have hlast : ∀ place : Place, place.past [0x0A] = ⟨place.line + 1, 1⟩ := fun _ => rfl
    have hapart : Text.Apart s [0x0A] := .inr (by rintro _ ⟨⟩; rfl)
    rw [List.concat_eq_append, Place.past_append hapart, hlast, Place.past_line, newlines_append,
      Nat.add_comm Place.start.line]
    rfl

theorem eq_nil_of_append {front s : Text} (h : LineStart (front ++ s)) (hs : 0x0A ∉ s) :
    s = [] := by
  rcases List.eq_nil_or_concat s with rfl | ⟨s, b, rfl⟩
  · rfl
  · obtain rfl : b = 0x0A := by simpa [LineStart, ← List.append_assoc] using h
    exact absurd (by simp) hs

/-- Two starts of lines of one source with as many line feeds before them are the
same. -/
theorem eq_of_newlines_eq
    {front front' s t : Text} (h : LineStart front) (h' : LineStart front')
    (happend : front ++ s = front' ++ t) (hnewlines : newlines front = newlines front') :
    front = front' := by
  have hext : ∀ v : Text, newlines v = 0 → ∀ u, LineStart (u ++ v) → u ++ v = u := by
    intro v hv u hu
    rw [hu.eq_nil_of_append (newlines_eq_zero_iff.mp hv), List.append_nil]
  rcases List.append_eq_append_iff.mp happend with ⟨v, rfl, -⟩ | ⟨v, rfl, -⟩
  · rw [newlines_append] at hnewlines
    exact (hext v (by omega) _ h').symm
  · rw [newlines_append] at hnewlines
    exact hext v (by omega) _ h

end LineStart

/-- Every text ends with a part of a line. -/
theorem exists_lineStart (s : Text) :
    ∃ front before, s = front ++ before ∧ LineStart front ∧ 0x0A ∉ before := by
  induction s with
  | nil => exact ⟨[], [], rfl, .nil, List.not_mem_nil⟩
  | cons b s ih =>
      obtain ⟨front, before, rfl, hstart, hbefore⟩ := ih
      by_cases hb : b = 0x0A
      · subst hb
        exact ⟨0x0A :: front, before, rfl, (LineStart.concat []).append hstart, hbefore⟩
      rcases hstart with rfl | hlast
      · exact ⟨[], b :: before, rfl, .nil, by simp [Ne.symm hb, hbefore]⟩
      · exact ⟨b :: front, before, rfl, .inr (by rw [List.getLast?_cons, hlast]; rfl), hbefore⟩

/-- The place of a position is found on the line that the position is on. -/
theorem Place.ofPosition_eq
    {front before rest : Text} (hstart : LineStart front) (hbefore : 0x0A ∉ before)
    (hapart : (front ++ before).Apart rest) :
    ofPosition (front ++ before ++ rest) (front ++ before).length =
      ⟨newlines front + 1, before.charCount + 1⟩ := by
  rw [ofPosition_append hapart, past_append (hstart.apart before), hstart.past_eq,
    past_of_not_mem _ hbefore, Nat.add_comm 1]

/-! ## The lines of a source -/

/-- How a line ends that has a line behind it. A carriage return right in front of the
line feed belongs to the line end, not to the content of the line. -/
def LineEnd (content ending : Text) : Prop :=
  ending = [0x0D, 0x0A] ∨ ending = [0x0A] ∧ content.getLast? ≠ some 0x0D

/-- `content` is line `n` of a source, without its line end. -/
def IsLine (source : Text) (n : Nat) (content : Text) : Prop :=
  ∃ front rest, source = front ++ content ++ rest ∧ LineStart front ∧ n = newlines front + 1 ∧
    0x0A ∉ content ∧ (rest = [] ∨ ∃ ending, LineEnd content ending ∧ ending <+: rest)

/-- A source read line by line. -/
inductive Lines : Text → List Text → Prop where
  | last {content : Text} (hcontent : 0x0A ∉ content) : Lines content [content]
  | line {content ending rest : Text} {contents : List Text} (hcontent : 0x0A ∉ content)
      (hend : LineEnd content ending) (h : Lines rest contents) :
      Lines (content ++ ending ++ rest) (content :: contents)

theorem LineEnd.lineStart {content ending : Text} (h : LineEnd content ending) (s : Text) :
    LineStart (s ++ ending) := by
  rcases h with rfl | ⟨rfl, -⟩
  · exact List.append_cons s 0x0D [0x0A] ▸ .concat (s ++ [0x0D])
  · exact .concat s

theorem LineEnd.newlines_eq {content ending : Text} (h : LineEnd content ending) :
    newlines ending = 1 := by
  rcases h with rfl | ⟨rfl, -⟩ <;> rfl

namespace Lines

variable {s : Text} {contents : List Text}

theorem length_eq (h : Lines s contents) : contents.length = newlines s + 1 := by
  induction h with
  | last hcontent => rw [newlines_eq_zero_iff.mpr hcontent]; rfl
  | line hcontent hend h ih =>
      rw [newlines_append, newlines_append, newlines_eq_zero_iff.mpr hcontent, hend.newlines_eq,
        List.length_cons, ih]
      omega

/-- The contents of a source read line by line are its lines, in their order. -/
theorem isLine (h : Lines s contents) {front : Text} (hfront : LineStart front) {n : Nat}
    {content : Text} (hn : contents[n]? = some content) :
    IsLine (front ++ s) (newlines front + n + 1) content := by
  induction h generalizing front n with
  | @last content' hcontent =>
      cases n with
      | zero =>
          obtain rfl := Option.some.inj hn
          exact ⟨front, [], by simp, hfront, rfl, hcontent, .inl rfl⟩
      | succ n => cases hn
  | @line content' ending rest contents hcontent hend h ih =>
      cases n with
      | zero =>
          obtain rfl := Option.some.inj hn
          exact ⟨front, ending ++ rest, by simp, hfront, rfl, hcontent,
            .inr ⟨ending, hend, List.prefix_append ending rest⟩⟩
      | succ n =>
          have hcount : newlines (front ++ content' ++ ending) = newlines front + 1 := by
            rw [newlines_append, newlines_append, newlines_eq_zero_iff.mpr hcontent,
              hend.newlines_eq]
          have hline := ih (hend.lineStart (front ++ content')) hn
          rw [hcount, Nat.add_assoc _ 1 n, Nat.add_comm 1 n] at hline
          simpa only [List.append_assoc] using hline

/-- A byte in front of a source becomes the first one of its first line. -/
theorem cons (h : Lines s contents) {b : UInt8} (hb : b ≠ 0x0A)
    (hreturn : b = 0x0D → s.head? ≠ some 0x0A) :
    ∃ content others, contents = content :: others ∧
      Lines (b :: s) ((b :: content) :: others) := by
  cases h with
  | last hcontent => exact ⟨s, [], rfl, .last (by simp [Ne.symm hb, hcontent])⟩
  | @line content ending rest others hcontent hend h =>
      refine ⟨content, others, rfl, ?_⟩
      have hend' : LineEnd (b :: content) ending := by
        rcases hend with rfl | ⟨rfl, hlast⟩
        · exact .inl rfl
        · refine .inr ⟨rfl, ?_⟩
          cases content with
          | nil => simpa using hreturn
          | cons c content => rwa [List.getLast?_cons_cons]
      exact .line (by simp [Ne.symm hb, hcontent]) hend' h

end Lines

namespace Excerpt

theorem lines_newline (s : Text) : lines (0x0A :: s) = [] :: lines s := by
  cases s <;> rfl

theorem lines_return_newline (s : Text) : lines (0x0D :: 0x0A :: s) = [] :: lines s :=
  lines_newline s

theorem lines_cons {b : UInt8} {s content : Text} {others : List Text} (hb : b ≠ 0x0A)
    (hreturn : b = 0x0D → s.head? ≠ some 0x0A) (h : lines s = content :: others) :
    lines (b :: s) = (b :: content) :: others := by
  have hunify : Text.unifyLineEnds (b :: s) = b :: Text.unifyLineEnds s := by
    rw [Text.unifyLineEnds]
    rintro tail hb rfl
    exact hreturn (eq_of_beq hb) rfl
  rw [lines] at h
  rw [lines, hunify, Text.splitOn, beq_false_of_ne hb, h]

/-- The lines of a source are those that it is read in. -/
theorem lines_lines (source : Text) : Lines source (lines source) := by
  -- The induction is on the length, since a carriage return takes the line feed along.
  induction h : source.length using Nat.strongRecOn generalizing source with
  | _ n ih =>
      subst h
      rcases source with _ | ⟨b, s⟩
      · exact .last List.not_mem_nil
      by_cases hb : b = 0x0A
      · subst hb
        have hend : LineEnd [] [0x0A] := .inr ⟨rfl, nofun⟩
        rw [lines_newline]
        exact .line List.not_mem_nil hend (ih s.length (by simp) s rfl)
      by_cases hreturn : b = 0x0D ∧ s.head? = some 0x0A
      · obtain ⟨rfl, hs⟩ := hreturn
        rcases s with _ | ⟨c, s⟩
        · cases hs
        obtain rfl : c = 0x0A := Option.some.inj hs
        have hend : LineEnd [] [0x0D, 0x0A] := .inl rfl
        rw [lines_return_newline]
        have hlt : s.length < (0x0D :: 0x0A :: s).length := by
          simp only [List.length_cons]
          omega
        exact .line List.not_mem_nil hend (ih s.length hlt s rfl)
      · obtain ⟨content, others, hlines, hcons⟩ :=
          (ih s.length (by simp) s rfl).cons hb fun h hs => hreturn ⟨h, hs⟩
        rwa [lines_cons hb (fun h hs => hreturn ⟨h, hs⟩) hlines]

theorem length_lines (source : Text) : (lines source).length = newlines source + 1 :=
  (lines_lines source).length_eq

theorem isLine_of_getElem? {source content : Text} {n : Nat}
    (h : (lines source)[n]? = some content) : IsLine source (n + 1) content := by
  have hline := (lines_lines source).isLine .nil h
  rwa [List.nil_append, newlines_eq_zero_iff.mpr List.not_mem_nil, Nat.zero_add] at hline

end Excerpt

/-- The line of a position goes on behind the position, unless a line feed is there. -/
theorem IsLine.exists_eq_append
    {front before rest content : Text} (hstart : LineStart front) (hbefore : 0x0A ∉ before)
    (hrest : rest.head? ≠ some 0x0A)
    (h : IsLine (front ++ before ++ rest) (newlines front + 1) content) :
    ∃ tail, content = before ++ tail ∧ tail <+: rest := by
  obtain ⟨front', rest', happend, hstart', hcount, -, hend⟩ := h
  rw [List.append_assoc, List.append_assoc] at happend
  obtain rfl : front = front' := hstart.eq_of_newlines_eq hstart' happend (by omega)
  rcases List.append_eq_append_iff.mp (List.append_cancel_left happend) with
    ⟨tail, rfl, rfl⟩ | ⟨extra, rfl, rfl⟩
  · exact ⟨tail, rfl, List.prefix_append tail rest'⟩
  · -- What stands beyond the line in front of the position would be part of the line end.
    suffices hextra : extra = [] by
      subst hextra
      exact ⟨[], by simp, List.nil_prefix⟩
    rcases extra with _ | ⟨b, extra⟩
    · rfl
    rcases hend with hnil | ⟨_, rfl | ⟨rfl, -⟩, u, hu⟩
    · cases hnil
    · obtain ⟨-, hu⟩ := List.cons.inj hu
      rcases extra with _ | ⟨c, extra⟩
      · exact absurd (congrArg List.head? hu).symm hrest
      · obtain ⟨rfl, -⟩ := List.cons.inj hu
        exact absurd (by simp) hbefore
    · obtain ⟨rfl, -⟩ := List.cons.inj hu
      exact absurd (by simp) hbefore

end BlockLang
