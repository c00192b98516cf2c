import Mathlib.Data.List.Forall2
import BlockLang.Proofs.Printing.Strings

/-!
# What source text spells

Source text is put together from pieces. A piece that ends in punctuation or a
space spells its terminals in front of every text; a piece that ends in a word
does so in front of every text that cuts words. The lemmas here put such pieces
together as the printer does, with separators, braces and margins.
-/

namespace BlockLang

open Grammar

/-- A text spells terminals in front of every text. -/
def Spells (a : Text) (us : List Terminal) : Prop :=
  ∀ t, spelled (a ++ t) = us ++ spelled t

/-- A text spells terminals in front of every text that cuts words. -/
def Prints (a : Text) (us : List Terminal) : Prop :=
  ∀ t, Scan.Cut t → spelled (a ++ t) = us ++ spelled t

/-- A text cuts the word in front of it, whatever comes after it. -/
def Scan.Cuts (a : Text) : Prop :=
  ∀ t, Cut (a ++ t)

theorem Scan.cuts_cons {b : UInt8} (h : cuts b = true) (a : Text) : Cuts (b :: a) :=
  fun t => cut_cons h (a ++ t)

theorem Scan.Cuts.append {a : Text} (h : Cuts a) (b : Text) : Cuts (a ++ b) := by
  intro t
  rw [List.append_assoc]
  exact h (b ++ t)

/-! ## Putting pieces together -/

theorem Spells.prints {a : Text} {us : List Terminal} (h : Spells a us) : Prints a us :=
  fun t _ => h t

section Append

variable {a b : Text} {us vs : List Terminal}

theorem Spells.append (ha : Spells a us) (hb : Spells b vs) : Spells (a ++ b) (us ++ vs) := by
  intro t
  rw [List.append_assoc, ha, hb, List.append_assoc]

theorem Spells.append_prints (ha : Spells a us) (hb : Prints b vs) :
    Prints (a ++ b) (us ++ vs) := by
  intro t ht
  rw [List.append_assoc, ha, hb t ht, List.append_assoc]

theorem Prints.append_spells (ha : Prints a us) (hb : Spells b vs) (hcuts : Scan.Cuts b) :
    Spells (a ++ b) (us ++ vs) := by
  intro t
  rw [List.append_assoc, ha _ (hcuts t), hb, List.append_assoc]

theorem Prints.append_prints (ha : Prints a us) (hb : Prints b vs) (hcuts : Scan.Cuts b) :
    Prints (a ++ b) (us ++ vs) := by
  intro t ht
  rw [List.append_assoc, ha _ (hcuts t), hb t ht, List.append_assoc]

end Append

/-! ## Pieces -/

theorem spells_nil : Spells [] [] :=
  fun _ => rfl

theorem Spells.space {b : UInt8} (hb : Scan.isSpace b = true) {a : Text} {us : List Terminal}
    (h : Spells a us) : Spells (b :: a) us := by
  intro t
  rw [List.cons_append, spelled_space hb, h]

theorem Spells.mark
    {b : UInt8} {kind : Kind} (hb : Scan.punctuation? b = some kind) (hequals : b ≠ 0x3D)
    {a : Text} {us : List Terminal} (h : Spells a us) : Spells (b :: a) (.mark kind :: us) := by
  intro t
  rw [List.cons_append, spelled_mark hb fun hb => absurd hb hequals, h, List.cons_append]

theorem spells_equals : Spells " = " [.mark .equals] := by
  intro t
  have hequals : Scan.punctuation? 0x3D = some .equals := rfl
  change spelled (0x20 :: 0x3D :: 0x20 :: t) = _
  rw [spelled_space rfl, spelled_mark hequals (fun _ => by simp), spelled_space rfl]
  rfl

theorem spells_arrow : Spells " => " [.mark .arrow] := by
  intro t
  change spelled (0x20 :: 0x3D :: 0x3E :: 0x20 :: t) = _
  rw [spelled_space rfl, spelled_arrow, spelled_space rfl]
  rfl

theorem spells_spaces (n : Nat) : Spells (List.replicate n 0x20) [] := by
  induction n with
  | zero => exact spells_nil
  | succ n ih => exact .space rfl ih

theorem prints_name {x : Text} (h : (Terminal.name x).Scanned) : Prints x [.name x] := by
  obtain ⟨hword, hkind⟩ := h
  intro t ht
  rw [spelled_word hword ht, hkind]
  rfl

/-- The words that the printer writes itself. -/
theorem spells_keyword
    {x : Text} {kind : Kind} (hword : Scan.IsWord x)
    (hkind : (Lexeme.ofSpan (Lexeme.kindOfWord x) x).terminals = [.mark kind]) :
    Spells (x ++ [0x20]) [.mark kind] := by
  have hprints : Prints x [.mark kind] := by
    intro t ht
    rw [spelled_word hword ht, hkind]
  exact hprints.append_spells (.space rfl spells_nil) (Scan.cuts_cons rfl [])

/-! ## Integers -/

namespace Scan

theorem word_of_numeric {s : Text} (h : ∀ b ∈ s, (isDigit b || isSign b) = true) :
    word s = s := by
  induction s with
  | nil => rfl
  | cons b s ih =>
      obtain ⟨hb, hs⟩ := List.forall_mem_cons.mp h
      rw [word, delimits_of_numeric hb, ih hs]
      rfl

end Scan

theorem Scan.isSign_of_isDigit {b : UInt8} (h : isDigit b = true) : isSign b = false := by
  unfold isSign
  simp only [Bool.or_eq_false_iff, beq_eq_false_iff_ne]
  constructor <;> rintro rfl <;> exact absurd h (by decide)

namespace Integer

variable {w : Text} {z : Int}

theorem IsNumeral.ne_nil (h : IsNumeral w z) : w ≠ [] := by
  cases h with
  | plain h => exact h.1
  | plus h => exact List.cons_ne_nil _ _
  | minus h => exact List.cons_ne_nil _ _

theorem IsNumeral.numeric (h : IsNumeral w z) :
    ∀ b ∈ w, (Scan.isDigit b || Scan.isSign b) = true := by
  have hdigits {s : Text} {m : Nat} (h : IsDecimal s m) :
      ∀ b ∈ s, (Scan.isDigit b || Scan.isSign b) = true := by
    intro b hb
    rw [h.2.1 b hb]
    rfl
  cases h with
  | plain h => exact hdigits h
  | plus h => exact List.forall_mem_cons.mpr ⟨rfl, hdigits h⟩
  | minus h => exact List.forall_mem_cons.mpr ⟨rfl, hdigits h⟩

theorem IsNumeral.not_loneSign (h : IsNumeral w z) :
    (w.length == 1 && w.any Scan.isSign) = false := by
  have hlength {s : Text} {m : Nat} (h : IsDecimal s m) : s.length ≠ 0 :=
    fun hzero => h.1 (List.length_eq_zero_iff.mp hzero)
  cases h with
  | plain h =>
      have hsign : w.any Scan.isSign = false :=
        List.any_eq_false.mpr fun b hb => by simp [Scan.isSign_of_isDigit (h.2.1 b hb)]
      rw [hsign, Bool.and_false]
  | plus h => simp [hlength h]
  | minus h => simp [hlength h]

theorem IsNumeral.isWord (h : IsNumeral w z) : Scan.IsWord w := by
  refine ⟨h.ne_nil, Scan.word_of_numeric h.numeric, ?_⟩
  rintro b hb rfl
  exact absurd (h.numeric _ (List.mem_of_head? hb)) (by decide)

/-- A numeral is scanned as an integer unless it is too long. -/
theorem IsNumeral.kindOfWord_eq (h : IsNumeral w z) :
    Lexeme.kindOfWord w = if maxIntegerLength < w.length then .longInteger else .integer := by
  have hhead : Scan.isNumeric w = true := by
    cases w with
    | nil => exact absurd rfl h.ne_nil
    | cons b s => exact h.numeric b (List.mem_cons_self ..)
  rw [Lexeme.kindOfWord, if_pos hhead, Lexeme.integerKind, h.not_loneSign]
  rfl

end Integer

theorem prints_integer (n : Int64) : Prints (Integer.text n) [.integer (Integer.text n)] := by
  have hnumeral := Integer.denotes_iff.mp (Integer.denotes_text n)
  have hkind : Lexeme.kindOfWord (Integer.text n) = .integer := by
    rw [hnumeral.kindOfWord_eq, if_neg (Nat.not_lt.mpr (Integer.length_text_le n))]
  intro t ht
  rw [spelled_word hnumeral.isWord ht, hkind]
  rfl

/-! ## Lists -/

theorem Text.join_cons (sep a : Text) (texts : List Text) :
    join sep (a :: texts) = a ++ texts.flatMap (sep ++ ·) := by
  induction texts generalizing a with
  | nil => simp [join]
  | cons b texts ih =>
      have hjoin : join sep (a :: b :: texts) = a ++ (sep ++ join sep (b :: texts)) := by
        simp [join]
      rw [hjoin, ih, List.flatMap_cons, List.append_assoc]

theorem preceded_eq (kind : Kind) (yss : List (List Terminal)) :
    preceded kind yss = yss.flatMap ([.mark kind] ++ ·) := by
  induction yss with
  | nil => rfl
  | cons ys yss ih => rw [preceded, ih, List.flatMap_cons, List.append_assoc]; rfl

/-- Pieces after a first one, each with a separator in front of it. -/
theorem Prints.append_separated
    {sep : Text} {vs : List Terminal} (hsep : Spells sep vs) (hcuts : Scan.Cuts sep)
    {texts : List Text} {yss : List (List Terminal)} (h : List.Forall₂ Prints texts yss)
    {a : Text} {us : List Terminal} (ha : Prints a us) :
    Prints (a ++ texts.flatMap (sep ++ ·)) (us ++ yss.flatMap (vs ++ ·)) := by
  induction h generalizing a us with
  | nil => simpa using ha
  | @cons b ys texts yss hb h ih =>
      have hfirst : Prints (a ++ (sep ++ b)) (us ++ (vs ++ ys)) :=
        ha.append_prints (hsep.append_prints hb) (hcuts.append b)
      simpa using ih hfirst

theorem prints_join_separated
    {sep : Text} {kind : Kind} (hsep : Spells sep [.mark kind]) (hcuts : Scan.Cuts sep)
    {texts : List Text} {yss : List (List Terminal)} (h : List.Forall₂ Prints texts yss) :
    Prints (Text.join sep texts) (separated kind yss) := by
  cases h with
  | nil => exact spells_nil.prints
  | cons hb h =>
      rw [Text.join_cons, separated, preceded_eq]
      exact hb.append_separated hsep hcuts h

theorem prints_join_flatten
    {sep : Text} (hsep : Spells sep []) (hcuts : Scan.Cuts sep)
    {texts : List Text} {yss : List (List Terminal)} (h : List.Forall₂ Prints texts yss) :
    Prints (Text.join sep texts) yss.flatten := by
  cases h with
  | nil => exact spells_nil.prints
  | @cons b ys texts yss hb h =>
      have hflatten : (ys :: yss).flatten = ys ++ yss.flatMap ([] ++ ·) := by
        simp [List.flatMap_def]
      rw [Text.join_cons, hflatten]
      exact hb.append_separated hsep hcuts h

theorem spells_comma : Spells ", " [.mark .comma] :=
  .mark rfl (by decide) (.space rfl spells_nil)

theorem spells_closeParen : Spells ")" [.mark .closeParen] :=
  .mark rfl (by decide) spells_nil

/-- A list between parentheses. -/
theorem spells_listed
    {texts : List Text} {yss : List (List Terminal)} (h : List.Forall₂ Prints texts yss) :
    Spells ("(" ++ Text.join ", " texts ++ ")") (listed yss) := by
  have hopen : Spells "(" [.mark .openParen] := .mark rfl (by decide) spells_nil
  have hitems := prints_join_separated spells_comma (Scan.cuts_cons rfl _) h
  exact (hopen.append_prints hitems).append_spells spells_closeParen (Scan.cuts_cons rfl _)

/-- Statements between braces, on lines of their own. -/
theorem spells_bracedLines
    {texts : List Text} {yss : List (List Terminal)} (h : List.Forall₂ Prints texts yss)
    (indent : Nat) : Spells (Outline.bracedLines indent texts) (braced yss) := by
  have hclose : Spells "\x7d" [.mark .closeBrace] := .mark rfl (by decide) spells_nil
  cases h with
  | nil => exact .mark rfl (by decide) hclose
  | @cons a ys texts yss ha h =>
      have hopen : Spells "\x7b\n" [.mark .openBrace] :=
        .mark rfl (by decide) (.space rfl spells_nil)
      have hseparator : Spells ";\n" [.mark .semicolon] :=
        .mark rfl (by decide) (.space rfl spells_nil)
      have hlines : List.Forall₂ Prints
          ((a :: texts).map (Outline.margin (indent + 1) ++ ·)) (ys :: yss) := by
        refine List.forall₂_map_left_iff.mpr ((List.Forall₂.cons ha h).imp ?_)
        intro text us htext
        exact (spells_spaces _).append_prints htext
      have hitems := prints_join_separated hseparator (Scan.cuts_cons rfl _) hlines
      have hnewline : Spells "\n" [] := .space rfl spells_nil
      have hterminals : braced (ys :: yss) =
          [.mark .openBrace] ++ separated .semicolon (ys :: yss) ++ [] ++ [] ++
            [.mark .closeBrace] := by
        simp [braced]
      rw [hterminals]
      exact (((hopen.append_prints hitems).append_spells hnewline
        (Scan.cuts_cons rfl _)).append (spells_spaces (2 * indent))).append hclose

/-- The clauses of a conditional, aligned below each other. -/
theorem prints_clauseLines
    {texts : List Text} {yss : List (List Terminal)} (h : List.Forall₂ Prints texts yss)
    (hne : texts ≠ []) (indent : Nat) :
    Prints (Outline.clauseLines indent texts) (.mark .cond :: yss.flatten) := by
  have hcond : Spells "cond " [.mark .cond] :=
    spells_keyword (x := "cond") ⟨by decide, rfl, by rintro b ⟨⟩; decide⟩ rfl
  have hmargin : Spells ("\n" ++ Outline.margin indent ++ "     ") [] :=
    .space rfl ((spells_spaces _).append (spells_spaces 5))
  have hempty : texts.isEmpty = false := by simpa using hne
  have hitems := prints_join_flatten hmargin (Scan.cuts_cons rfl _) h
  rw [Outline.clauseLines, hempty]
  exact hcond.append_prints hitems

end BlockLang
