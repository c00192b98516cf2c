import BlockLang.Expr.Outline
import BlockLang.Proofs.Characters
import BlockLang.Proofs.Scanning.Spelling

/-!
# Strings in source text

A string that is written in source text is read back as its characters. Stray
bytes are written as replacement characters, so they do not come back, and the
escapes count towards the longest string that can be read.
-/

namespace BlockLang

namespace Outline

/-- Whether a character is written as an escape. -/
def isEscaped (c : Char) : Bool :=
  c.toNat == 0x0A || c.toNat == 0x09 || c.toNat == 0x22 || c.toNat == 0x5C

/-- A character is written as itself or as a backslash and a letter. -/
theorem escapedChar_cases (c : Char) :
    (isEscaped c = false ∧ escapedChar c = String.utf8EncodeChar c) ∨
      (isEscaped c = true ∧ ∃ (letter : Char) (e : UInt8),
        escapedChar c = [0x5C, e] ∧ String.utf8EncodeChar letter = [e] ∧
        Scan.isEnd e = false ∧ String.utf8EncodeChar c = [Scan.unescape e]) := by
  by_cases h₁ : c = '\n'
  · subst h₁
    exact .inr ⟨rfl, 'n', 0x6E, rfl, rfl, rfl, rfl⟩
  by_cases h₂ : c = '\t'
  · subst h₂
    exact .inr ⟨rfl, 't', 0x74, rfl, rfl, rfl, rfl⟩
  by_cases h₃ : c = '"'
  · subst h₃
    exact .inr ⟨rfl, '"', 0x22, rfl, rfl, rfl, rfl⟩
  by_cases h₄ : c = '\\'
  · subst h₄
    exact .inr ⟨rfl, '\\', 0x5C, rfl, rfl, rfl, rfl⟩
  have hne : ∀ d : Char, c ≠ d → c.toNat ≠ d.toNat := fun d h heq => h (Char.toNat_inj.mp heq)
  refine .inl ⟨?_, ?_⟩
  · simp only [isEscaped, Bool.or_eq_false_iff, beq_eq_false_iff_ne]
    exact ⟨⟨⟨hne '\n' h₁, hne '\t' h₂⟩, hne '"' h₃⟩, hne '\\' h₄⟩
  · unfold escapedChar
    split
    · exact absurd ‹_› (hne '\n' h₁)
    · exact absurd ‹_› (hne '\t' h₂)
    · exact absurd ‹_› (hne '"' h₃)
    · exact absurd ‹_› (hne '\\' h₄)
    · rfl

theorem charCount_encode_append (c : Char) (s : Text) :
    Text.charCount (String.utf8EncodeChar c ++ s) = 1 + Text.charCount s := by
  rw [Text.charCount, Text.pieces_encode_append, List.length_cons, Text.charCount]
  omega

/-- Every character counts once, and once more for the backslash of an escape. -/
theorem charCount_flatMap_escapedChar (cs : List Char) :
    Text.charCount (cs.flatMap escapedChar) = cs.length + cs.countP isEscaped := by
  induction cs with
  | nil => rfl
  | cons c cs ih =>
      rw [List.flatMap_cons, List.length_cons, List.countP_cons]
      obtain ⟨hc, hwritten⟩ | ⟨hc, letter, e, hwritten, hletter, -, -⟩ := escapedChar_cases c
      · rw [hwritten, charCount_encode_append, ih, hc]
        simp only [Bool.false_eq_true, ↓reduceIte]
        omega
      · have hslash : [0x5C, e] ++ cs.flatMap escapedChar =
            String.utf8EncodeChar '\\' ++ (String.utf8EncodeChar letter ++
              cs.flatMap escapedChar) := by
          rw [hletter]
          rfl
        rw [hwritten, hslash, charCount_encode_append, charCount_encode_append, ih, hc]
        simp only [↓reduceIte]
        omega

end Outline

/-! ## The body of a string -/

namespace Scan

/-- A byte that stands for itself in a string. -/
def IsPlain (b : UInt8) : Prop :=
  isEnd b = false ∧ b ≠ 0x22 ∧ b ≠ 0x5C

theorem Body.plain_append
    {bs s : Text} {body : StringBody} (hbs : ∀ b ∈ bs, IsPlain b) (h : Body s body) :
    Body (bs ++ s)
      ⟨bs ++ body.value, bs.length + body.length, newlines bs + body.lines, body.closed⟩ := by
  induction bs with
  | nil => simpa [newlines] using h
  | cons b bs ih =>
      obtain ⟨⟨hend, hquote, hslash⟩, hbs⟩ := List.forall_mem_cons.mp hbs
      have hlength : (b :: bs).length + body.length = bs.length + body.length + 1 := by
        rw [List.length_cons]
        omega
      rw [List.cons_append, List.cons_append, hlength, newlines_cons, ← lineEnds_eq,
        Nat.add_assoc (Scan.lineEnds b)]
      exact .plain hend hquote (fun hb => absurd hb hslash) (ih hbs)

end Scan

namespace Outline

theorem isPlain_of_mem_encode {c : Char} (hnul : c.toNat ≠ 0) (h : isEscaped c = false) :
    ∀ b ∈ String.utf8EncodeChar c, Scan.IsPlain b := by
  have hplain : ∀ n : Nat, n < 0x100 → n ≠ 0 → n ≠ 0x22 → n ≠ 0x5C →
      Scan.IsPlain (UInt8.ofNat n) := by
    intro n hn h₀ h₁ h₂
    have hne : ∀ m : Nat, m < 0x100 → n ≠ m → UInt8.ofNat n ≠ UInt8.ofNat m := by
      intro m hm hnm heq
      apply hnm
      rw [← Text.toNat_ofNat_of_lt hn, ← Text.toNat_ofNat_of_lt hm, heq]
    refine ⟨?_, hne 0x22 (by decide) h₁, hne 0x5C (by decide) h₂⟩
    simpa [Scan.isEnd] using hne 0 (by decide) h₀
  have hcontinuation : ∀ m : Nat, Scan.IsPlain (Text.continuation m) := fun m =>
    hplain _ (by omega) (by omega) (by omega) (by omega)
  simp only [isEscaped, Bool.or_eq_false_iff, beq_eq_false_iff_ne] at h
  obtain ⟨hc, henc⟩ | ⟨hlow, hhigh, henc⟩ | ⟨hlow, hhigh, henc⟩ | ⟨hlow, hhigh, henc⟩ :=
    Text.utf8EncodeChar_cases c
  · simpa [henc] using hplain c.toNat (by omega) hnul h.1.2 h.2
  · simpa [henc, hcontinuation] using
      hplain (c.toNat / 0x40 + 0xC0) (by omega) (by omega) (by omega) (by omega)
  · simpa [henc, hcontinuation] using
      hplain (c.toNat / 0x1000 + 0xE0) (by omega) (by omega) (by omega) (by omega)
  · simpa [henc, hcontinuation] using
      hplain (c.toNat / 0x40000 + 0xF0) (by omega) (by omega) (by omega) (by omega)

/-- A character that is written in a string is read back. -/
theorem body_escapedChar_append
    {c : Char} (hnul : c.toNat ≠ 0) {s : Text} {body : Scan.StringBody} (h : Scan.Body s body) :
    Scan.Body (escapedChar c ++ s)
      ⟨String.utf8EncodeChar c ++ body.value, (escapedChar c).length + body.length,
        newlines (escapedChar c) + body.lines, body.closed⟩ := by
  obtain ⟨hc, hwritten⟩ | ⟨-, letter, e, hwritten, -, hend, hvalue⟩ := escapedChar_cases c
  · rw [hwritten]
    exact h.plain_append (isPlain_of_mem_encode hnul hc)
  · have hlines : newlines [0x5C, e] = Scan.lineEnds e := by
      rw [newlines_cons, lineEnds_eq]
      exact Nat.zero_add _
    rw [hwritten, hvalue, hlines, Nat.add_comm [0x5C, e].length]
    exact .escape hend h

theorem body_flatMap_escapedChar
    {cs : List Char} (hnul : ∀ c ∈ cs, c.toNat ≠ 0) (t : Text) :
    Scan.Body (cs.flatMap escapedChar ++ 0x22 :: t)
      ⟨Text.ofChars cs, (cs.flatMap escapedChar).length, newlines (cs.flatMap escapedChar),
        true⟩ := by
  induction cs with
  | nil => exact .quote
  | cons c cs ih =>
      obtain ⟨hc, hcs⟩ := List.forall_mem_cons.mp hnul
      have hbody := body_escapedChar_append hc (ih hcs)
      rw [← List.append_assoc, ← List.length_append, ← newlines_append] at hbody
      exact hbody

end Outline

/-! ## The literal of a string -/

/-- A string as it is written is not too long to be read. -/
def Text.Fits (s : Text) : Prop :=
  1 + s.charCount + s.chars.countP Outline.isEscaped ≤ maxStringLength

instance (s : Text) : Decidable s.Fits :=
  inferInstanceAs (Decidable (_ ≤ _))

theorem Text.not_nul_of_mem_chars {s : Text} (h : ∀ b ∈ s, Scan.isEnd b = false) :
    ∀ c ∈ s.chars, c.toNat ≠ 0 := by
  intro c hc hnul
  obtain ⟨p, hp, rfl⟩ := List.mem_map.mp hc
  cases p with
  | stray b => exact absurd hnul (by decide : Piece.replacement.toNat ≠ 0)
  | char c =>
      have hzero : (0x00 : UInt8) ∈ s := by
        rw [← flatMap_bytes_pieces s]
        refine List.mem_flatMap.mpr ⟨_, hp, ?_⟩
        obtain rfl : c = '\x00' := Char.toNat_inj.mp hnul
        decide
      exact absurd (h _ hzero) (by decide)

/-- The lexeme of a string that is written in front of any text. -/
theorem Lexeme.first_stringLiteral
    {s : Text} (h : ∀ b ∈ s, Scan.isEnd b = false) (t : Text) :
    first 0x22 (s.chars.flatMap Outline.escapedChar ++ 0x22 :: t) =
      ⟨if s.Fits then .string else .longString, s.repaired,
        (s.chars.flatMap Outline.escapedChar).length + 2,
        newlines (s.chars.flatMap Outline.escapedChar)⟩ := by
  have hbody := (Outline.body_flatMap_escapedChar (Text.not_nul_of_mem_chars h) t).eq_stringBody
  have hspan : Text.charCount (0x22 :: s.chars.flatMap Outline.escapedChar) =
      1 + s.charCount + s.chars.countP Outline.isEscaped := by
    have hquote : 0x22 :: s.chars.flatMap Outline.escapedChar =
        String.utf8EncodeChar '"' ++ s.chars.flatMap Outline.escapedChar := rfl
    rw [hquote, Outline.charCount_encode_append, Outline.charCount_flatMap_escapedChar,
      Text.chars, List.length_map, Text.charCount, Nat.add_assoc]
  rw [first_quote, string, hbody]
  simp only [List.take_left, hspan, Text.repaired, ↓reduceIte]
  by_cases hfits : s.Fits
  · rw [if_pos hfits, if_neg (Nat.not_lt.mpr hfits)]
  · rw [if_neg hfits, if_pos (Nat.not_le.mp hfits)]

/-- What a string spells when it is written in source text. -/
theorem spelled_stringLiteral
    {s : Text} (h : ∀ b ∈ s, Scan.isEnd b = false) (t : Text) :
    spelled (Outline.stringLiteral s ++ t) =
      (if s.Fits then .string s.repaired else .mark .longString) :: spelled t := by
  have htext : Outline.stringLiteral s ++ t =
      0x22 :: (s.chars.flatMap Outline.escapedChar ++ 0x22 :: t) := by
    rw [Outline.stringLiteral, List.append_assoc, List.append_assoc]
    rfl
  have hdrop : (s.chars.flatMap Outline.escapedChar ++ 0x22 :: t).drop
      ((s.chars.flatMap Outline.escapedChar).length + 1) = t := by
    rw [← List.drop_drop, List.drop_left]
    rfl
  rw [htext, spelled_cons, Lexeme.remaining, Lexeme.first_stringLiteral h, List.drop_succ_cons,
    hdrop]
  by_cases hfits : s.Fits
  · rw [if_pos hfits, if_pos hfits]
    rfl
  · rw [if_neg hfits, if_neg hfits]
    rfl

end BlockLang
