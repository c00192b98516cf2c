import BlockLang.Dump
import BlockLang.Proofs.Characters.Boundaries

/-!
# Strings in dumps

What is written of a string in a dump shows where the string ends, and which characters
it has. The backslash of an escape is followed by a letter of its own or by four
hexadecimal digits, every other character stands for itself, and a quote that is not
escaped ends the string. A stray byte is written as a replacement character and cannot be
told from one, so only strings that are UTF-8 are determined by what is written.
-/

namespace BlockLang

/-! ## Hexadecimal digits -/

namespace Text

/-- The value of a hexadecimal digit. -/
def nibble (b : UInt8) : Nat :=
  if b.toNat < 0x40 then b.toNat - 0x30 else b.toNat - 0x57

/-- The value of hexadecimal digits, where the digits before the last one have the value
`n`. -/
def appendNibble (n : Nat) (b : UInt8) : Nat :=
  n * 16 + nibble b

theorem nibble_of_lt {d : Nat} (h : d < 16) : nibble d.digitChar.toUInt8 = d := by
  have hall : ∀ d : Fin 16, nibble d.val.digitChar.toUInt8 = d.val := by decide
  exact hall ⟨d, h⟩

theorem foldl_toDigits (n : Nat) :
    ((Nat.toDigits 16 n).map Char.toUInt8).foldl appendNibble 0 = n := by
  induction n using Nat.strongRecOn with
  | _ n ih =>
      by_cases h : n < 16
      · rw [Nat.toDigits_of_lt_base h]
        simp [appendNibble, nibble_of_lt h]
      · have hdigit := nibble_of_lt (Nat.mod_lt n (by decide : 16 > 0))
        rw [Nat.toDigits_of_base_le (by decide) (Nat.not_lt.mp h), List.map_append,
          List.foldl_append, ih (n / 16) (by omega)]
        simp only [List.map_cons, List.map_nil, List.foldl_cons, List.foldl_nil, appendNibble,
          hdigit]
        omega

theorem foldl_hex (width n : Nat) : (hex width n).foldl appendNibble 0 = n := by
  have hzeros (k : Nat) : (List.replicate k (0x30 : UInt8)).foldl appendNibble 0 = 0 := by
    induction k with
    | zero => rfl
    | succ k ih => exact ih
  rw [hex, List.foldl_append, hzeros, foldl_toDigits]

theorem length_hex {n : Nat} (h : n < 0x10000) : (hex 4 n).length = 4 := by
  have hle : (Nat.toDigits 16 n).length ≤ 4 :=
    (Nat.length_toDigits_le_iff (by decide) (by decide)).mpr h
  rw [hex, List.length_append, List.length_replicate, List.length_map]
  omega

end Text

namespace Dump

/-! ## Strings -/

/-- The code points of the characters that are escaped by a letter, with their
letters. -/
def letters : List (Nat × UInt8) :=
  [(0x22, 0x22), (0x5C, 0x5C), (0x08, 0x62), (0x0C, 0x66), (0x0A, 0x6E), (0x0D, 0x72),
   (0x09, 0x74)]

/-- The ways to write a character of a string. -/
inductive Written (c : Char) : Text → Prop where
  | letter {e : UInt8} (h : (c.toNat, e) ∈ letters) : Written c [0x5C, e]
  | number (h : c.toNat < 0x10000) : Written c (0x5C :: 0x75 :: Text.hex 4 c.toNat)
  | plain (hquote : c.toNat ≠ 0x22) (hslash : c.toNat ≠ 0x5C) :
      Written c (String.utf8EncodeChar c)

theorem written_escapedChar (c : Char) : Written c (escapedChar c) := by
  have hletter {n : Nat} {e : UInt8} (hc : c.toNat = n) (h : (n, e) ∈ letters) :
      Written c [0x5C, e] := .letter (hc ▸ h)
  unfold escapedChar
  split
  · exact hletter ‹_› (by decide)
  · exact hletter ‹_› (by decide)
  · exact hletter ‹_› (by decide)
  · exact hletter ‹_› (by decide)
  · exact hletter ‹_› (by decide)
  · exact hletter ‹_› (by decide)
  · exact hletter ‹_› (by decide)
  · split
    · rename_i h
      simp only [Bool.or_eq_true, decide_eq_true_eq, beq_iff_eq] at h
      exact .number (by omega)
    · exact .plain ‹_› ‹_›

theorem eq_of_mem_letters {m n : Nat} {e : UInt8} (hm : (m, e) ∈ letters)
    (hn : (n, e) ∈ letters) : m = n := by
  have hall : ∀ p ∈ letters, ∀ q ∈ letters, p.2 = q.2 → p.1 = q.1 := by decide
  exact hall _ hm _ hn rfl

theorem letter_ne {n : Nat} {e : UInt8} (h : (n, e) ∈ letters) : e ≠ 0x75 := by
  have hall : ∀ p ∈ letters, p.2 ≠ 0x75 := by decide
  exact hall _ h

/-- A character that is written as itself starts with a byte below 0x80 only if it is this
byte. -/
theorem encode_append_ne {c : Char} {b : UInt8} (hb : Text.isSingle b = true)
    (hne : c.toNat ≠ b.toNat) (u v : Text) : String.utf8EncodeChar c ++ u ≠ b :: v := by
  intro h
  rcases Text.utf8EncodeChar_single_or c with ⟨a, hc, -, ha⟩ | ⟨-, hall⟩
  · rw [hc] at h
    cases h
    exact hne ha.symm
  · cases henc : String.utf8EncodeChar c with
    | nil => exact String.utf8EncodeChar_ne_nil henc
    | cons a rest =>
        rw [henc] at h
        cases h
        have hnot := hall b (henc ▸ List.mem_cons_self)
        rw [hb] at hnot
        cases hnot

/-- What is written of a character shows where it ends. -/
theorem Written.append_inj {c d : Char} {t t' u u' : Text} (h : Written c t) (h' : Written d t')
    (heq : t ++ u = t' ++ u') : c = d ∧ u = u' := by
  cases h with
  | letter h =>
      cases h' with
      | letter h' =>
          cases heq
          exact ⟨Char.toNat_inj.mp (eq_of_mem_letters h h'), rfl⟩
      | number => cases heq; exact absurd rfl (letter_ne h)
      | plain _ hslash => exact absurd heq.symm (encode_append_ne (b := 0x5C) rfl hslash _ _)
  | number h =>
      cases h' with
      | letter h' => cases heq; exact absurd rfl (letter_ne h')
      | number h' =>
          obtain ⟨hhex, hrest⟩ := List.append_inj (List.cons.inj (List.cons.inj heq).2).2
            ((Text.length_hex h).trans (Text.length_hex h').symm)
          have hvalue := congrArg (List.foldl Text.appendNibble 0) hhex
          rw [Text.foldl_hex, Text.foldl_hex] at hvalue
          exact ⟨Char.toNat_inj.mp hvalue, hrest⟩
      | plain _ hslash => exact absurd heq.symm (encode_append_ne (b := 0x5C) rfl hslash _ _)
  | plain _ hslash =>
      cases h' with
      | letter => exact absurd heq (encode_append_ne (b := 0x5C) rfl hslash _ _)
      | number => exact absurd heq (encode_append_ne (b := 0x5C) rfl hslash _ _)
      | plain =>
          -- Encodings of two characters may differ in length, so the texts are decoded.
          have hpieces := congrArg Text.pieces heq
          rw [Text.pieces_encode_append, Text.pieces_encode_append] at hpieces
          obtain rfl := Piece.char.inj (List.cons.inj hpieces).1
          exact ⟨rfl, List.append_cancel_left heq⟩

/-- No character starts with a quote. -/
theorem Written.append_ne {c : Char} {t : Text} (h : Written c t) (u v : Text) :
    t ++ u ≠ 0x22 :: v := by
  cases h with
  | letter => exact fun heq => absurd (List.cons.inj heq).1 (by decide)
  | number => exact fun heq => absurd (List.cons.inj heq).1 (by decide)
  | plain hquote => exact encode_append_ne (b := 0x22) rfl hquote u v

theorem flatMap_escapedChar_inj {cs ds : List Char} {u u' : Text}
    (h : cs.flatMap escapedChar ++ 0x22 :: u = ds.flatMap escapedChar ++ 0x22 :: u') :
    cs = ds ∧ u = u' := by
  induction cs generalizing ds with
  | nil =>
      cases ds with
      | nil => exact ⟨rfl, (List.cons.inj h).2⟩
      | cons d ds =>
          rw [List.flatMap_cons, List.append_assoc] at h
          exact absurd h.symm ((written_escapedChar d).append_ne _ _)
  | cons c cs ih =>
      rw [List.flatMap_cons, List.append_assoc] at h
      cases ds with
      | nil => exact absurd h ((written_escapedChar c).append_ne _ _)
      | cons d ds =>
          rw [List.flatMap_cons, List.append_assoc] at h
          obtain ⟨rfl, hrest⟩ := (written_escapedChar c).append_inj (written_escapedChar d) h
          obtain ⟨rfl, rfl⟩ := ih hrest
          exact ⟨rfl, rfl⟩

theorem quoted_inj {s t u u' : Text} (hs : s.isUtf8 = true) (ht : t.isUtf8 = true)
    (h : quoted s ++ u = quoted t ++ u') : s = t ∧ u = u' := by
  have hquoted (s u : Text) :
      quoted s ++ u = 0x22 :: (s.chars.flatMap escapedChar ++ 0x22 :: u) := by
    rw [quoted, List.append_assoc, List.append_assoc]
    rfl
  rw [hquoted, hquoted, List.cons.injEq] at h
  obtain ⟨hchars, hrest⟩ := flatMap_escapedChar_inj h.2
  refine ⟨?_, hrest⟩
  rw [← Text.repaired_eq_iff.mpr hs, ← Text.repaired_eq_iff.mpr ht, Text.repaired, hchars,
    ← Text.repaired]

end Dump

end BlockLang
