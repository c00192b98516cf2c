import BlockLang.Proofs.Characters

/-!
# Where characters end

A byte below 0x80 is a character by itself wherever it stands, since it is no part of
the UTF-8 form of any other character. So a text can be cut in front of such a byte or
behind it without cutting a character, and the pieces of both parts are the pieces of
the whole. This holds whatever the other bytes are.
-/

namespace BlockLang

namespace Text

/-! ## Single bytes -/

/-- Whether a byte is a character by itself. -/
def isSingle (b : UInt8) : Bool :=
  b < 0x80

theorem isSingle_iff {b : UInt8} : isSingle b = true ↔ b.toNat < 0x80 := by
  simp [isSingle, UInt8.lt_iff_toNat_lt]

theorem isSingle_eq_false_iff {b : UInt8} : isSingle b = false ↔ 0x80 ≤ b.toNat := by
  simp [isSingle, UInt8.le_iff_toNat_le]

theorem isSingle_ofNat {n : Nat} (hlow : 0x80 ≤ n) (hhigh : n < 0x100) :
    isSingle (UInt8.ofNat n) = false := by
  rw [isSingle_eq_false_iff, toNat_ofNat_of_lt hhigh]
  exact hlow

theorem isSingle_continuation (m : Nat) : isSingle (continuation m) = false := by
  rw [isSingle_eq_false_iff, toNat_continuation]
  omega

/-- The UTF-8 form of a character is a single byte, or none of its bytes is a character
by itself. -/
theorem utf8EncodeChar_single_or (c : Char) :
    (∃ b, String.utf8EncodeChar c = [b] ∧ isSingle b = true ∧ b.toNat = c.toNat) ∨
      0x80 ≤ c.toNat ∧ ∀ b ∈ String.utf8EncodeChar c, isSingle b = false := by
  obtain ⟨hc, henc⟩ | ⟨hlow, hhigh, henc⟩ | ⟨hlow, hhigh, henc⟩ | ⟨hlow, hhigh, henc⟩ :=
    utf8EncodeChar_cases c
  · have hbyte : (UInt8.ofNat c.toNat).toNat = c.toNat := toNat_ofNat_of_lt (by omega)
    exact .inl ⟨_, henc, isSingle_iff.mpr (by omega), hbyte⟩
  all_goals
    refine .inr ⟨by omega, ?_⟩
    simp only [henc, List.forall_mem_cons, isSingle_continuation]
    exact ⟨isSingle_ofNat (by omega) (by omega), by simp⟩

/-- Behind its first byte the UTF-8 form of a character has no byte that is a character
by itself. -/
theorem not_isSingle_of_mem_tail {c : Char} {a b : UInt8} {rest : Text}
    (h : String.utf8EncodeChar c = a :: rest) (hb : b ∈ rest) : isSingle b = false := by
  rcases utf8EncodeChar_single_or c with ⟨a', hc, -, -⟩ | ⟨-, hall⟩
  · rw [h] at hc
    cases hc
    cases hb
  · exact hall b (h ▸ List.mem_cons_of_mem a hb)

theorem pieces_of_isSingle {b : UInt8} (h : isSingle b = true) :
    ∃ c : Char, c.toNat = b.toNat ∧ ∀ s, pieces (b :: s) = .char c :: pieces s := by
  have hlt := isSingle_iff.mp h
  obtain ⟨c, hc⟩ : ∃ c : Char, c.toNat = b.toNat := ⟨Char.ofNatAux b.toNat (.inl (by omega)), rfl⟩
  have henc : String.utf8EncodeChar c = [b] := by
    obtain ⟨-, henc⟩ | h | h | h := utf8EncodeChar_cases c
    · rw [henc, hc, UInt8.ofNat_toNat]
    all_goals omega
  refine ⟨c, hc, fun s => ?_⟩
  rw [← List.singleton_append, ← henc, pieces_encode_append]

theorem not_isSingle_of_stray {a : UInt8} {s : Text} (h : leading? a s = none) :
    isSingle a = false := by
  refine Bool.eq_false_iff.mpr fun ha => ?_
  obtain ⟨c, -, hc⟩ := pieces_of_isSingle ha
  cases (hc s).symm.trans (pieces_of_stray h)

/-- Induction over the pieces of a text. -/
theorem pieces_induction {motive : Text → Prop} (nil : motive [])
    (char : ∀ c s, motive s → motive (String.utf8EncodeChar c ++ s))
    (stray : ∀ a s, leading? a s = none → motive s → motive (a :: s)) (s : Text) :
    motive s := by
  induction h : s.length using Nat.strongRecOn generalizing s with
  | _ n ih =>
      cases s with
      | nil => exact nil
      | cons a s =>
          rw [List.length_cons] at h
          cases hlead : leading? a s with
          | none => exact stray a s hlead (ih s.length (by omega) s rfl)
          | some result =>
              obtain ⟨c, k⟩ := result
              obtain ⟨rest, t, henc, rfl, -⟩ := utf8EncodeChar_of_leading? hlead
              rw [List.length_append] at h
              rw [← List.cons_append, ← henc]
              exact char c t (ih t.length (by omega) t rfl)

/-! ## Texts that meet -/

theorem leading?_append {s t : Text} (ht : ∀ b ∈ t.head?, isSingle b = true) (a : UInt8) :
    leading? a (s ++ t) = leading? a s := by
  cases hwhole : leading? a (s ++ t) with
  | none =>
      symm
      refine Option.eq_none_iff_forall_ne_some.mpr fun ⟨c, n⟩ hpart => ?_
      obtain ⟨rest, u, henc, rfl, -⟩ := utf8EncodeChar_of_leading? hpart
      rw [List.append_assoc, leading?_of_utf8EncodeChar henc] at hwhole
      cases hwhole
  | some result =>
      obtain ⟨c, n⟩ := result
      obtain ⟨rest, u, henc, hsplit, rfl⟩ := utf8EncodeChar_of_leading? hwhole
      rcases List.append_eq_append_iff.mp hsplit with ⟨v, rfl, rfl⟩ | ⟨v, rfl, rfl⟩
      · -- A character that reaches into the second text would have its first byte inside.
        cases v with
        | nil => simpa using (leading?_of_utf8EncodeChar henc []).symm
        | cons b v =>
            have hb := not_isSingle_of_mem_tail henc (b := b) (by simp)
            rw [ht b rfl] at hb
            cases hb
      · rw [leading?_of_utf8EncodeChar henc]

/-- The pieces of a text are the pieces of its parts where the second part does not
start within a character. -/
theorem pieces_append_of_head {s t : Text} (ht : ∀ b ∈ t.head?, isSingle b = true) :
    pieces (s ++ t) = pieces s ++ pieces t := by
  induction s using pieces_induction with
  | nil => rfl
  | char c s ih => rw [List.append_assoc, pieces_encode_append, pieces_encode_append, ih]; rfl
  | stray a s h ih =>
      have hwhole : leading? a (s ++ t) = none := (leading?_append ht a).trans h
      rw [List.cons_append, pieces_of_stray hwhole, pieces_of_stray h, ih]
      rfl

/-- No character reaches over the place where two texts meet, because one of the bytes
there is a character by itself. -/
def Apart (s t : Text) : Prop :=
  (∀ b ∈ s.getLast?, isSingle b = true) ∨ ∀ b ∈ t.head?, isSingle b = true

theorem apart_nil (t : Text) : Apart [] t :=
  .inl nofun

theorem apart_concat {b : UInt8} (h : isSingle b = true) (s t : Text) : Apart (s ++ [b]) t := by
  refine .inl fun a ha => ?_
  rw [List.getLast?_concat] at ha
  cases ha
  exact h

theorem Apart.append_left {s t : Text} (h : Apart s t) (hs : s ≠ []) (front : Text) :
    Apart (front ++ s) t := by
  rcases h with hlast | hhead
  · obtain ⟨b, hb⟩ := Option.isSome_iff_exists.mp (List.getLast?_isSome.mpr hs)
    refine .inl fun a ha => hlast a ?_
    rw [List.getLast?_append, hb] at ha
    rw [hb]
    exact ha
  · exact .inr hhead

theorem Apart.of_append {front s t u : Text} (h : Apart (front ++ s) (t ++ u)) : Apart s t := by
  rcases h with hlast | hhead
  · refine .inl fun b hb => hlast b ?_
    rw [List.getLast?_append, hb]
    rfl
  · refine .inr fun b hb => hhead b ?_
    rw [List.head?_append, hb]
    rfl

theorem Apart.pieces_append {s t : Text} (h : Apart s t) :
    pieces (s ++ t) = pieces s ++ pieces t := by
  rcases h with hs | ht
  · rcases List.eq_nil_or_concat s with rfl | ⟨s, b, rfl⟩
    · rfl
    · -- The last byte of the first text is cut off as well, so that it starts a text.
      have hb : isSingle b = true := hs b (by simp)
      have hfront : ∀ u : Text, pieces (s ++ b :: u) = pieces s ++ pieces (b :: u) :=
        fun u => pieces_append_of_head (by rintro _ ⟨⟩; exact hb)
      obtain ⟨c, -, hc⟩ := pieces_of_isSingle hb
      rw [List.concat_eq_append, List.append_assoc, List.singleton_append, hfront, hfront, hc, hc,
        List.append_assoc]
      rfl
  · exact pieces_append_of_head ht

theorem Apart.chars_append {s t : Text} (h : Apart s t) : chars (s ++ t) = chars s ++ chars t := by
  rw [chars, h.pieces_append, List.map_append, chars, chars]

end Text

end BlockLang
