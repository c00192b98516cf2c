import BlockLang.Text.Utf8

/-!
# Reading characters back

The UTF-8 form of a character is read back as this character, and a character
that is read stands there in its UTF-8 form. So a text is UTF-8 throughout exactly
if repairing it changes nothing, and the characters of a text that is made of
characters are these.
-/

namespace BlockLang

namespace Text

/-! ## One character -/

theorem scalar?_eq_some_iff {least n : Nat} {c : Char} :
    scalar? least n = some c ↔ n = c.toNat ∧ least ≤ n := by
  unfold scalar?
  constructor
  · intro h
    by_cases hvalid : n.isValidChar
    · rw [dif_pos hvalid] at h
      by_cases hle : least ≤ n
      · rw [if_pos hle] at h
        obtain rfl := Option.some.inj h
        exact ⟨rfl, hle⟩
      · rw [if_neg hle] at h
        cases h
    · rw [dif_neg hvalid] at h
      cases h
  · rintro ⟨rfl, hle⟩
    have hvalid : c.toNat.isValidChar := c.valid
    rw [dif_pos hvalid, if_pos hle]
    rfl

theorem continued_zero (high : Nat) (s : Text) : continued 0 high s = some high := by
  cases s <;> rfl

/-- The byte that continues a character with six more bits. -/
def continuation (m : Nat) : UInt8 :=
  UInt8.ofNat (m % 0x40 + 0x80)

theorem toNat_continuation (m : Nat) : (continuation m).toNat = m % 0x40 + 0x80 := by
  rw [continuation, UInt8.toNat_ofNat']
  omega

theorem continued_succ_eq_some_iff {n high v : Nat} {s : Text} :
    continued (n + 1) high s = some v ↔
      ∃ m t, m < 0x40 ∧ s = continuation m :: t ∧ continued n (high * 64 + m) t = some v := by
  constructor
  · intro h
    cases s with
    | nil => cases h
    | cons b t =>
        rw [continued] at h
        split at h
        · rename_i hrange
          simp only [Bool.and_eq_true, decide_eq_true_eq, UInt8.le_iff_toNat_le,
            UInt8.lt_iff_toNat_lt] at hrange
          have hlow : 0x80 ≤ b.toNat := hrange.1
          have hhigh : b.toNat < 0xC0 := hrange.2
          refine ⟨b.toNat - 0x80, t, by omega, ?_, h⟩
          have hbyte : b = continuation (b.toNat - 0x80) := by
            apply UInt8.toNat_inj.mp
            rw [toNat_continuation]
            omega
          rw [← hbyte]
        · cases h
  · rintro ⟨m, t, hm, rfl, h⟩
    have hbyte : (continuation m).toNat = m + 0x80 := by
      rw [toNat_continuation, Nat.mod_eq_of_lt hm]
    have hrange : (0x80 ≤ continuation m && continuation m < 0xC0) = true := by
      simp only [Bool.and_eq_true, decide_eq_true_eq, UInt8.le_iff_toNat_le,
        UInt8.lt_iff_toNat_lt, hbyte]
      change 0x80 ≤ m + 0x80 ∧ m + 0x80 < 0xC0
      omega
    rw [continued, if_pos hrange, hbyte, Nat.add_sub_cancel]
    exact h

theorem sequence?_eq_some_iff {n high least k : Nat} {s : Text} {c : Char} :
    sequence? n high least s = some (c, k) ↔
      k = n ∧ continued n high s = some c.toNat ∧ least ≤ c.toNat := by
  unfold sequence?
  simp only [Option.map_eq_some_iff, Option.bind_eq_some_iff, scalar?_eq_some_iff,
    Prod.mk.injEq]
  constructor
  · rintro ⟨_, ⟨v, hv, rfl, hle⟩, rfl, rfl⟩
    exact ⟨rfl, hv, hle⟩
  · rintro ⟨rfl, hv, hle⟩
    exact ⟨c, ⟨c.toNat, hv, rfl, hle⟩, rfl, rfl⟩

/-- The UTF-8 form of a character, by the size of its code point. -/
theorem utf8EncodeChar_cases (c : Char) :
    (c.toNat < 0x80 ∧ String.utf8EncodeChar c = [UInt8.ofNat c.toNat]) ∨
    (0x80 ≤ c.toNat ∧ c.toNat < 0x800 ∧
      String.utf8EncodeChar c = [UInt8.ofNat (c.toNat / 0x40 + 0xC0), continuation c.toNat]) ∨
    (0x800 ≤ c.toNat ∧ c.toNat < 0x10000 ∧
      String.utf8EncodeChar c =
        [UInt8.ofNat (c.toNat / 0x1000 + 0xE0), continuation (c.toNat / 0x40),
          continuation c.toNat]) ∨
    (0x10000 ≤ c.toNat ∧ c.toNat < 0x110000 ∧
      String.utf8EncodeChar c =
        [UInt8.ofNat (c.toNat / 0x40000 + 0xF0), continuation (c.toNat / 0x1000),
          continuation (c.toNat / 0x40), continuation c.toNat]) := by
  have hlt : c.val.toNat < 0x110000 := by
    have hvalid : c.val.toNat.isValidChar := c.valid
    unfold Nat.isValidChar at hvalid
    omega
  unfold String.utf8EncodeChar
  by_cases h₁ : c.val.toNat ≤ 0x7F
  · exact .inl ⟨Nat.lt_succ_of_le h₁, if_pos h₁⟩
  by_cases h₂ : c.val.toNat ≤ 0x7FF
  · have hfirst : c.val.toNat / 64 % 0x20 = c.val.toNat / 64 := by omega
    refine .inr (.inl ⟨Nat.not_le.mp h₁, Nat.lt_succ_of_le h₂, ?_⟩)
    rw [if_neg h₁, if_pos h₂, hfirst]
    rfl
  by_cases h₃ : c.val.toNat ≤ 0xFFFF
  · have hfirst : c.val.toNat / 4096 % 0x10 = c.val.toNat / 4096 := by omega
    refine .inr (.inr (.inl ⟨Nat.not_le.mp h₂, Nat.lt_succ_of_le h₃, ?_⟩))
    rw [if_neg h₁, if_neg h₂, if_pos h₃, hfirst]
    rfl
  · have hfirst : c.val.toNat / 262144 % 0x08 = c.val.toNat / 262144 := by omega
    refine .inr (.inr (.inr ⟨Nat.not_le.mp h₃, hlt, ?_⟩))
    rw [if_neg h₁, if_neg h₂, if_neg h₃, hfirst]
    rfl

theorem ofNat_of_toNat_eq {a : UInt8} {n : Nat} (h : a.toNat = n) : a = UInt8.ofNat n := by
  rw [← h, UInt8.ofNat_toNat]

theorem continuation_of_mod_eq {m n : Nat} (h : m % 0x40 = n % 0x40) :
    continuation m = continuation n := by
  rw [continuation, continuation, h]

/-- A character that is read stands there in its UTF-8 form. -/
theorem utf8EncodeChar_of_leading?
    {a : UInt8} {s : Text} {c : Char} {n : Nat} (h : leading? a s = some (c, n)) :
    ∃ rest t, String.utf8EncodeChar c = a :: rest ∧ s = rest ++ t ∧ rest.length = n := by
  unfold leading? at h
  simp only [UInt8.lt_iff_toNat_lt, UInt8.reduceToNat] at h
  split at h
  · simp only [Option.map_eq_some_iff, scalar?_eq_some_iff, Prod.mk.injEq] at h
    obtain ⟨_, ⟨hc, -⟩, rfl, rfl⟩ := h
    refine ⟨[], s, ?_, rfl, rfl⟩
    obtain ⟨-, henc⟩ | h | h | h := utf8EncodeChar_cases ‹Char›
    · rw [henc, ofNat_of_toNat_eq hc]
    all_goals omega
  split at h
  · cases h
  split at h
  · simp only [sequence?_eq_some_iff, continued_succ_eq_some_iff, continued_zero,
      Option.some.injEq] at h
    obtain ⟨rfl, ⟨m, t, hm, rfl, hc⟩, hleast⟩ := h
    refine ⟨[continuation m], t, ?_, rfl, rfl⟩
    obtain h | ⟨-, -, henc⟩ | h | h := utf8EncodeChar_cases c
    · omega
    · rw [henc, ofNat_of_toNat_eq (a := a) (n := c.toNat / 0x40 + 0xC0) (by omega),
        continuation_of_mod_eq (m := m) (n := c.toNat) (by omega)]
    all_goals omega
  split at h
  · simp only [sequence?_eq_some_iff, continued_succ_eq_some_iff, continued_zero,
      Option.some.injEq] at h
    obtain ⟨rfl, ⟨m₁, _, hm₁, rfl, m, t, hm, rfl, hc⟩, hleast⟩ := h
    refine ⟨[continuation m₁, continuation m], t, ?_, rfl, rfl⟩
    obtain h | h | ⟨-, -, henc⟩ | h := utf8EncodeChar_cases c
    · omega
    · omega
    · rw [henc, ofNat_of_toNat_eq (a := a) (n := c.toNat / 0x1000 + 0xE0) (by omega),
        continuation_of_mod_eq (m := m₁) (n := c.toNat / 0x40) (by omega),
        continuation_of_mod_eq (m := m) (n := c.toNat) (by omega)]
    · omega
  split at h
  · simp only [sequence?_eq_some_iff, continued_succ_eq_some_iff, continued_zero,
      Option.some.injEq] at h
    obtain ⟨rfl, ⟨m₂, _, hm₂, rfl, m₁, _, hm₁, rfl, m, t, hm, rfl, hc⟩, hleast⟩ := h
    refine ⟨[continuation m₂, continuation m₁, continuation m], t, ?_, rfl, rfl⟩
    obtain h | h | h | ⟨-, -, henc⟩ := utf8EncodeChar_cases c
    · omega
    · omega
    · omega
    · rw [henc, ofNat_of_toNat_eq (a := a) (n := c.toNat / 0x40000 + 0xF0) (by omega),
        continuation_of_mod_eq (m := m₂) (n := c.toNat / 0x1000) (by omega),
        continuation_of_mod_eq (m := m₁) (n := c.toNat / 0x40) (by omega),
        continuation_of_mod_eq (m := m) (n := c.toNat) (by omega)]
  · cases h

theorem toNat_ofNat_of_lt {n : Nat} (h : n < 0x100) : (UInt8.ofNat n).toNat = n := by
  rw [UInt8.toNat_ofNat']
  exact Nat.mod_eq_of_lt h

/-- The UTF-8 form of a character is read back as this character. -/
theorem leading?_of_utf8EncodeChar
    {c : Char} {a : UInt8} {rest : Text} (h : String.utf8EncodeChar c = a :: rest) (t : Text) :
    leading? a (rest ++ t) = some (c, rest.length) := by
  have hcontinuation : ∀ m : Nat, continuation m = continuation (m % 0x40) :=
    fun m => continuation_of_mod_eq (Nat.mod_mod m 0x40).symm
  unfold leading?
  simp only [UInt8.lt_iff_toNat_lt, UInt8.reduceToNat]
  obtain ⟨hc, henc⟩ | ⟨hlow, hhigh, henc⟩ | ⟨hlow, hhigh, henc⟩ | ⟨hlow, hhigh, henc⟩ :=
    utf8EncodeChar_cases c
  · obtain ⟨rfl, rfl⟩ := List.cons.inj (h.symm.trans henc)
    rw [toNat_ofNat_of_lt (by omega), if_pos hc]
    simp [scalar?_eq_some_iff]
  · obtain ⟨rfl, rfl⟩ := List.cons.inj (h.symm.trans henc)
    rw [toNat_ofNat_of_lt (by omega), if_neg (by omega), if_neg (by omega), if_pos (by omega)]
    refine sequence?_eq_some_iff.mpr ⟨rfl, ?_, hlow⟩
    refine continued_succ_eq_some_iff.mpr ⟨c.toNat % 0x40, t, by omega, ?_, ?_⟩
    · rw [← hcontinuation]
      rfl
    · rw [continued_zero]
      congr 1
      omega
  · obtain ⟨rfl, rfl⟩ := List.cons.inj (h.symm.trans henc)
    rw [toNat_ofNat_of_lt (by omega), if_neg (by omega), if_neg (by omega), if_neg (by omega),
      if_pos (by omega)]
    refine sequence?_eq_some_iff.mpr ⟨rfl, ?_, hlow⟩
    refine continued_succ_eq_some_iff.mpr
      ⟨c.toNat / 0x40 % 0x40, continuation c.toNat :: t, by omega, ?_, ?_⟩
    · rw [← hcontinuation]
      rfl
    refine continued_succ_eq_some_iff.mpr ⟨c.toNat % 0x40, t, by omega, ?_, ?_⟩
    · rw [← hcontinuation]
    · rw [continued_zero]
      congr 1
      omega
  · obtain ⟨rfl, rfl⟩ := List.cons.inj (h.symm.trans henc)
    rw [toNat_ofNat_of_lt (by omega), if_neg (by omega), if_neg (by omega), if_neg (by omega),
      if_neg (by omega), if_pos (by omega)]
    refine sequence?_eq_some_iff.mpr ⟨rfl, ?_, hlow⟩
    refine continued_succ_eq_some_iff.mpr
      ⟨c.toNat / 0x1000 % 0x40, continuation (c.toNat / 0x40) :: continuation c.toNat :: t,
        by omega, ?_, ?_⟩
    · rw [← hcontinuation]
      rfl
    refine continued_succ_eq_some_iff.mpr
      ⟨c.toNat / 0x40 % 0x40, continuation c.toNat :: t, by omega, ?_, ?_⟩
    · rw [← hcontinuation]
    refine continued_succ_eq_some_iff.mpr ⟨c.toNat % 0x40, t, by omega, ?_, ?_⟩
    · rw [← hcontinuation]
    · rw [continued_zero]
      congr 1
      omega

/-! ## Whole texts -/

theorem piecesAfter_eq (skip : Nat) (s : Text) : piecesAfter skip s = pieces (s.drop skip) := by
  induction s generalizing skip with
  | nil => simp [pieces, piecesAfter]
  | cons a s ih =>
      cases skip with
      | zero => rfl
      | succ skip => rw [piecesAfter, ih, List.drop_succ_cons]

theorem pieces_of_leading?
    {a : UInt8} {s : Text} {c : Char} {n : Nat} (h : leading? a s = some (c, n)) :
    pieces (a :: s) = .char c :: pieces (s.drop n) := by
  rw [pieces, piecesAfter, h, ← piecesAfter_eq]

theorem pieces_of_stray {a : UInt8} {s : Text} (h : leading? a s = none) :
    pieces (a :: s) = .stray a :: pieces s := by
  rw [pieces, piecesAfter, h]
  rfl

theorem pieces_encode_append (c : Char) (s : Text) :
    pieces (String.utf8EncodeChar c ++ s) = .char c :: pieces s := by
  cases henc : String.utf8EncodeChar c with
  | nil => exact absurd henc String.utf8EncodeChar_ne_nil
  | cons a rest =>
      rw [List.cons_append, pieces_of_leading? (leading?_of_utf8EncodeChar henc s),
        List.drop_left]

/-- The pieces of a text that is made of characters. -/
theorem pieces_ofChars (cs : List Char) : pieces (ofChars cs) = cs.map .char := by
  induction cs with
  | nil => rfl
  | cons c cs ih =>
      rw [ofChars, List.flatMap_cons, pieces_encode_append, ← ofChars, ih, List.map_cons]

/-- The pieces of a text make up the text. -/
theorem flatMap_bytes_pieces (s : Text) : (pieces s).flatMap Piece.bytes = s := by
  induction hn : s.length using Nat.strongRecOn generalizing s with
  | _ n ih =>
      cases s with
      | nil => rfl
      | cons a s =>
          rw [List.length_cons] at hn
          cases h : leading? a s with
          | none =>
              rw [pieces_of_stray h, List.flatMap_cons, ih s.length (by omega) s rfl]
              rfl
          | some result =>
              obtain ⟨c, k⟩ := result
              obtain ⟨rest, t, henc, rfl, rfl⟩ := utf8EncodeChar_of_leading? h
              have hle : t.length < n := by
                rw [← hn, List.length_append]
                omega
              rw [pieces_of_leading? h, List.drop_left, List.flatMap_cons, ih t.length hle t rfl,
                Piece.bytes, henc]
              rfl

/-- A text is UTF-8 exactly if repairing it changes nothing. -/
theorem repaired_eq_iff {s : Text} : repaired s = s ↔ isUtf8 s = true := by
  constructor
  · intro h
    rw [isUtf8, ← h, repaired, pieces_ofChars, List.all_map]
    exact List.all_eq_true.mpr fun _ _ => rfl
  · intro h
    have hpiece : ∀ p ∈ pieces s, String.utf8EncodeChar p.toChar = p.bytes := by
      intro p hp
      have hchar := List.all_eq_true.mp h p hp
      cases p with
      | char c => rfl
      | stray b => cases hchar
    calc
      repaired s = (pieces s).flatMap fun p => String.utf8EncodeChar p.toChar := by
        rw [repaired, ofChars, chars, List.flatMap_map]
      _ = (pieces s).flatMap Piece.bytes :=
        congrArg List.flatten (List.map_congr_left hpiece)
      _ = s := flatMap_bytes_pieces s

end Text

end BlockLang
