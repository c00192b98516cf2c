import BlockLang.Integer

/-!
# Integer literals

What an integer literal denotes, said without the reader: at least one decimal
digit after an optional sign, whose value a word can hold. The reader accepts
exactly these literals, and the decimal form of a word is one of them.
-/

namespace BlockLang

namespace Integer

/-- The value of decimal digits, where the digits before the last one have the
value `n`. -/
def appendDigit (n : Nat) (b : UInt8) : Nat :=
  n * 10 + (b.toNat - 0x30)

/-- At least one decimal digit, with the value `n` in all. -/
def IsDecimal (s : Text) (n : Nat) : Prop :=
  s ≠ [] ∧ (∀ b ∈ s, Scan.isDigit b = true) ∧ s.foldl appendDigit 0 = n

/-- A literal denotes a word: decimal digits after an optional sign, whose
signed value is the value of the word. -/
def Denotes (literal : Text) (n : Int64) : Prop :=
  ∃ (s : Text) (m : Nat), IsDecimal s m ∧
    ((literal = s ∧ n.toInt = m) ∨
      (literal = 0x2B :: s ∧ n.toInt = m) ∨
      (literal = 0x2D :: s ∧ n.toInt = -(m : Int)))

/-- A numeral with its value: at least one decimal digit after an optional sign. -/
inductive IsNumeral : Text → Int → Prop where
  | plain {s : Text} {m : Nat} (h : IsDecimal s m) : IsNumeral s m
  | plus {s : Text} {m : Nat} (h : IsDecimal s m) : IsNumeral (0x2B :: s) m
  | minus {s : Text} {m : Nat} (h : IsDecimal s m) : IsNumeral (0x2D :: s) (-m)

/-- A literal denotes a word if it is a numeral for the value of the word. -/
theorem denotes_iff {literal : Text} {n : Int64} :
    Denotes literal n ↔ IsNumeral literal n.toInt := by
  constructor
  · rintro ⟨s, m, hdecimal, ⟨rfl, hn⟩ | ⟨rfl, hn⟩ | ⟨rfl, hn⟩⟩
    · rw [hn]
      exact .plain hdecimal
    · rw [hn]
      exact .plus hdecimal
    · rw [hn]
      exact .minus hdecimal
  · intro h
    generalize hz : n.toInt = z at h
    cases h with
    | plain h => exact ⟨_, _, h, .inl ⟨rfl, hz⟩⟩
    | plus h => exact ⟨_, _, h, .inr (.inl ⟨rfl, hz⟩)⟩
    | minus h => exact ⟨_, _, h, .inr (.inr ⟨rfl, hz⟩)⟩

/-! ## The reader -/

theorem le_foldl_appendDigit (n : Nat) (s : Text) : n ≤ s.foldl appendDigit n := by
  induction s generalizing n with
  | nil => exact Nat.le_refl n
  | cons b s ih =>
      rw [List.foldl_cons]
      calc
        n ≤ appendDigit n b := by unfold appendDigit; omega
        _ ≤ s.foldl appendDigit (appendDigit n b) := ih _

theorem digits_eq_ok_iff {n m : Nat} {s : Text} (hn : n < 2 * bound) :
    digits n s = .ok m ↔
      (∀ b ∈ s, Scan.isDigit b = true) ∧ s.foldl appendDigit n = m ∧ m < 2 * bound := by
  induction s generalizing n with
  | nil =>
      simp only [digits, Except.ok.injEq, List.foldl_nil, List.not_mem_nil, false_implies,
        implies_true, true_and]
      exact ⟨fun h => ⟨h, h ▸ hn⟩, fun h => h.1⟩
  | cons b s ih =>
      rw [digits, List.foldl_cons, List.forall_mem_cons]
      by_cases hb : Scan.isDigit b = true
      · by_cases hm : appendDigit n b < 2 * bound
        · simp only [hb, ↓reduceIte, true_and, ← ih hm]
          exact iff_of_eq (congrArg (· = _) (if_pos hm))
        · have hge := le_foldl_appendDigit (appendDigit n b) s
          have hm' : ¬n * 10 + (b.toNat - 0x30) < 2 * bound := hm
          simp only [hb, hm', ↓reduceIte, reduceCtorEq, false_iff]
          rintro ⟨-, rfl, hlt⟩
          omega
      · simp [hb]

theorem magnitude_eq_ok_iff {s : Text} {m : Nat} :
    magnitude s = .ok m ↔ IsDecimal s m ∧ m < 2 * bound := by
  unfold magnitude IsDecimal
  cases s with
  | nil => simp
  | cons b s => simp [digits_eq_ok_iff (n := 0) (by decide), and_assoc]

theorem ofValue_eq_ok_iff {z : Int} {n : Int64} :
    ofValue z = .ok n ↔ n.toInt = z := by
  have hbound : (bound : Int) = 2 ^ 63 := by decide
  unfold ofValue
  rw [hbound]
  split
  · rename_i h
    rw [Except.ok.injEq, ← Int64.toInt_inj, Int64.toInt_ofInt_of_le h.1 h.2, eq_comm]
  · rename_i h
    simp only [reduceCtorEq, false_iff]
    rintro rfl
    exact h ⟨n.le_toInt, n.toInt_lt⟩

theorem not_isDecimal_cons {b : UInt8} (hb : Scan.isDigit b = false) (s : Text) (m : Nat) :
    ¬IsDecimal (b :: s) m := by
  rintro ⟨-, hdigits, -⟩
  simp [hdigits b (List.mem_cons_self ..)] at hb

theorem IsDecimal.unique {s : Text} {m m' : Nat} (h : IsDecimal s m) (h' : IsDecimal s m') :
    m = m' :=
  h.2.2.symm.trans h'.2.2

/-- A numeral has one value. -/
theorem IsNumeral.unique {w : Text} {z z' : Int} (h : IsNumeral w z) (h' : IsNumeral w z') :
    z = z' := by
  cases h with
  | plain h =>
      cases h' with
      | plain h' => rw [h.unique h']
      | plus => exact absurd h (not_isDecimal_cons rfl _ _)
      | minus => exact absurd h (not_isDecimal_cons rfl _ _)
  | plus h =>
      cases h' with
      | plain h' => exact absurd h' (not_isDecimal_cons rfl _ _)
      | plus h' => rw [h.unique h']
  | minus h =>
      cases h' with
      | plain h' => exact absurd h' (not_isDecimal_cons rfl _ _)
      | minus h' => rw [h.unique h']

theorem natAbs_lt (n : Int64) : n.toInt.natAbs < 2 * bound := by
  have hlow := n.le_toInt
  have hhigh := n.toInt_lt
  unfold bound
  omega

/-- Digits with a sign in front, which turns their value `m` into `sign m`. -/
theorem bind_magnitude_eq_ok_iff
    {s : Text} {sign : Nat → Int} {n : Int64} (hsign : ∀ m, (sign m).natAbs = m) :
    (magnitude s >>= fun m => ofValue (sign m)) = .ok n ↔
      ∃ m, IsDecimal s m ∧ n.toInt = sign m := by
  constructor
  · intro h
    cases hm : magnitude s with
    | error flaw => simp [hm, bind, Except.bind] at h
    | ok m =>
        simp only [hm, bind, Except.bind] at h
        exact ⟨m, (magnitude_eq_ok_iff.mp hm).1, ofValue_eq_ok_iff.mp h⟩
  · rintro ⟨m, hdecimal, hn⟩
    have hlt : m < 2 * bound := by
      have := natAbs_lt n
      rwa [hn, hsign] at this
    rw [magnitude_eq_ok_iff.mpr ⟨hdecimal, hlt⟩]
    exact ofValue_eq_ok_iff.mpr hn

/-- The reader accepts exactly the literals that denote a word. -/
theorem read_eq_ok_iff {literal : Text} {n : Int64} :
    read literal = .ok n ↔ Denotes literal n := by
  have hplus : ∀ m : Nat, ((m : Int)).natAbs = m := fun m => Int.natAbs_natCast m
  have hminus : ∀ m : Nat, (-(m : Int)).natAbs = m := fun m => by simp
  unfold Denotes
  cases literal with
  | nil =>
      refine ⟨nofun, ?_⟩
      rintro ⟨s, m, hdecimal, ⟨rfl, -⟩ | ⟨⟨⟩, -⟩ | ⟨⟨⟩, -⟩⟩
      exact absurd rfl hdecimal.1
  | cons b s =>
      by_cases hb : b = 0x2D
      · subst hb
        refine (bind_magnitude_eq_ok_iff hminus).trans ⟨?_, ?_⟩
        · rintro ⟨m, hdecimal, hn⟩
          exact ⟨s, m, hdecimal, .inr (.inr ⟨rfl, hn⟩)⟩
        · rintro ⟨t, m, hdecimal, ⟨rfl, -⟩ | ⟨⟨⟩, -⟩ | ⟨⟨⟩, hn⟩⟩
          · exact absurd hdecimal (not_isDecimal_cons rfl _ _)
          · exact ⟨m, hdecimal, hn⟩
      · by_cases hb' : b = 0x2B
        · subst hb'
          refine (bind_magnitude_eq_ok_iff hplus).trans ⟨?_, ?_⟩
          · rintro ⟨m, hdecimal, hn⟩
            exact ⟨s, m, hdecimal, .inr (.inl ⟨rfl, hn⟩)⟩
          · rintro ⟨t, m, hdecimal, ⟨rfl, -⟩ | ⟨⟨⟩, hn⟩ | ⟨⟨⟩, -⟩⟩
            · exact absurd hdecimal (not_isDecimal_cons rfl _ _)
            · exact ⟨m, hdecimal, hn⟩
        · have hread : read (b :: s) = magnitude (b :: s) >>= fun m => ofValue m := by
            simp [read, hb, hb']
          rw [hread, bind_magnitude_eq_ok_iff hplus]
          constructor
          · rintro ⟨m, hdecimal, hn⟩
            exact ⟨b :: s, m, hdecimal, .inl ⟨rfl, hn⟩⟩
          · rintro ⟨t, m, hdecimal, ⟨rfl, hn⟩ | ⟨⟨⟩, -⟩ | ⟨⟨⟩, -⟩⟩
            · exact ⟨m, hdecimal, hn⟩
            · exact absurd rfl hb'
            · exact absurd rfl hb

theorem Denotes.unique {literal : Text} {m n : Int64}
    (hm : Denotes literal m) (hn : Denotes literal n) : m = n := by
  rw [← read_eq_ok_iff] at hm hn
  rw [hm] at hn
  exact Except.ok.inj hn

/-! ## Decimal forms -/

theorem digit_of_lt {d : Nat} (h : d < 10) :
    Scan.isDigit d.digitChar.toUInt8 = true ∧ d.digitChar.toUInt8.toNat - 0x30 = d := by
  have hall : ∀ d : Fin 10, Scan.isDigit d.val.digitChar.toUInt8 = true ∧
      d.val.digitChar.toUInt8.toNat - 0x30 = d.val := by
    decide
  exact hall ⟨d, h⟩

/-- The decimal form of a number is the one of its tenth part and one digit. -/
theorem ofNat_of_le {n : Nat} (h : 10 ≤ n) :
    Text.ofNat n = Text.ofNat (n / 10) ++ [(n % 10).digitChar.toUInt8] := by
  rw [Text.ofNat, Nat.toDigits_of_base_le (by decide) h, List.map_append]
  rfl

theorem ofNat_of_lt {n : Nat} (h : n < 10) : Text.ofNat n = [n.digitChar.toUInt8] := by
  rw [Text.ofNat, Nat.toDigits_of_lt_base h]
  rfl

theorem isDecimal_ofNat (n : Nat) : IsDecimal (Text.ofNat n) n := by
  induction n using Nat.strongRecOn with
  | _ n ih =>
      by_cases h : n < 10
      · obtain ⟨hdigit, hvalue⟩ := digit_of_lt h
        rw [ofNat_of_lt h]
        refine ⟨by simp, by simpa using hdigit, ?_⟩
        simp [appendDigit, hvalue]
      · have hle : 10 ≤ n := Nat.not_lt.mp h
        obtain ⟨-, hdigits, hfold⟩ := ih (n / 10) (by omega)
        obtain ⟨hdigit, hvalue⟩ := digit_of_lt (Nat.mod_lt n (by decide : 10 > 0))
        rw [ofNat_of_le hle]
        refine ⟨by simp, ?_, ?_⟩
        · intro b hb
          rcases List.mem_append.mp hb with hb | hb
          · exact hdigits b hb
          · rw [List.mem_singleton.mp hb]
            exact hdigit
        · rw [List.foldl_append, hfold, List.foldl_cons, List.foldl_nil, appendDigit, hvalue]
          omega

/-- The decimal form of a word denotes it. -/
theorem denotes_text (n : Int64) : Denotes (text n) n := by
  unfold text
  cases hn : n.toInt with
  | ofNat m => exact ⟨_, m, isDecimal_ofNat m, .inl ⟨rfl, hn⟩⟩
  | negSucc m =>
      refine ⟨_, m + 1, isDecimal_ofNat (m + 1), .inr (.inr ⟨rfl, ?_⟩)⟩
      rw [hn]
      rfl

theorem length_ofNat_le {n : Nat} (h : n ≤ bound) : (Text.ofNat n).length ≤ 19 := by
  rw [Text.ofNat, List.length_map, Nat.length_toDigits_le_iff (by decide) (by decide)]
  exact Nat.lt_of_le_of_lt h (by decide)

theorem length_text_le (n : Int64) : (text n).length ≤ maxIntegerLength := by
  have hlow := n.le_toInt
  have hhigh := n.toInt_lt
  unfold text
  cases hn : n.toInt with
  | ofNat m =>
      have hle : m ≤ bound := by
        rw [hn, Int.ofNat_eq_natCast] at hhigh
        unfold bound
        omega
      exact Nat.le_succ_of_le (length_ofNat_le hle)
  | negSucc m =>
      have hle : m + 1 ≤ bound := by
        unfold bound
        omega
      exact Nat.succ_le_succ (length_ofNat_le hle)

end Integer

end BlockLang
