import BlockLang.Proofs.Arithmetic
import BlockLang.Proofs.Characters.Boundaries

/-!
# Strings by the index of their characters

The procedures on strings count characters, and a stray byte counts as one. A part of a
string is made of characters, so it is UTF-8 whatever the string is: its length is the
number of the characters taken, parts that meet make up the part that they cover, and the
part that has all characters is the string itself exactly if the string is UTF-8.
-/

namespace BlockLang

namespace Text

/-- The characters of a text from one index up to another, as a text. -/
def between (s : Text) (i j : Nat) : Text :=
  ofChars ((s.chars.take j).drop i)

theorem length_chars (s : Text) : s.chars.length = s.charCount :=
  List.length_map _

theorem charCount_ofChars (cs : List Char) : (ofChars cs).charCount = cs.length := by
  rw [charCount, pieces_ofChars, List.length_map]

theorem ofChars_append (cs ds : List Char) : ofChars (cs ++ ds) = ofChars cs ++ ofChars ds :=
  List.flatMap_append

theorem charCount_between {s : Text} {j : Nat} (i : Nat) (hj : j ≤ s.charCount) :
    (s.between i j).charCount = j - i := by
  rw [between, charCount_ofChars, List.length_drop, List.length_take, length_chars,
    Nat.min_eq_left hj]

theorem between_append (s : Text) {i j k : Nat} (hij : i ≤ j) (hjk : j ≤ k) :
    s.between i j ++ s.between j k = s.between i k := by
  have hsplit : (s.chars.take k).drop i =
      (s.chars.take j).drop i ++ (s.chars.take k).drop j := by
    rw [List.drop_take, List.drop_take, List.drop_take, ← Nat.sub_add_sub_cancel hjk hij,
      Nat.add_comm, List.take_add, List.drop_drop, Nat.add_sub_cancel' hij]
  rw [between, between, between, hsplit, ofChars_append]

/-- All characters of a text are the text itself exactly if it is UTF-8. -/
theorem between_charCount_eq_iff {s : Text} :
    s.between 0 s.charCount = s ↔ s.isUtf8 = true := by
  rw [between, ← length_chars, List.take_length, List.drop_zero, ← repaired, repaired_eq_iff]

theorem charCount_le_length (s : Text) : s.charCount ≤ s.length := by
  induction s using pieces_induction with
  | nil => exact Nat.le_refl 0
  | char c s ih =>
      have hpos : 0 < (String.utf8EncodeChar c).length :=
        List.length_pos_iff.mpr String.utf8EncodeChar_ne_nil
      rw [charCount, pieces_encode_append, List.length_cons, ← charCount, List.length_append]
      omega
  | stray a s h ih =>
      rw [charCount, pieces_of_stray h, List.length_cons, ← charCount, List.length_cons]
      omega

end Text

/-! ## The procedures -/

namespace Procedure

variable {s t : Text} {i j : Int64}

theorem slice_of_range
    (hi : 0 ≤ i.toInt) (hij : i.toInt ≤ j.toInt) (hj : j.toInt ≤ s.charCount) :
    slice s i j = .ok (s.between i.toInt.toNat j.toInt.toNat) := by
  unfold slice
  simp only [Int64.lt_iff_toInt_lt, Int64.toInt_zero, Text.length_chars]
  rw [if_neg (by omega)]
  rfl

theorem slice_of_not_range
    (h : ¬(0 ≤ i.toInt ∧ i.toInt ≤ j.toInt ∧ j.toInt ≤ s.charCount)) :
    slice s i j = .error (.invalidSubstring i j s) := by
  unfold slice
  simp only [Int64.lt_iff_toInt_lt, Int64.toInt_zero, Text.length_chars]
  rw [if_pos (by omega)]

theorem characterAt_of_range (hi : 0 ≤ i.toInt) (hcount : i.toInt < s.charCount) :
    characterAt s i = .ok (s.between i.toInt.toNat (i.toInt.toNat + 1)) := by
  unfold characterAt
  simp only [Int64.lt_iff_toInt_lt, Int64.toInt_zero, Text.length_chars]
  rw [if_neg (by omega), Text.between, List.drop_take, Nat.add_sub_cancel_left]

theorem characterAt_of_not_range (h : ¬(0 ≤ i.toInt ∧ i.toInt < s.charCount)) :
    characterAt s i = .error (.indexOutOfBounds i s) := by
  unfold characterAt
  simp only [Int64.lt_iff_toInt_lt, Int64.toInt_zero, Text.length_chars]
  rw [if_pos (by omega)]

theorem compute?_substring (s : Text) (i j : Int64) :
    compute? .substring [.string s, .integer i, .integer j] =
      some ((slice s i j).map fun t => .value (.string t)) := by
  have hcompute : compute? .substring [.string s, .integer i, .integer j] =
      some (slice s i j >>= fun t => pure (.value (.string t))) := rfl
  rw [hcompute]
  cases slice s i j <;> rfl

theorem compute?_charAt (s : Text) (i : Int64) :
    compute? .charAt [.string s, .integer i] =
      some ((characterAt s i).map fun t => .value (.string t)) := by
  have hcompute : compute? .charAt [.string s, .integer i] =
      some (characterAt s i >>= fun t => pure (.value (.string t))) := rfl
  rw [hcompute]
  cases characterAt s i <;> rfl

theorem compute?_concat (s t : Text) :
    compute? .concat [.string s, .string t] = some (.ok (.value (.string (s ++ t)))) := by
  simp [compute?, atLeast, stringArgument, bind, Except.bind, pure, Except.pure]

theorem compute?_length {n : Int64} (h : n.toInt = s.charCount) :
    compute? .length [.string s] = some (.ok (.value (.integer n))) := by
  have hlt := n.toInt_lt
  have hn : Int64.ofNat s.charCount = n := by
    rw [← Int64.toInt_inj, Int64.toInt_ofNat_of_lt (by omega), h]
  rw [← hn]
  rfl

end Procedure

namespace Library

open Procedure

variable {s : Text} {i j : Int64} (settings : Settings) (caller : FrameId) (st : State)

theorem call_substring
    (hi : 0 ≤ i.toInt) (hij : i.toInt ≤ j.toInt) (hj : j.toInt ≤ s.charCount) :
    call settings .substring [.string s, .integer i, .integer j] caller st =
      (.ok (.string (s.between i.toInt.toNat j.toInt.toNat)), st) := by
  refine call_of_value settings caller st ?_
  rw [compute?_substring, slice_of_range hi hij hj]
  rfl

theorem call_substring_of_not_range
    (h : ¬(0 ≤ i.toInt ∧ i.toInt ≤ j.toInt ∧ j.toInt ≤ s.charCount)) :
    ∃ f : Fault, f.kind = .invalidArgument ∧
      call settings .substring [.string s, .integer i, .integer j] caller st = (.error f, st) := by
  refine ⟨.invalidSubstring i j s, rfl, call_of_fault settings caller st ?_⟩
  rw [compute?_substring, slice_of_not_range h]
  rfl

theorem call_charAt (hi : 0 ≤ i.toInt) (hcount : i.toInt < s.charCount) :
    call settings .charAt [.string s, .integer i] caller st =
      (.ok (.string (s.between i.toInt.toNat (i.toInt.toNat + 1))), st) := by
  refine call_of_value settings caller st ?_
  rw [compute?_charAt, characterAt_of_range hi hcount]
  rfl

theorem call_charAt_of_not_range (h : ¬(0 ≤ i.toInt ∧ i.toInt < s.charCount)) :
    ∃ f : Fault, f.kind = .invalidArgument ∧
      call settings .charAt [.string s, .integer i] caller st = (.error f, st) := by
  refine ⟨.indexOutOfBounds i s, rfl, call_of_fault settings caller st ?_⟩
  rw [compute?_charAt, characterAt_of_not_range h]
  rfl

/-- The length of a part is the difference of the indices, which is a word. -/
theorem exists_call_length_between
    (hi : 0 ≤ i.toInt) (hij : i.toInt ≤ j.toInt) (hj : j.toInt ≤ s.charCount) :
    ∃ n : Int64, n.toInt = j.toInt - i.toInt ∧
      call settings .length [.string (s.between i.toInt.toNat j.toInt.toNat)] caller st =
        (.ok (.integer n), st) := by
  have hfits : Integer.Fits (j.toInt - i.toInt) := by
    have hhigh := j.toInt_lt
    unfold Integer.Fits
    omega
  obtain ⟨n, hn⟩ := Integer.exists_toInt_eq hfits
  refine ⟨n, hn, call_of_value settings caller st (compute?_length ?_)⟩
  rw [hn, Text.charCount_between _ (by omega)]
  omega

end Library

open Library in
/-- Strings are indexed by their characters, consistently on every text. A part exists
exactly for indices that are in order and within the length, and its length is their
difference; the character at an index is the part of length one there; parts that meet are
the part that they cover; and the part with all characters is the string exactly if it is
UTF-8. All other indices are invalid arguments. The number of characters, which `length`
returns, is a word for every text of less than 2^63 bytes. -/
theorem characters_indexed_consistently
    (settings : Settings) (caller : FrameId) (st : State) (s : Text) :
    let call p args := Library.call settings p args caller st
    let substring (i j : Int64) := call .substring [.string s, .integer i, .integer j]
    let charAt (i : Int64) := call .charAt [.string s, .integer i]
    (∀ i j : Int64,
      (0 ≤ i.toInt ∧ i.toInt ≤ j.toInt ∧ j.toInt ≤ s.charCount →
        ∃ t : Text, substring i j = (.ok (.string t), st) ∧
          ∃ n : Int64, n.toInt = j.toInt - i.toInt ∧
            call .length [.string t] = (.ok (.integer n), st)) ∧
      (¬(0 ≤ i.toInt ∧ i.toInt ≤ j.toInt ∧ j.toInt ≤ s.charCount) →
        ∃ f : Fault, f.kind = .invalidArgument ∧ substring i j = (.error f, st))) ∧
    (∀ i : Int64,
      (0 ≤ i.toInt ∧ i.toInt < s.charCount →
        ∃ t : Text, charAt i = (.ok (.string t), st) ∧
          ∀ j : Int64, j.toInt = i.toInt + 1 → charAt i = substring i j) ∧
      (¬(0 ≤ i.toInt ∧ i.toInt < s.charCount) →
        ∃ f : Fault, f.kind = .invalidArgument ∧ charAt i = (.error f, st))) ∧
    (∀ i j k : Int64, 0 ≤ i.toInt → i.toInt ≤ j.toInt → j.toInt ≤ k.toInt →
      k.toInt ≤ s.charCount →
        ∃ t u : Text, substring i j = (.ok (.string t), st) ∧
          substring j k = (.ok (.string u), st) ∧
          call .concat [.string t, .string u] = substring i k) ∧
    (∀ n : Int64, n.toInt = s.charCount →
      call .length [.string s] = (.ok (.integer n), st) ∧
        (substring 0 n = (.ok (.string s), st) ↔ s.isUtf8 = true)) ∧
    (s.length < 2 ^ 63 → ∃ n : Int64, n.toInt = s.charCount) := by
  intro call substring charAt
  refine ⟨fun i j => ⟨?_, ?_⟩, fun i => ⟨?_, ?_⟩, fun i j k hi hij hjk hk => ?_, fun n hn => ?_,
    fun hlength => ?_⟩
  · rintro ⟨hi, hij, hj⟩
    exact ⟨_, call_substring settings caller st hi hij hj,
      exists_call_length_between settings caller st hi hij hj⟩
  · exact call_substring_of_not_range settings caller st
  · rintro ⟨hi, hcount⟩
    refine ⟨_, call_charAt settings caller st hi hcount, fun j hj => ?_⟩
    have hnext : j.toInt.toNat = i.toInt.toNat + 1 := by omega
    change Library.call settings _ _ caller st = Library.call settings _ _ caller st
    rw [call_charAt settings caller st hi hcount,
      call_substring settings caller st hi (by omega) (by omega), hnext]
  · exact call_charAt_of_not_range settings caller st
  · refine ⟨_, _, call_substring settings caller st hi hij (by omega),
      call_substring settings caller st (by omega) hjk hk, ?_⟩
    change Library.call settings _ _ caller st = Library.call settings _ _ caller st
    rw [call_substring settings caller st hi (by omega) hk,
      call_of_value settings caller st (Procedure.compute?_concat _ _),
      Text.between_append s (by omega) (by omega)]
  · refine ⟨call_of_value settings caller st (Procedure.compute?_length hn), ?_⟩
    have hcount : n.toInt.toNat = s.charCount := by omega
    change Library.call settings _ _ caller st = _ ↔ _
    rw [call_substring settings caller st (by decide) (by rw [Int64.toInt_zero]; omega) (by omega),
      hcount, ← Text.between_charCount_eq_iff]
    simp
  · have hle := s.charCount_le_length
    refine Integer.exists_toInt_eq ?_
    unfold Integer.Fits
    omega

/-- A letter, a character that is cut off after two bytes, and a character of two bytes:
four characters, of which the stray bytes in the middle become replacement characters. -/
theorem characters_indexed_consistently_with_strays :
    let s : Text := [0x61, 0xE2, 0x82, 0xC3, 0xA9]
    let st := (Session.start dynamicSettings ⟨[], none⟩).state
    let call p args := Library.call dynamicSettings p args 1 st
    s.charCount = 4 ∧
      call .length [.string s] = (.ok (.integer 4), st) ∧
      (∃ t : Text, call .substring [.string s, .integer 1, .integer 3] = (.ok (.string t), st) ∧
        ∃ n : Int64, n.toInt = 2 ∧ call .length [.string t] = (.ok (.integer n), st)) ∧
      call .charAt [.string s, .integer 3] =
        call .substring [.string s, .integer 3, .integer 4] ∧
      (∃ f : Fault, f.kind = .invalidArgument ∧
        call .substring [.string s, .integer 3, .integer 1] = (.error f, st)) ∧
      (∃ t u : Text, call .substring [.string s, .integer 0, .integer 2] = (.ok (.string t), st) ∧
        call .substring [.string s, .integer 2, .integer 4] = (.ok (.string u), st) ∧
        call .concat [.string t, .string u] =
          call .substring [.string s, .integer 0, .integer 4]) ∧
      call .substring [.string s, .integer 0, .integer 4] ≠ (.ok (.string s), st) := by
  intro s st call
  obtain ⟨hsubstring, hcharAt, hconcat, hlength, -⟩ :=
    characters_indexed_consistently dynamicSettings 1 st s
  obtain ⟨-, -, hnext⟩ := (hcharAt 3).1 (by decide)
  obtain ⟨hfour, hutf8⟩ := hlength 4 (by decide)
  exact ⟨by decide, hfour, (hsubstring 1 3).1 (by decide), hnext 4 (by decide),
    (hsubstring 3 1).2 (by decide),
    hconcat 0 2 4 (by decide) (by decide) (by decide) (by decide), mt hutf8.mp (by decide)⟩

end BlockLang
