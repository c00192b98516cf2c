import Mathlib.Algebra.Group.Int.Defs
import Mathlib.Algebra.Group.Nat.Defs
import BlockLang.Proofs.Evaluation.Depth

/-!
# Arithmetic on words

The procedures for arithmetic return the mathematical result if a word can hold it
and refuse otherwise, although all their tests are made on words. The limits that a
sum or a difference is compared with are words themselves. A product may wrap, and
then the division of the wrapped product does not give the first factor back: the
wrapped product is off by a multiple of 2^64, which is more than a remainder can make
up for.
-/

namespace BlockLang

namespace Integer

/-! ## Words and integers -/

/-- A word can hold an integer. -/
def Fits (n : Int) : Prop :=
  -2 ^ 63 ≤ n ∧ n ≤ 2 ^ 63 - 1

instance : DecidablePred Fits :=
  fun _ => inferInstanceAs (Decidable (_ ∧ _))

theorem fits_toInt (a : Int64) : Fits a.toInt :=
  ⟨a.le_toInt, Int.le_sub_one_of_lt a.toInt_lt⟩

theorem exists_toInt_eq {n : Int} (h : Fits n) : ∃ a : Int64, a.toInt = n :=
  ⟨Int64.ofInt n, Int64.toInt_ofInt_of_le h.1 (Int.lt_of_le_sub_one h.2)⟩

theorem bmod_of_fits {n : Int} (h : Fits n) : n.bmod (2 ^ 64) = n := by
  obtain ⟨hlow, hhigh⟩ := h
  apply Int.bmod_eq_of_le <;> omega

theorem fits_bmod (n : Int) : Fits (n.bmod (2 ^ 64)) := by
  have hlow := Int.le_bmod (x := n) (m := 2 ^ 64) (by decide)
  have hhigh := Int.bmod_lt (x := n) (m := 2 ^ 64) (by decide)
  unfold Fits
  omega

theorem toInt_ne_zero {a : Int64} (h : a ≠ 0) : a.toInt ≠ 0 :=
  fun hzero => h (Int64.toInt_inj.mp hzero)

theorem eq_min_and_iff (a b : Int64) :
    (a = Int64.minValue ∧ b = -1) ↔ (a.toInt = -2 ^ 63 ∧ b.toInt = -1) := by
  rw [← Int64.toInt_inj, ← Int64.toInt_inj, Int64.toInt_minValue]
  rfl

/-! ## Exact results -/

/-- A result is the word with a given value, or nothing if there is no such word. -/
def Exact (result : Option Int64) (value : Int) : Prop :=
  ∀ n : Int64, result = some n ↔ n.toInt = value

theorem Exact.eq_none {result : Option Int64} {value : Int} (h : Exact result value)
    (hout : ¬Fits value) : result = none := by
  refine Option.eq_none_iff_forall_ne_some.mpr fun n hn => hout ?_
  rw [← (h n).mp hn]
  exact fits_toInt n

/-- The result of a test for values that no word can hold, which is made before the
value is computed on words. -/
theorem exact_of_test
    {refused : Prop} [Decidable refused] {n : Int64} {value : Int}
    (htest : refused ↔ ¬Fits value) (hn : n.toInt = value.bmod (2 ^ 64)) :
    Exact (if refused then none else some n) value := by
  intro m
  split
  · rename_i hrefused
    refine iff_of_false nofun fun hm => htest.mp hrefused ?_
    rw [← hm]
    exact fits_toInt m
  · rename_i hrefused
    have hfits : Fits value := Decidable.not_not.mp (mt htest.mpr hrefused)
    rw [bmod_of_fits hfits] at hn
    rw [Option.some.injEq, ← Int64.toInt_inj, hn, eq_comm]

/-! ## Sums and differences -/

/-- The limits that a sum or a difference with `b` is compared with are words: none of
them wraps where it is used. -/
structure LimitsFit (b : Int64) : Prop where
  max_sub : 0 < b → (Int64.maxValue - b).toInt = 2 ^ 63 - 1 - b.toInt
  min_sub : b < 0 → (Int64.minValue - b).toInt = -2 ^ 63 - b.toInt
  max_add : b < 0 → (Int64.maxValue + b).toInt = 2 ^ 63 - 1 + b.toInt
  min_add : 0 < b → (Int64.minValue + b).toInt = -2 ^ 63 + b.toInt

theorem limitsFit (b : Int64) : LimitsFit b := by
  have hb := fits_toInt b
  unfold Fits at hb
  constructor
  all_goals
    intro h
    rw [Int64.lt_iff_toInt_lt, Int64.toInt_zero] at h
  · rw [Int64.toInt_sub, Int64.toInt_maxValue, bmod_of_fits]
    unfold Fits
    omega
  · rw [Int64.toInt_sub, Int64.toInt_minValue, bmod_of_fits]
    unfold Fits
    omega
  · rw [Int64.toInt_add, Int64.toInt_maxValue, bmod_of_fits]
    unfold Fits
    omega
  · rw [Int64.toInt_add, Int64.toInt_minValue, bmod_of_fits]
    unfold Fits
    omega

/-- The test for a sum with `d`, with the limits to compare with. -/
theorem limit_test_iff
    {a high low : Int64} {d : Int} (hhigh : 0 < d → high.toInt = 2 ^ 63 - 1 - d)
    (hlow : d < 0 → low.toInt = -2 ^ 63 - d) :
    ((0 < d ∧ high < a) ∨ (d < 0 ∧ a < low)) ↔ ¬Fits (a.toInt + d) := by
  have ha := fits_toInt a
  simp only [Int64.lt_iff_toInt_lt, Fits] at ha ⊢
  rcases Int.lt_trichotomy d 0 with hd | hd | hd
  · rw [hlow hd]
    omega
  · omega
  · rw [hhigh hd]
    omega

theorem exact_add? (a b : Int64) : Exact (add? a b) (a.toInt + b.toInt) := by
  have hpos : 0 < b ↔ 0 < b.toInt := Int64.lt_iff_toInt_lt
  have hneg : b < 0 ↔ b.toInt < 0 := Int64.lt_iff_toInt_lt
  have hlimits := limitsFit b
  refine exact_of_test ?_ (Int64.toInt_add a b)
  rw [hpos, hneg]
  exact limit_test_iff (fun h => hlimits.max_sub (hpos.mpr h)) fun h => hlimits.min_sub (hneg.mpr h)

theorem exact_sub? (a b : Int64) : Exact (sub? a b) (a.toInt - b.toInt) := by
  have hpos : b < 0 ↔ 0 < -b.toInt := by
    rw [Int64.lt_iff_toInt_lt, Int.neg_pos]
    rfl
  have hneg : 0 < b ↔ -b.toInt < 0 := by
    rw [Int64.lt_iff_toInt_lt, Int.neg_neg_iff_pos]
    rfl
  have hlimits := limitsFit b
  refine exact_of_test ?_ (Int64.toInt_sub a b)
  rw [hpos, hneg, Int.sub_eq_add_neg]
  refine limit_test_iff (fun h => ?_) fun h => ?_
  · rw [hlimits.max_add (hpos.mpr h), Int.sub_neg]
  · rw [hlimits.min_add (hneg.mpr h), Int.sub_neg]

/-! ## Quotients -/

/-- Only one quotient of words is not a word. -/
theorem fits_tdiv_iff {a b : Int} (ha : Fits a) (hb : b ≠ 0) :
    Fits (a.tdiv b) ↔ ¬(a = -2 ^ 63 ∧ b = -1) := by
  have habs : (a.tdiv b).natAbs = a.natAbs / b.natAbs := Int.natAbs_tdiv ..
  unfold Fits at ha ⊢
  by_cases hone : b.natAbs = 1
  · rcases Int.natAbs_eq_iff.mp hone with rfl | rfl
    · rw [Int.natCast_one, Int.tdiv_one]
      omega
    · rw [Int.natCast_one, Int.tdiv_neg, Int.tdiv_one]
      omega
  · have hhalf : a.natAbs / b.natAbs ≤ a.natAbs / 2 := Nat.div_le_div_left (by omega) (by omega)
    omega

theorem exact_div? {b : Int64} (hb : b ≠ 0) (a : Int64) :
    Exact (div? a b) (a.toInt.tdiv b.toInt) := by
  refine exact_of_test ?_ (Int64.toInt_div a b)
  rw [fits_tdiv_iff (fits_toInt a) (toInt_ne_zero hb), ← eq_min_and_iff, Decidable.not_not]
  exact or_iff_right hb

theorem exact_mod? {b : Int64} (hb : b ≠ 0) (a : Int64) :
    Exact (mod? a b) (a.toInt.tmod b.toInt) := by
  intro n
  rw [mod?, if_neg hb, Option.some.injEq, ← Int64.toInt_inj, Int64.toInt_mod, eq_comm]

/-! ## Products -/

/-- A wrapped product divided by one factor is the other factor exactly if the product
has not been wrapped. -/
theorem tdiv_bmod_mul_eq_iff {a b : Int} (hb : Fits b) (hzero : b ≠ 0) :
    ((a * b).bmod (2 ^ 64)).tdiv b = a ↔ Fits (a * b) := by
  constructor
  · intro hquotient
    have hsplit := Int.mul_tdiv_add_tmod ((a * b).bmod (2 ^ 64)) b
    rw [hquotient, Int.mul_comm b a] at hsplit
    -- the remainder is what the product is off by, but it is too small for a multiple of 2 ^ 64
    have hoff : (2 ^ 64 : Int) ∣ (a * b).bmod (2 ^ 64) - a * b := Int.dvd_bmod_sub_self
    have hsmall : (((a * b).bmod (2 ^ 64)).tmod b).natAbs < b.natAbs := by
      rw [Int.natAbs_tmod]
      exact Nat.mod_lt _ (Int.natAbs_pos.mpr hzero)
    have hnone : ((a * b).bmod (2 ^ 64)).tmod b = 0 := by
      unfold Fits at hb
      omega
    rw [hnone, Int.add_zero] at hsplit
    rw [hsplit]
    exact fits_bmod _
  · intro hfits
    rw [bmod_of_fits hfits, Int.mul_tdiv_cancel _ hzero]

/-- The division in the test of a product wraps only where a factor is the least word
and the other one is -1. -/
theorem fits_tdiv_mul
    {a b : Int64} (hb : b ≠ 0) (hmin : ¬(a = Int64.minValue ∧ b = -1)) :
    Fits ((a * b).toInt.tdiv b.toInt) := by
  have ha := fits_toInt a
  rw [eq_min_and_iff] at hmin
  rw [fits_tdiv_iff (fits_toInt _) (toInt_ne_zero hb)]
  rintro ⟨hproduct, hone⟩
  have hneg : Fits (-a.toInt) := by
    unfold Fits at ha ⊢
    omega
  rw [Int64.toInt_mul, hone, Int.mul_neg_one, bmod_of_fits hneg] at hproduct
  unfold Fits at ha
  omega

/-- The test of a product refuses exactly what no word can hold. -/
theorem product_test_iff {b : Int64} (hb : b ≠ 0) (a : Int64) :
    (a * b / b ≠ a ∨ (a = -1 ∧ b = Int64.minValue) ∨ (b = -1 ∧ a = Int64.minValue)) ↔
      ¬Fits (a.toInt * b.toInt) := by
  have hfactor := tdiv_bmod_mul_eq_iff (a := a.toInt) (fits_toInt b) (toInt_ne_zero hb)
  rw [← Int64.toInt_mul] at hfactor
  constructor
  · rintro (hquotient | hmin | hmin) hfits
    · refine hquotient (Int64.toInt_inj.mp ?_)
      rw [Int64.toInt_div, hfactor.mpr hfits, bmod_of_fits (fits_toInt a)]
    · rw [hmin.1, hmin.2] at hfits
      exact absurd hfits (by decide)
    · rw [hmin.1, hmin.2] at hfits
      exact absurd hfits (by decide)
  · intro hout
    by_cases hmin : b = -1 ∧ a = Int64.minValue
    · exact .inr (.inr hmin)
    · refine .inl fun hquotient => hout (hfactor.mp ?_)
      rw [← bmod_of_fits (fits_tdiv_mul hb (mt And.symm hmin)), ← Int64.toInt_div, hquotient]

theorem exact_mul? (a b : Int64) : Exact (mul? a b) (a.toInt * b.toInt) := by
  unfold mul?
  split
  · rename_i hzero
    have hproduct : a.toInt * b.toInt = 0 := by
      rcases hzero with rfl | rfl
      · exact Int.zero_mul _
      · exact Int.mul_zero _
    intro n
    rw [hproduct, Option.some.injEq, ← Int64.toInt_inj, eq_comm]
    rfl
  · rename_i hzero
    exact exact_of_test (product_test_iff (fun hb => hzero (.inr hb)) a) (Int64.toInt_mul a b)

end Integer

/-! ## Calls of procedures -/

theorem Evaluator.callProcedure_of_value
    {p : Procedure} {args : List Node} {v : Node} (h : p.compute? args = some (.ok (.value v)))
    (settings : Settings) (wired : Bool) :
    callProcedure settings p wired args = pure v := by
  unfold callProcedure
  rw [h]
  rfl

theorem Evaluator.callProcedure_of_fault
    {p : Procedure} {args : List Node} {f : Fault} (h : p.compute? args = some (.error f))
    (settings : Settings) (wired : Bool) :
    callProcedure settings p wired args = Evaluation.fault f := by
  unfold callProcedure
  rw [h]
  rfl

namespace Library

open Evaluation Evaluator

variable {p : Procedure} {args : List Node} (settings : Settings) (caller : FrameId) (s : State)

theorem call_eq_answer :
    call settings p args caller s =
      (withCaller caller (callProcedure settings p true args) s).answer
        ((rules settings).perform (settings.limit - s.depth)) := by
  have hcall : Quietly (withCaller caller (callProcedure settings p true args)) :=
    .withCaller caller (quietly_callProcedure settings p true args)
  rw [call, Running.run_eq_answer]
  exact ended_of_balanced (hcall.balanced_answer (balanced_perform settings _) s)

theorem call_of_value {v : Node} (h : p.compute? args = some (.ok (.value v))) :
    call settings p args caller s = (.ok v, s) := by
  rw [call_eq_answer, callProcedure_of_value h]
  rfl

theorem call_of_fault {f : Fault} (h : p.compute? args = some (.error f)) :
    call settings p args caller s = (.error f, s) := by
  rw [call_eq_answer, callProcedure_of_fault h]
  rfl

end Library

/-- What comes of arithmetic with a given mathematical result, from a state: the integer
with this value if a word can hold it, and otherwise a refusal because of overflow. The
state stays as it is. -/
structure ExactOrRefused (value : Int) (s : State) (result : Except Fault Node × State) :
    Prop where
  exact : Integer.Fits value → ∃ n : Int64, n.toInt = value ∧ result = (.ok (.integer n), s)
  refused : ¬Integer.Fits value →
    ∃ f : Fault, f.kind = .arithmeticOverflow ∧ result = (.error f, s)

namespace Procedure

open Integer

variable {p : Procedure} {op : Int64 → Int64 → Option Int64} {a b : Int64}

theorem twoIntegers_integer (p : Procedure) (a b : Int64) :
    twoIntegers p [.integer a, .integer b] = .ok (a, b) :=
  rfl

theorem checked_of_some {n : Int64} (h : op a b = some n) :
    checked p op [.integer a, .integer b] = .ok (.value (.integer n)) := by
  simp only [checked, twoIntegers_integer, pure, Except.pure, bind, Except.bind, h]

theorem checked_of_none (h : op a b = none) :
    checked p op [.integer a, .integer b] = .error (.overflow p a b) := by
  simp only [checked, twoIntegers_integer, bind, Except.bind, h]
  rfl

theorem divided_of_ne_zero (hb : b ≠ 0) :
    divided p op [.integer a, .integer b] = checked p op [.integer a, .integer b] := by
  simp only [divided, checked, twoIntegers_integer, bind, Except.bind, hb, if_false]

theorem compute?_of_exact
    (hcompute : p.compute? [.integer a, .integer b] =
      some (checked p op [.integer a, .integer b]))
    {n : Int64} {value : Int} (h : Exact (op a b) value) (hn : n.toInt = value) :
    p.compute? [.integer a, .integer b] = some (.ok (.value (.integer n))) := by
  rw [hcompute, checked_of_some ((h n).mpr hn)]

theorem exactOrRefused_of_exact
    (hcompute : p.compute? [.integer a, .integer b] =
      some (checked p op [.integer a, .integer b]))
    {value : Int} (h : Exact (op a b) value) (settings : Settings) (caller : FrameId)
    (s : State) :
    ExactOrRefused value s (Library.call settings p [.integer a, .integer b] caller s) := by
  constructor
  · intro hfits
    obtain ⟨n, hn⟩ := exists_toInt_eq hfits
    exact ⟨n, hn, Library.call_of_value settings caller s (compute?_of_exact hcompute h hn)⟩
  · intro hout
    rw [checked_of_none (h.eq_none hout)] at hcompute
    exact ⟨_, rfl, Library.call_of_fault settings caller s hcompute⟩

theorem compute?_div (hb : b ≠ 0) :
    compute? .div [.integer a, .integer b] = some (checked .div div? [.integer a, .integer b]) :=
  congrArg some (divided_of_ne_zero hb)

theorem compute?_mod (hb : b ≠ 0) :
    compute? .mod [.integer a, .integer b] = some (checked .mod mod? [.integer a, .integer b]) :=
  congrArg some (divided_of_ne_zero hb)

end Procedure

open Integer Procedure in
/-- Sums, differences and products are exact or refused, and so are quotients, which are
rounded toward zero, unless the divisor is zero. No limit that a test of a sum or a
difference is made with wraps, and the test of a product, which is made on the wrapped
product, refuses exactly the products that no word can hold. -/
theorem arithmetic_exact_or_refused
    (settings : Settings) (a b : Int64) (caller : FrameId) (s : State) :
    let call p := Library.call settings p [.integer a, .integer b] caller s
    ExactOrRefused (a.toInt + b.toInt) s (call .add) ∧
      ExactOrRefused (a.toInt - b.toInt) s (call .sub) ∧
      ExactOrRefused (a.toInt * b.toInt) s (call .mul) ∧
      (b = 0 → ∃ f : Fault, f.kind = .divisionByZero ∧ call .div = (.error f, s)) ∧
      (b ≠ 0 → ExactOrRefused (a.toInt.tdiv b.toInt) s (call .div)) ∧
      LimitsFit b ∧
      (a ≠ 0 → b ≠ 0 →
        ((a * b / b ≠ a ∨ (a = -1 ∧ b = Int64.minValue) ∨ (b = -1 ∧ a = Int64.minValue)) ↔
          ¬Fits (a.toInt * b.toInt))) := by
  refine ⟨?_, ?_, ?_, fun hb => ?_, fun hb => ?_, limitsFit b, fun _ hb => product_test_iff hb a⟩
  · exact exactOrRefused_of_exact rfl (exact_add? a b) settings caller s
  · exact exactOrRefused_of_exact rfl (exact_sub? a b) settings caller s
  · exact exactOrRefused_of_exact rfl (exact_mul? a b) settings caller s
  · subst hb
    exact ⟨.divisionByZero .div, rfl, Library.call_of_fault settings caller s rfl⟩
  · exact exactOrRefused_of_exact (compute?_div hb) (exact_div? hb a) settings caller s

/-- The least word and minus one: their product wraps to the least word, and dividing it
again wraps once more. -/
theorem least_word_times_minus_one_refused :
    let s := (Session.start dynamicSettings ⟨[], none⟩).state
    let call p := Library.call dynamicSettings p [.integer Int64.minValue, .integer (-1)] 1 s
    (∃ f : Fault, f.kind = .arithmeticOverflow ∧ call .mul = (.error f, s)) ∧
      (∃ f : Fault, f.kind = .arithmeticOverflow ∧ call .div = (.error f, s)) ∧
      (∃ n : Int64, n.toInt = -2 ^ 63 + 1 ∧ call .sub = (.ok (.integer n), s)) ∧
      (Int64.minValue * -1 / -1 ≠ Int64.minValue ∨
        (Int64.minValue = -1 ∧ (-1 : Int64) = Int64.minValue) ∨
        ((-1 : Int64) = -1 ∧ Int64.minValue = Int64.minValue)) := by
  intro s call
  obtain ⟨-, hsub, hmul, -, hdiv, -, htest⟩ :=
    arithmetic_exact_or_refused dynamicSettings Int64.minValue (-1) 1 s
  refine ⟨hmul.refused (by decide), (hdiv (by decide)).refused (by decide),
    hsub.exact (by decide), (htest (by decide) (by decide)).mpr (by decide)⟩

end BlockLang
