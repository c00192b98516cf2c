import BlockLang.Proofs.Arithmetic
import BlockLang.Proofs.Evaluation.Captures

/-!
# Quotient and remainder

Quotient and remainder of a division give the dividend back, and no procedure that is
called on the way refuses: the multiple of the divisor lies between zero and the
dividend, since the remainder has the sign of the dividend. The same holds of the
program that nests the four calls.
-/

namespace BlockLang

/-! ## Quotient and remainder -/

namespace Integer

/-- The greatest multiple of the divisor in a dividend is a word. -/
theorem fits_tdiv_mul_self {a : Int} (ha : Fits a) (b : Int) : Fits (a.tdiv b * b) := by
  have hsplit := Int.tdiv_mul_add_tmod a b
  have hsmall : (a.tmod b).natAbs ≤ a.natAbs := by
    rw [Int.natAbs_tmod]
    exact Nat.mod_le _ _
  unfold Fits at ha ⊢
  rcases Int.le_total 0 a with hsign | hsign
  · have hnonneg := Int.tmod_nonneg b hsign
    omega
  · have hnonneg := Int.tmod_nonneg b (Int.neg_nonneg_of_nonpos hsign)
    rw [Int.neg_tmod] at hnonneg
    omega

/-- A remainder is smaller than the divisor and has the sign of the dividend. -/
theorem tmod_bounds (a : Int) {b : Int} (hb : b ≠ 0) :
    (a.tmod b).natAbs < b.natAbs ∧ (a.tmod b = 0 ∨ (a.tmod b).sign = a.sign) := by
  constructor
  · rw [Int.natAbs_tmod]
    exact Nat.mod_lt _ (Int.natAbs_pos.mpr hb)
  · have hsign := Int.sign_tmod a b
    split at hsign
    · exact .inl (Int.sign_eq_zero_iff_zero.mp hsign)
    · exact .inr hsign

end Integer

namespace Procedure

open Integer

/-- The answers of the procedures that take a dividend apart and put it together again:
quotient, remainder, their multiple of the divisor, and the dividend. -/
structure Reconstructs (a b q r m : Int64) : Prop where
  quotient : compute? .div [.integer a, .integer b] = some (.ok (.value (.integer q)))
  remainder : compute? .mod [.integer a, .integer b] = some (.ok (.value (.integer r)))
  multiple : compute? .mul [.integer q, .integer b] = some (.ok (.value (.integer m)))
  dividend : compute? .add [.integer m, .integer r] = some (.ok (.value (.integer a)))
  smaller : r.toInt.natAbs < b.toInt.natAbs
  signed : r = 0 ∨ r.toInt.sign = a.toInt.sign

theorem exists_reconstructs {a b : Int64} (hb : b ≠ 0) (hmin : ¬(a = Int64.minValue ∧ b = -1)) :
    ∃ q r m, Reconstructs a b q r m := by
  have ha := fits_toInt a
  have hzero := toInt_ne_zero hb
  rw [eq_min_and_iff] at hmin
  obtain ⟨q, hq⟩ := exists_toInt_eq ((fits_tdiv_iff ha hzero).mpr hmin)
  obtain ⟨m, hm⟩ := exists_toInt_eq (fits_tdiv_mul_self ha b.toInt)
  have hr := Int64.toInt_mod a b
  have hsum : a.toInt = m.toInt + (a % b).toInt := by
    rw [hm, hr, Int.tdiv_mul_add_tmod]
  obtain ⟨hsmaller, hsign⟩ := tmod_bounds a.toInt hzero
  rw [← hr] at hsmaller hsign
  refine ⟨q, a % b, m, ?_, ?_, ?_, ?_, hsmaller, hsign.imp_left Int64.toInt_inj.mp⟩
  · exact compute?_of_exact (compute?_div hb) (exact_div? hb a) hq
  · exact compute?_of_exact (compute?_mod hb) (exact_mod? hb a) hr
  · exact compute?_of_exact rfl (exact_mul? q b) (by rw [hq, hm])
  · exact compute?_of_exact rfl (exact_add? m (a % b)) hsum

end Procedure

/-! ## Nested calls -/

theorem Procedure.ofName?_name (p : Procedure) : ofName? p.name = some p := by
  cases p <;> rfl

namespace Evaluator

open Evaluation

variable {settings : Settings} {limit : Nat} {env : FrameId} {store : Store}

/-- With a given store an expression has a value in a frame, and the store stays as it
is. -/
def Yields (settings : Settings) (limit : Nat) (env : FrameId) (store : Store) (e v : Node) :
    Prop :=
  ∀ s : State, s.store = store →
    ∃ t : State, (rules settings).perform limit (.eval e env) s = (.ok v, t) ∧ t.store = store

theorem yields_integer (n : Int64) :
    Yields settings (limit + 1) env store (.integer n) (.integer n) := by
  intro s hs
  rw [perform_succ]
  exact ⟨_, rfl, (store_announce ..).trans hs⟩

theorem read_bind {β γ : Type} (g : State → β) (f : β → Evaluation γ) (s : State) :
    (Evaluation.read g >>= f) s = f (g s) s :=
  rfl

theorem identifier_of_get? {x name : Text} {i : Label} {wired : Bool} {s : State}
    (h : s.store.get? env x = some (.procedure i name wired)) :
    identifier x env s = .done (.ok (.procedure i name wired)) s := by
  simp only [identifier, read_bind, h]
  rfl

theorem yields_procedure {i : Label} {x name : Text} {wired : Bool}
    (h : store.get? env x = some (.procedure i name wired)) :
    Yields settings (limit + 1) env store (.identifier x) (.procedure i name wired) := by
  rintro s rfl
  have hstore := store_announce settings (.eval (.identifier x) env) s
  rw [← hstore] at h
  refine ⟨announce settings (.eval (.identifier x) env) s, ?_, hstore⟩
  rw [perform_succ, carryOut, evaluate, identifier_of_get? h]
  rfl

theorem answer_request_bind
    {β : Type} (oracle : Request → State → Except Fault Node × State) (r : Request)
    (f : Node → Evaluation β) (s : State) :
    ((request r >>= f) s).answer oracle =
      Computation.onward (fun v t => (f v t).answer oracle) (oracle r s) :=
  answer_bind oracle (request r) f s

theorem applyFrom_of_value
    {p : Procedure} {args : List Node} {w : Node} (hw : p.compute? args = some (.ok (.value w)))
    (settings : Settings) (i : Label) (wired : Bool) (caller : FrameId) :
    applyFrom settings (.procedure i p.name wired) args caller = withCaller caller (pure w) := by
  unfold applyFrom
  rw [← callProcedure_of_value hw settings wired]
  simp only [Procedure.ofName?_name]

/-- A call of a procedure has the answer for the values of its operands as its value. -/
theorem yields_call {p : Procedure} {i j : Label} {wired : Bool} {e e' v v' w : Node}
    (hp : store.get? env p.name = some (.procedure j p.name wired))
    (he : Yields settings (limit + 1) env store e v)
    (he' : Yields settings (limit + 1) env store e' v')
    (hw : p.compute? [v, v'] = some (.ok (.value w))) :
    Yields settings (limit + 2) env store (.apply i (.identifier p.name) [e, e']) w := by
  intro s hs
  rw [← store_announce settings (.eval (.apply i (.identifier p.name) [e, e']) env)] at hs
  obtain ⟨t, ht, hstore⟩ := yields_procedure hp _ hs
  obtain ⟨t₁, ht₁, hstore⟩ := he t hstore
  obtain ⟨t₂, ht₂, hstore⟩ := he' t₁ hstore
  refine ⟨t₂, ?_, hstore⟩
  rw [perform_succ, carryOut, evaluate, answer_request_bind, ht, Computation.onward, answer_bind,
    operands, answer_request_bind, ht₁, Computation.onward, operands, answer_request_bind, ht₂,
    Computation.onward, operands]
  change (applyFrom settings (.procedure j p.name wired) [v, v'] env t₂).answer _ = _
  rw [applyFrom_of_value hw]
  rfl

end Evaluator

/-- A name means its procedure of the library in a frame. -/
def Store.Means (store : Store) (env : FrameId) (p : Procedure) : Prop :=
  ∃ (i : Label) (wired : Bool), store.get? env p.name = some (.procedure i p.name wired)

/-- The sum of the remainder and the multiple of the divisor that the quotient stands
for. -/
def reconstruction (a b : Int64) : Source :=
  .apply () (.identifier Procedure.add.name)
    [.apply () (.identifier Procedure.mul.name)
      [.apply () (.identifier Procedure.div.name) [.integer a, .integer b], .integer b],
     .apply () (.identifier Procedure.mod.name) [.integer a, .integer b]]

open Evaluator in
theorem Procedure.Reconstructs.yields
    {a b q r m : Int64} (h : Reconstructs a b q r m) {store : Store} {env : FrameId}
    (hnames : ∀ p ∈ [add, mul, div, mod], store.Means env p) (settings : Settings)
    (limit : Nat) (next : Label) :
    Yields settings (limit + 4) env store ((reconstruction a b).labelled next).1
      (.integer a) := by
  simp only [List.forall_mem_cons, List.not_mem_nil, false_implies, implies_true, and_true]
    at hnames
  obtain ⟨⟨_, _, hadd⟩, ⟨_, _, hmul⟩, ⟨_, _, hdiv⟩, ⟨_, _, hmod⟩⟩ := hnames
  have hquotient (i : Label) : Yields settings (limit + 2) env store
      (.apply i (.identifier Procedure.div.name) [.integer a, .integer b]) (.integer q) :=
    yields_call hdiv (yields_integer a) (yields_integer b) h.quotient
  have hremainder (i : Label) : Yields settings (limit + 3) env store
      (.apply i (.identifier Procedure.mod.name) [.integer a, .integer b]) (.integer r) :=
    yields_call hmod (yields_integer a) (yields_integer b) h.remainder
  exact yields_call hadd (yields_call hmul (hquotient _) (yields_integer b) h.multiple)
    (hremainder _) h.dividend

open Procedure in
/-- Unless the quotient is no word, the procedures give quotient and remainder of a
division, the remainder is smaller than the divisor and has the sign of the dividend,
and multiplying and adding gives the dividend back; none of the calls fails, nor does
the program that nests them. The remainder is there even where the quotient is no
word. -/
theorem dividend_reconstructed (settings : Settings) (env : FrameId) (s : State) :
    let call p (a b : Int64) := Library.call settings p [.integer a, .integer b] env s
    (∀ a b : Int64, b ≠ 0 → ¬(a = Int64.minValue ∧ b = -1) →
      (∃ q r m : Int64,
        call .div a b = (.ok (.integer q), s) ∧ call .mod a b = (.ok (.integer r), s) ∧
        call .mul q b = (.ok (.integer m), s) ∧ call .add m r = (.ok (.integer a), s) ∧
        r.toInt.natAbs < b.toInt.natAbs ∧ (r = 0 ∨ r.toInt.sign = a.toInt.sign)) ∧
      (s.depth + 4 ≤ settings.limit → (∀ p ∈ [add, mul, div, mod], s.store.Means env p) →
        ∀ next, (Evaluator.eval settings ((reconstruction a b).labelled next).1 env s).1 =
          .ok (.integer a))) ∧
    call .mod Int64.minValue (-1) = (.ok (.integer 0), s) := by
  intro call
  refine ⟨fun a b hb hmin => ?_, Library.call_of_value settings env s rfl⟩
  obtain ⟨q, r, m, h⟩ := exists_reconstructs hb hmin
  constructor
  · exact ⟨q, r, m, Library.call_of_value settings env s h.quotient,
      Library.call_of_value settings env s h.remainder,
      Library.call_of_value settings env s h.multiple,
      Library.call_of_value settings env s h.dividend, h.smaller, h.signed⟩
  · intro hlimit hnames next
    obtain ⟨limit, hlevels⟩ : ∃ limit, settings.limit - s.depth = limit + 4 :=
      Nat.exists_eq_add_of_le' (by omega)
    obtain ⟨t, ht, -⟩ := h.yields hnames settings limit next s rfl
    rw [Evaluator.eval_eq_perform, hlevels, ht]

/-- Every procedure can be called by its name in a new session. -/
theorem Session.means_start (settings : Settings) (input : Input) (p : Procedure) :
    (start settings input).state.store.Means (start settings input).frame p := by
  have hlibrary : (start settings input).state.store.nearest? (·.get? p.name) 0 =
      some (0, .procedure (Procedure.all.idxOf p) p.name true) :=
    Store.nearest?_of_find rfl (by cases p <;> rfl)
  refine ⟨Procedure.all.idxOf p, true, ?_⟩
  change ((start settings input).state.store.nearest? (·.get? p.name) 1).map (·.2) = _
  rw [Store.nearest?]
  change ((start settings input).state.store.nearest? (·.get? p.name) 0).map (·.2) = _
  rw [hlibrary]
  rfl

/-- The least word divided by three leaves a remainder with its sign. -/
theorem least_word_by_three_reconstructed :
    let s := (Session.start dynamicSettings ⟨[], none⟩).state
    let call p (a b : Int64) := Library.call dynamicSettings p [.integer a, .integer b] 1 s
    (3 : Int64) ≠ 0 ∧ ¬(Int64.minValue = Int64.minValue ∧ (3 : Int64) = -1) ∧
      (∃ q r m : Int64,
        call .div Int64.minValue 3 = (.ok (.integer q), s) ∧
        call .mod Int64.minValue 3 = (.ok (.integer r), s) ∧
        call .mul q 3 = (.ok (.integer m), s) ∧
        call .add m r = (.ok (.integer Int64.minValue), s) ∧ r.toInt.natAbs < 3 ∧
        (r = 0 ∨ r.toInt.sign = -1)) ∧
      (Evaluator.eval dynamicSettings ((reconstruction Int64.minValue 3).labelled 0).1 1 s).1 =
        .ok (.integer Int64.minValue) := by
  intro s call
  obtain ⟨hall, -⟩ := dividend_reconstructed dynamicSettings 1 s
  obtain ⟨hcalls, hprogram⟩ := hall Int64.minValue 3 (by decide) (by decide)
  have hnames := Session.means_start dynamicSettings ⟨[], none⟩
  exact ⟨by decide, by decide, hcalls, hprogram (by decide) (fun p _ => hnames p) 0⟩

end BlockLang
