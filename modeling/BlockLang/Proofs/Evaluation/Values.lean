import BlockLang.Procedure.Compute
import BlockLang.Proofs.Evaluation.Vocabulary

/-!
# Values

The expressions that can be the result of an evaluation. The placeholder is none
of them. A list is written nowhere in a program, so every list is made by a
procedure from values, and taking lists apart leads to values again.
-/

namespace BlockLang

/-- What the evaluation of expressions within a vocabulary results in: an atom, a
procedure or a lambda of the vocabulary, or a list of such values. -/
inductive IsValueOf (p : Head → Bool) : Node → Prop where
  | integer (n : Int64) : IsValueOf p (.integer n)
  | string (s : Text) : IsValueOf p (.string s)
  | boolean (b : Bool) : IsValueOf p (.boolean b)
  | procedure (i : Label) {name : Text} {wired : Bool} (h : p (.procedure name wired)) :
      IsValueOf p (.procedure i name wired)
  | lambda (i : Label) (xs : List Text) {body : List Node} (h : Expr.withinAll p body) :
      IsValueOf p (.lambda i xs body)
  | list (i : Label) {elements : List Node} (h : ∀ v ∈ elements, IsValueOf p v) :
      IsValueOf p (.list i elements)

variable {p : Head → Bool}

/-- What an evaluation of a program without lists results in. -/
abbrev IsValue : Node → Prop :=
  IsValueOf Head.notList

/-- Whether an expression evaluates to itself. -/
def Expr.isLiteral : Node → Bool
  | .integer _ | .string _ | .boolean _ | .lambda .. | .procedure .. | .list .. => true
  | _ => false

theorem isValueOf_of_isLiteral
    {e : Node} (hlist : p .list = false) (h : e.isLiteral) (hin : e.within p) :
    IsValueOf p e := by
  cases e
  case lambda i xs body =>
    rw [Expr.within, Bool.and_eq_true] at hin
    exact .lambda i xs hin.2
  case procedure i name wired => exact .procedure i hin
  case list i elements => simp [Expr.within, hlist] at hin
  case integer | string | boolean => constructor
  all_goals cases h

theorem IsValueOf.isPlaceholder_eq_false
    {v : Node} (h : IsValueOf p v) :
    v.isPlaceholder = false := by
  cases h <;> rfl

/-- A property that atoms have and that lists pass on to their elements. -/
structure Hereditary (V : Node → Prop) : Prop where
  integer : ∀ n, V (.integer n)
  string : ∀ s, V (.string s)
  boolean : ∀ b, V (.boolean b)
  elements : ∀ {i elements}, V (.list i elements) → ∀ v ∈ elements, V v

theorem hereditary_true :
    Hereditary fun _ => True :=
  ⟨fun _ => trivial, fun _ => trivial, fun _ => trivial, fun _ _ _ => trivial⟩

theorem hereditary_isValueOf :
    Hereditary (IsValueOf p) := by
  refine ⟨.integer, .string, .boolean, ?_⟩
  intro i elements h
  cases h with
  | list i h => exact h

/-- An answer whose values have a property. -/
def Answer.Holds (V : Node → Prop) : Answer → Prop
  | .value v => V v
  | .newList elements => ∀ v ∈ elements, V v

/-! ## Procedures turn values into values -/

/-- Whether a fault lies with the arguments of a procedure. -/
def Fault.ofArguments : Fault → Bool
  | arity .. | arityAtLeast .. | argumentType .. | overflow .. | divisionByZero _ | emptyList _
  | indexOutOfBounds .. | invalidSubstring .. | notOneCharacter _ | failed _ => true
  | _ => false

/-- Whether a fault stands for a panic of the evaluator. -/
def Fault.isPanic : Fault → Bool
  | noCaller => true
  | _ => false

theorem Fault.not_panic_of_ofArguments
    {f : Fault} (h : f.ofArguments) : f.isPanic = false := by
  cases f <;> first | rfl | cases h

namespace Procedure

/-- A computation from arguments has a result with a property or blames the
arguments. -/
structure Gives {α : Type} (P : α → Prop) (x : Except Fault α) : Prop where
  value : ∀ a, x = .ok a → P a
  fault : ∀ f, x = .error f → f.ofArguments

section Gives

variable {α β : Type} {P : α → Prop} {Q : β → Prop}

theorem gives_pure
    {a : α} (h : P a) :
    Gives P (pure a) := by
  refine ⟨?_, nofun⟩
  rintro _ ⟨⟩
  exact h

theorem gives_throw
    {f : Fault} (h : f.ofArguments) :
    Gives P (throw f) := by
  refine ⟨nofun, ?_⟩
  rintro _ ⟨⟩
  exact h

theorem gives_bind
    {x : Except Fault β} {f : β → Except Fault α} (hx : Gives Q x)
    (hf : ∀ b, Q b → Gives P (f b)) :
    Gives P (x >>= f) := by
  cases x with
  | error e => exact gives_throw (hx.fault e rfl)
  | ok b => exact hf b (hx.value b rfl)

theorem gives_mapM
    {f : β → Except Fault α} (hf : ∀ b, Gives (fun _ => True) (f b)) (bs : List β) :
    Gives (fun _ => True) (bs.mapM f) := by
  induction bs with
  | nil => exact gives_pure trivial
  | cons b bs ih =>
      rw [List.mapM_cons]
      refine gives_bind (hf b) fun _ _ => gives_bind ih fun _ _ => ?_
      exact gives_pure trivial

end Gives

section Arguments

variable {V : Node → Prop} (p : Procedure) (args : List Node)

theorem eq_ofFn_of_exactly
    {p : Procedure} {args : List Node} {want : Nat} {arg : Fin want → Node}
    (h : exactly p args want = .ok arg) :
    args = List.ofFn arg := by
  unfold exactly at h
  split at h
  · rename_i hlength
    cases h
    exact List.ext_getElem (by simp [hlength]) (by simp)
  · cases h

theorem gives_exactly
    (h : ∀ v ∈ args, V v) (want : Nat) :
    Gives (fun arg => ∀ i, V (arg i)) (exactly p args want) := by
  unfold exactly
  split
  · exact gives_pure fun i => h _ (List.get_mem ..)
  · exact gives_throw rfl

theorem gives_atLeast
    (want : Nat) :
    Gives (fun _ => True) (atLeast p args want) := by
  unfold atLeast
  split
  · exact gives_pure trivial
  · exact gives_throw rfl

theorem gives_integerArgument
    (v : Node) :
    Gives (fun _ => True) (integerArgument p v) := by
  cases v
  case integer => exact gives_pure trivial
  all_goals exact gives_throw rfl

theorem gives_booleanArgument
    (v : Node) :
    Gives (fun _ => True) (booleanArgument p v) := by
  cases v
  case boolean => exact gives_pure trivial
  all_goals exact gives_throw rfl

theorem gives_stringArgument
    (v : Node) :
    Gives (fun _ => True) (stringArgument p v) := by
  cases v
  case string => exact gives_pure trivial
  all_goals exact gives_throw rfl

theorem gives_listArgument
    {v : Node} (hV : Hereditary V) (hv : V v) :
    Gives (fun elements => ∀ e ∈ elements, V e) (listArgument p v) := by
  cases v
  case list => exact gives_pure (hV.elements hv)
  all_goals exact gives_throw rfl

theorem gives_functionArgument
    {v : Node} (hv : V v) :
    Gives V (functionArgument p v) := by
  cases v
  case procedure | lambda => exact gives_pure hv
  all_goals exact gives_throw rfl

theorem gives_oneString :
    Gives (fun _ => True) (oneString p args) := by
  refine gives_bind (gives_exactly p args (fun _ _ => trivial) 1) fun _ _ => ?_
  exact gives_stringArgument p _

theorem gives_functionAndList
    (hV : Hereditary V) (h : ∀ v ∈ args, V v) :
    Gives (fun x => V x.1 ∧ ∀ v ∈ x.2, V v) (functionAndList p args) := by
  refine gives_bind (gives_exactly p args h 2) fun arg harg => ?_
  refine gives_bind (gives_functionArgument p (harg 0)) fun f hf => ?_
  exact gives_bind (gives_listArgument p hV (harg 1)) fun _ hvs => gives_pure ⟨hf, hvs⟩

theorem eq_of_functionAndList
    {p : Procedure} {args : List Node} {f : Node} {elements : List Node}
    (h : functionAndList p args = .ok (f, elements)) :
    ∃ i, args = [f, .list i elements] := by
  unfold functionAndList at h
  cases hexactly : exactly p args 2 with
  | error e =>
      rw [hexactly] at h
      cases h
  | ok arg =>
      have hargs : args = [arg 0, arg 1] := eq_ofFn_of_exactly hexactly
      rw [hexactly] at h
      replace h : (do return (← functionArgument p (arg 0), ← listArgument p (arg 1))) =
        Except.ok (f, elements) := h
      generalize arg 0 = f' at h hargs
      generalize arg 1 = list at h hargs
      cases f'
      case procedure | lambda =>
        cases list
        case list i elements' =>
          cases h
          exact ⟨i, hargs⟩
        all_goals cases h
      all_goals cases h

theorem gives_twoIntegers :
    Gives (fun _ => True) (twoIntegers p args) := by
  refine gives_bind (gives_exactly p args (fun _ _ => trivial) 2) fun _ _ => ?_
  refine gives_bind (gives_integerArgument p _) fun _ _ => ?_
  exact gives_bind (gives_integerArgument p _) fun _ _ => gives_pure trivial

theorem gives_oneCharacter :
    Gives (fun _ => True) (oneCharacter p args) := by
  refine gives_bind (gives_oneString p args) fun _ _ => ?_
  split
  · exact gives_pure trivial
  · exact gives_throw rfl

theorem gives_characterAt
    (s : Text) (index : Int64) :
    Gives (fun _ => True) (characterAt s index) := by
  unfold characterAt
  dsimp only
  split
  · exact gives_throw rfl
  · exact gives_pure trivial

theorem gives_slice
    (s : Text) (first last : Int64) :
    Gives (fun _ => True) (slice s first last) := by
  unfold slice
  dsimp only
  split
  · exact gives_throw rfl
  · exact gives_pure trivial

theorem gives_checked
    (hV : Hereditary V) (op : Int64 → Int64 → Option Int64) :
    Gives (Answer.Holds V) (checked p op args) := by
  refine gives_bind (gives_twoIntegers p args) fun ab _ => ?_
  dsimp only
  split
  · exact gives_pure (hV.integer _)
  · exact gives_throw rfl

theorem gives_divided
    (hV : Hereditary V) (op : Int64 → Int64 → Option Int64) :
    Gives (Answer.Holds V) (divided p op args) := by
  refine gives_bind (gives_twoIntegers p args) fun ab _ => ?_
  dsimp only
  split
  · exact gives_throw rfl
  · split
    · exact gives_pure (hV.integer _)
    · exact gives_throw rfl

theorem gives_compared
    (hV : Hereditary V) (op : Int64 → Int64 → Bool) :
    Gives (Answer.Holds V) (compared p op args) :=
  gives_bind (gives_twoIntegers p args) fun _ _ => gives_pure (hV.boolean _)

/-- What arguments have and atoms have, the answer of a procedure that computes has too. -/
theorem gives_compute
    {p : Procedure} {args : List Node} {x : Except Fault Answer} (hV : Hereditary V)
    (hargs : ∀ v ∈ args, V v) (hx : p.compute? args = some x) :
    Gives (Answer.Holds V) x := by
  cases p <;> simp only [compute?, Option.some.injEq, reduceCtorEq] at hx <;> subst hx
  case add | sub | mul => exact gives_checked _ _ hV _
  case div | mod => exact gives_divided _ _ hV _
  case greaterThan | lessThan => exact gives_compared _ _ hV _
  case cons =>
    split
    · exact gives_pure (fun _ hv => absurd hv List.not_mem_nil)
    · refine gives_bind (gives_exactly _ _ hargs 2) fun arg harg => ?_
      refine gives_bind (gives_listArgument _ hV (harg 1)) fun elements hvs => ?_
      exact gives_pure (List.forall_mem_cons.mpr ⟨harg 0, hvs⟩)
  case head =>
    refine gives_bind (gives_exactly _ _ hargs 1) fun arg harg => ?_
    refine gives_bind (gives_listArgument _ hV (harg 0)) fun elements hvs => ?_
    split
    · exact gives_throw rfl
    · exact gives_pure (hvs _ List.mem_cons_self)
  case tail =>
    refine gives_bind (gives_exactly _ _ hargs 1) fun arg harg => ?_
    refine gives_bind (gives_listArgument _ hV (harg 0)) fun elements hvs => ?_
    split
    · exact gives_throw rfl
    · exact gives_pure (fun v hv => hvs v (List.mem_cons_of_mem _ hv))
  case reverse =>
    refine gives_bind (gives_exactly _ _ hargs 1) fun arg harg => ?_
    refine gives_bind (gives_listArgument _ hV (harg 0)) fun elements hvs => ?_
    exact gives_pure fun v hv => hvs v (List.mem_reverse.mp hv)
  case append =>
    refine gives_bind (gives_exactly _ _ hargs 2) fun arg harg => ?_
    refine gives_bind (gives_listArgument _ hV (harg 0)) fun fronts hfront => ?_
    refine gives_bind (gives_listArgument _ hV (harg 1)) fun backs hback => ?_
    exact gives_pure fun v hv => (List.mem_append.mp hv).elim (hfront v) (hback v)
  case isEmpty =>
    refine gives_bind (gives_exactly _ _ hargs 1) fun arg harg => ?_
    exact gives_bind (gives_listArgument _ hV (harg 0)) fun _ _ => gives_pure (hV.boolean _)
  case equals => exact gives_bind (gives_exactly _ _ hargs 2) fun _ _ => gives_pure (hV.boolean _)
  case type => exact gives_bind (gives_exactly _ _ hargs 1) fun _ _ => gives_pure (hV.string _)
  case zero =>
    refine gives_bind (gives_exactly _ _ hargs 1) fun _ _ => ?_
    exact gives_bind (gives_integerArgument _ _) fun _ _ => gives_pure (hV.boolean _)
  case not =>
    refine gives_bind (gives_exactly _ _ hargs 1) fun _ _ => ?_
    exact gives_bind (gives_booleanArgument _ _) fun _ _ => gives_pure (hV.boolean _)
  case or | and =>
    refine gives_bind (gives_atLeast _ _ _) fun _ _ => ?_
    exact gives_bind (gives_mapM (gives_booleanArgument _) _) fun _ _ => gives_pure (hV.boolean _)
  case fail =>
    split
    · exact gives_throw rfl
    · exact gives_throw rfl
  case concat =>
    refine gives_bind (gives_atLeast _ _ _) fun _ _ => ?_
    exact gives_bind (gives_mapM (gives_stringArgument _) _) fun _ _ => gives_pure (hV.string _)
  case charAt =>
    refine gives_bind (gives_exactly _ _ hargs 2) fun _ _ => ?_
    refine gives_bind (gives_stringArgument _ _) fun _ _ => ?_
    refine gives_bind (gives_integerArgument _ _) fun _ _ => ?_
    exact gives_bind (gives_characterAt _ _) fun _ _ => gives_pure (hV.string _)
  case substring =>
    refine gives_bind (gives_exactly _ _ hargs 3) fun _ _ => ?_
    refine gives_bind (gives_stringArgument _ _) fun _ _ => ?_
    refine gives_bind (gives_integerArgument _ _) fun _ _ => ?_
    refine gives_bind (gives_integerArgument _ _) fun _ _ => ?_
    exact gives_bind (gives_slice _ _ _) fun _ _ => gives_pure (hV.string _)
  case length => exact gives_bind (gives_oneString _ _) fun _ _ => gives_pure (hV.integer _)
  case isDigit | isLetter =>
    exact gives_bind (gives_oneCharacter _ _) fun _ _ => gives_pure (hV.boolean _)
  case parseInt =>
    refine gives_bind (gives_oneString _ _) fun _ _ => ?_
    split
    · exact gives_pure (hV.integer _)
    · exact gives_pure (hV.boolean _)

end Arguments

end Procedure

end BlockLang
