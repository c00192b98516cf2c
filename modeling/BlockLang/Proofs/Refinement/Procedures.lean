import BlockLang.Proofs.Refinement.Alike

/-!
# Procedures and like arguments

A procedure that computes an answer from its arguments computes like answers from
like arguments. Arguments are told apart by their form and by what the atoms in
them hold; labels matter to the comparison of values only.
-/

namespace BlockLang

/-- Answers that are alike. -/
def Answer.Alike (R : Pairing) : Answer → Answer → Prop
  | .value v, .value w => BlockLang.Alike R v w
  | .newList vs, .newList ws => List.Forall₂ (BlockLang.Alike R) vs ws
  | _, _ => False

namespace Procedure

/-- If the first computation succeeds, so does the second one, with a related
result. -/
def Agrees {α β : Type} (V : α → β → Prop) (x : Except Fault α) (y : Except Fault β) : Prop :=
  ∀ a, x = .ok a → ∃ b, y = .ok b ∧ V a b

section Agrees

variable {α α' β β' : Type} {V : α → α' → Prop} {W : β → β' → Prop}

theorem agrees_pure
    {a : α} {a' : α'} (h : V a a') :
    Agrees V (pure a) (pure a') := by
  rintro _ ⟨⟩
  exact ⟨a', rfl, h⟩

theorem agrees_throw
    {f : Fault} {y : Except Fault α'} :
    Agrees V (throw f) y :=
  nofun

theorem agrees_bind
    {x : Except Fault β} {y : Except Fault β'} {f : β → Except Fault α}
    {g : β' → Except Fault α'} (hx : Agrees W x y)
    (hf : ∀ b b', W b b' → Agrees V (f b) (g b')) :
    Agrees V (x >>= f) (y >>= g) := by
  cases x with
  | error e => exact agrees_throw
  | ok b =>
      obtain ⟨b', rfl, hb⟩ := hx b rfl
      exact hf b b' hb

theorem agrees_of_eq
    {x : Except Fault α} :
    Agrees Eq x x :=
  fun a ha => ⟨a, ha, rfl⟩

end Agrees

section Arguments

variable {R : Pairing} (p : Procedure) {v v' : Node} {args args' : List Node}

theorem agrees_integerArgument
    (h : Alike R v v') :
    Agrees Eq (integerArgument p v) (integerArgument p v') := by
  cases v
  case integer n =>
    cases h
    exact agrees_pure rfl
  all_goals exact agrees_throw

theorem agrees_booleanArgument
    (h : Alike R v v') :
    Agrees Eq (booleanArgument p v) (booleanArgument p v') := by
  cases v
  case boolean b =>
    cases h
    exact agrees_pure rfl
  all_goals exact agrees_throw

theorem agrees_stringArgument
    (h : Alike R v v') :
    Agrees Eq (stringArgument p v) (stringArgument p v') := by
  cases v
  case string s =>
    cases h
    exact agrees_pure rfl
  all_goals exact agrees_throw

theorem agrees_listArgument
    (h : Alike R v v') :
    Agrees (List.Forall₂ (Alike R)) (listArgument p v) (listArgument p v') := by
  cases v
  case list i elements =>
    obtain ⟨j, elements', -, helements, rfl⟩ := h
    exact agrees_pure (alikeAll_iff.mp helements)
  all_goals exact agrees_throw

theorem agrees_exactly
    (h : List.Forall₂ (Alike R) args args') (want : Nat) :
    Agrees (fun arg arg' => ∀ i, Alike R (arg i) (arg' i)) (exactly p args want)
      (exactly p args' want) := by
  unfold exactly
  split
  · rename_i hlength
    rw [dif_pos (h.length_eq ▸ hlength)]
    exact agrees_pure fun i => h.get _ _
  · exact agrees_throw

theorem agrees_functionArgument
    (h : Alike R v v') :
    Agrees (Alike R) (functionArgument p v) (functionArgument p v') := by
  cases v
  case procedure i name wired =>
    obtain ⟨j, hij, rfl⟩ := h
    exact agrees_pure ⟨j, hij, rfl⟩
  case lambda i xs body =>
    obtain ⟨j, body', hij, hbody, rfl⟩ := h
    exact agrees_pure ⟨j, body', hij, hbody, rfl⟩
  all_goals exact agrees_throw

theorem agrees_oneString
    (h : List.Forall₂ (Alike R) args args') :
    Agrees Eq (oneString p args) (oneString p args') := by
  refine agrees_bind (agrees_exactly p h 1) fun arg arg' harg => ?_
  exact agrees_stringArgument p (harg 0)

theorem agrees_functionAndList
    (h : List.Forall₂ (Alike R) args args') :
    Agrees (fun x x' => Alike R x.1 x'.1 ∧ List.Forall₂ (Alike R) x.2 x'.2)
      (functionAndList p args) (functionAndList p args') := by
  refine agrees_bind (agrees_exactly p h 2) fun arg arg' harg => ?_
  refine agrees_bind (agrees_functionArgument p (harg 0)) fun f f' hf => ?_
  refine agrees_bind (agrees_listArgument p (harg 1)) fun elements elements' helements => ?_
  exact agrees_pure ⟨hf, helements⟩

theorem agrees_mapM
    {α : Type} {f : Node → Except Fault α}
    (hf : ∀ {v v'}, Alike R v v' → Agrees Eq (f v) (f v'))
    (h : List.Forall₂ (Alike R) args args') :
    Agrees Eq (args.mapM f) (args'.mapM f) := by
  induction h with
  | nil => exact agrees_of_eq
  | cons hv _ ih =>
      rw [List.mapM_cons, List.mapM_cons]
      refine agrees_bind (hf hv) fun a _ ha => agrees_bind ih fun as _ has => ?_
      subst ha has
      exact agrees_of_eq

theorem agrees_atLeast
    (h : List.Forall₂ (Alike R) args args') (want : Nat) :
    Agrees Eq (atLeast p args want) (atLeast p args' want) := by
  rw [atLeast, atLeast, h.length_eq]
  exact agrees_of_eq

theorem agrees_twoIntegers
    (h : List.Forall₂ (Alike R) args args') :
    Agrees Eq (twoIntegers p args) (twoIntegers p args') := by
  refine agrees_bind (agrees_exactly p h 2) fun arg arg' harg => ?_
  refine agrees_bind (agrees_integerArgument p (harg 0)) fun m _ hm => ?_
  refine agrees_bind (agrees_integerArgument p (harg 1)) fun n _ hn => ?_
  subst hm hn
  exact agrees_of_eq

theorem agrees_oneCharacter
    (h : List.Forall₂ (Alike R) args args') :
    Agrees Eq (oneCharacter p args) (oneCharacter p args') := by
  refine agrees_bind (agrees_oneString p h) fun s _ hs => ?_
  subst hs
  exact agrees_of_eq

/-- A computation whose answer is made of what atoms hold. -/
theorem agrees_bind_eq
    {α : Type} {x y : Except Fault α} {f : α → Except Fault Answer} (hx : Agrees Eq x y)
    (hf : ∀ a, Agrees (Answer.Alike R) (f a) (f a)) :
    Agrees (Answer.Alike R) (x >>= f) (y >>= f) := by
  refine agrees_bind hx fun a _ ha => ?_
  subst ha
  exact hf a

theorem agrees_checked
    (op : Int64 → Int64 → Option Int64) (h : List.Forall₂ (Alike R) args args') :
    Agrees (Answer.Alike R) (checked p op args) (checked p op args') := by
  refine agrees_bind_eq (agrees_twoIntegers p h) fun ⟨a, b⟩ => ?_
  dsimp only
  split
  · exact agrees_pure rfl
  · exact agrees_throw

theorem agrees_divided
    (op : Int64 → Int64 → Option Int64) (h : List.Forall₂ (Alike R) args args') :
    Agrees (Answer.Alike R) (divided p op args) (divided p op args') := by
  refine agrees_bind_eq (agrees_twoIntegers p h) fun ⟨a, b⟩ => ?_
  dsimp only
  split
  · exact agrees_throw
  · split
    · exact agrees_pure rfl
    · exact agrees_throw

theorem agrees_compared
    (op : Int64 → Int64 → Bool) (h : List.Forall₂ (Alike R) args args') :
    Agrees (Answer.Alike R) (compared p op args) (compared p op args') :=
  agrees_bind_eq (agrees_twoIntegers p h) fun _ => agrees_pure rfl

end Arguments

/-- A procedure that computes answers like arguments with like values. -/
theorem agrees_compute
    {R : Pairing} {p : Procedure} {args args' : List Node} {x : Except Fault Answer}
    (hR : R.Unique) (h : List.Forall₂ (Alike R) args args') (hx : p.compute? args = some x) :
    ∃ y, p.compute? args' = some y ∧ Agrees (Answer.Alike R) x y := by
  cases p <;> simp only [compute?, Option.some.injEq, reduceCtorEq] at hx <;> subst hx <;>
    refine ⟨_, rfl, ?_⟩
  case add | sub | mul => exact agrees_checked _ _ h
  case div | mod => exact agrees_divided _ _ h
  case greaterThan | lessThan => exact agrees_compared _ _ h
  case equals =>
    refine agrees_bind (agrees_exactly _ h 2) fun arg arg' harg => ?_
    rw [← same_eq hR (harg 0) (harg 1)]
    exact agrees_pure rfl
  case zero =>
    refine agrees_bind (agrees_exactly _ h 1) fun arg arg' harg => ?_
    exact agrees_bind_eq (agrees_integerArgument _ (harg 0)) fun _ => agrees_pure rfl
  case not =>
    refine agrees_bind (agrees_exactly _ h 1) fun arg arg' harg => ?_
    exact agrees_bind_eq (agrees_booleanArgument _ (harg 0)) fun _ => agrees_pure rfl
  case or | and =>
    refine agrees_bind (agrees_atLeast _ h 2) fun _ _ _ => ?_
    exact agrees_bind_eq (agrees_mapM (agrees_booleanArgument _) h) fun _ => agrees_pure rfl
  case fail =>
    split
    · exact agrees_throw
    · exact agrees_throw
  case concat =>
    refine agrees_bind (agrees_atLeast _ h 2) fun _ _ _ => ?_
    exact agrees_bind_eq (agrees_mapM (agrees_stringArgument _) h) fun _ => agrees_pure rfl
  case charAt =>
    refine agrees_bind (agrees_exactly _ h 2) fun arg arg' harg => ?_
    refine agrees_bind (agrees_stringArgument _ (harg 0)) fun s _ hs => ?_
    subst hs
    refine agrees_bind_eq (agrees_integerArgument _ (harg 1)) fun index => ?_
    exact agrees_bind_eq agrees_of_eq fun _ => agrees_pure rfl
  case substring =>
    refine agrees_bind (agrees_exactly _ h 3) fun arg arg' harg => ?_
    refine agrees_bind (agrees_stringArgument _ (harg 0)) fun s _ hs => ?_
    refine agrees_bind (agrees_integerArgument _ (harg 1)) fun first _ hfirst => ?_
    subst hs hfirst
    refine agrees_bind_eq (agrees_integerArgument _ (harg 2)) fun last => ?_
    exact agrees_bind_eq agrees_of_eq fun _ => agrees_pure rfl
  case length => exact agrees_bind_eq (agrees_oneString _ h) fun _ => agrees_pure rfl
  case isDigit | isLetter =>
    exact agrees_bind_eq (agrees_oneCharacter _ h) fun _ => agrees_pure rfl
  case parseInt =>
    refine agrees_bind_eq (agrees_oneString _ h) fun s => ?_
    split
    · exact agrees_pure rfl
    · exact agrees_pure rfl
  case cons =>
    cases h with
    | nil => exact agrees_pure .nil
    | cons hv hvs =>
        refine agrees_bind (agrees_exactly _ (.cons hv hvs) 2) fun arg arg' harg => ?_
        refine agrees_bind (agrees_listArgument _ (harg 1)) fun elements elements' helements => ?_
        exact agrees_pure (.cons (harg 0) helements)
  case head =>
    refine agrees_bind (agrees_exactly _ h 1) fun arg arg' harg => ?_
    refine agrees_bind (agrees_listArgument _ (harg 0)) fun elements elements' helements => ?_
    cases helements with
    | nil => exact agrees_throw
    | cons hv _ => exact agrees_pure hv
  case tail =>
    refine agrees_bind (agrees_exactly _ h 1) fun arg arg' harg => ?_
    refine agrees_bind (agrees_listArgument _ (harg 0)) fun elements elements' helements => ?_
    cases helements with
    | nil => exact agrees_throw
    | cons _ hrest => exact agrees_pure hrest
  case isEmpty =>
    refine agrees_bind (agrees_exactly _ h 1) fun arg arg' harg => ?_
    refine agrees_bind (agrees_listArgument _ (harg 0)) fun elements elements' helements => ?_
    cases helements with
    | nil => exact agrees_pure rfl
    | cons _ _ => exact agrees_pure rfl
  case reverse =>
    refine agrees_bind (agrees_exactly _ h 1) fun arg arg' harg => ?_
    refine agrees_bind (agrees_listArgument _ (harg 0)) fun elements elements' helements => ?_
    exact agrees_pure (List.forall₂_reverse_iff.mpr helements)
  case append =>
    refine agrees_bind (agrees_exactly _ h 2) fun arg arg' harg => ?_
    refine agrees_bind (agrees_listArgument _ (harg 0)) fun fronts fronts' hfronts => ?_
    refine agrees_bind (agrees_listArgument _ (harg 1)) fun backs backs' hbacks => ?_
    exact agrees_pure (List.rel_append hfronts hbacks)
  case type =>
    refine agrees_bind (agrees_exactly _ h 1) fun arg arg' harg => ?_
    rw [← (harg 0).typeName_eq]
    exact agrees_pure rfl

end Procedure

end BlockLang
