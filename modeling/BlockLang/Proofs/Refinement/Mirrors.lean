import BlockLang.Proofs.Evaluation.States
import BlockLang.Proofs.Refinement.Procedures

/-!
# A program and the session that takes it in parts

A program that is one block runs its statements in the frame of the block, which
lies inside the empty frame of the session. A session that takes the statements one
after the other runs them in its own frame. So the frames of the two runs
correspond, but for one empty frame, and frame `id` of the program is frame `id - 1`
of the session. The block has reserved the names of all its definitions, whereas the
session reserves a name when its definition comes.

This module says when two states of such runs mirror each other and which steps
keep it so.
-/

namespace BlockLang

/-! ## More labels that belong together -/

namespace Pairing

/-- A pairing with two more rows of labels that belong together. -/
def extend (R : Pairing) (a b : Label) (n : Nat) : Pairing :=
  fun i j => R i j ∨ ∃ k < n, i = a + k ∧ j = b + k

variable {R R' R'' : Pairing} {a b n : Nat}

theorem rows_extend :
    (R.extend a b n).Rows a b n :=
  fun k hk => .inr ⟨k, hk, rfl, rfl⟩

theorem unique_extend
    (hR : R.Unique) (hleft : ∀ k < n, ∀ j, ¬R (a + k) j) (hright : ∀ k < n, ∀ i, ¬R i (b + k)) :
    (R.extend a b n).Unique := by
  constructor
  · rintro i j j' (hj | ⟨k, hk, rfl, rfl⟩) (hj' | ⟨k', hk', hi, rfl⟩)
    · exact hR.right hj hj'
    · exact absurd (hi ▸ hj) (hleft k' hk' j)
    · exact absurd hj' (hleft k hk j')
    · rw [Nat.add_left_cancel hi]
  · rintro i i' j (hi | ⟨k, hk, rfl, rfl⟩) (hi' | ⟨k', hk', rfl, hj⟩)
    · exact hR.left hi hi'
    · exact absurd (hj ▸ hi) (hright k' hk' i)
    · exact absurd hi' (hright k hk i')
    · rw [Nat.add_left_cancel hj]

/-- Between two states with these next labels, labels were only added to a pairing,
all of them new. -/
structure Widens (R : Pairing) (n : Label) (R' : Pairing) (n' : Label) : Prop where
  sub : ∀ a b, R a b → R' a b
  new : ∀ a b, R' a b → R a b ∨ n ≤ a
  le : n ≤ n'

theorem Widens.refl
    (R : Pairing) (n : Label) :
    R.Widens n R n :=
  ⟨fun _ _ h => h, fun _ _ h => .inl h, Nat.le_refl n⟩

theorem Widens.trans
    {n n' n'' : Label} (h : R.Widens n R' n') (h' : R'.Widens n' R'' n'') :
    R.Widens n R'' n'' := by
  refine ⟨fun a b hab => h'.sub a b (h.sub a b hab), fun a b hab => ?_, Nat.le_trans h.le h'.le⟩
  rcases h'.new a b hab with hab | ha
  · exact h.new a b hab
  · exact .inr (Nat.le_trans h.le ha)

end Pairing

theorem Alike.definedName?_eq
    {R : Pairing} {e e' : Node} (h : Alike R e e') :
    e'.definedName? = e.definedName? :=
  h.eq_of_bare fun e => by cases e <;> rfl

theorem Alike.isPlaceholder_eq
    {R : Pairing} {e e' : Node} (h : Alike R e e') :
    e'.isPlaceholder = e.isPlaceholder :=
  h.eq_of_bare fun e => by cases e <;> rfl

/-! ## Frames -/

/-- The frame in which the statements of the program run. -/
def blockFrame : FrameId := 2

/-- A name that the block has reserved and the session has not come to. -/
def Hidden (pending : List Text) (id : FrameId) (x : Text) : Prop :=
  id = blockFrame ∧ x ∈ pending

/-- A frame of the program and a frame of the session correspond. -/
structure Frame.Mirrors (R : Pairing) (hidden : Text → Prop) (f g : Frame) : Prop where
  outer : g.outer = f.outer.map (· - 1)
  reserved : ∀ x, hidden x → f.get? x = some .placeholder
  bindings : ∀ x, ¬hidden x → Option.Rel (Alike R) (f.get? x) (g.get? x)

namespace Frame.Mirrors

variable {R R' : Pairing} {hidden : Text → Prop} {f g : Frame}

theorem mono
    (h : f.Mirrors R hidden g) (hsub : ∀ a b, R a b → R' a b) :
    f.Mirrors R' hidden g := by
  refine ⟨h.outer, h.reserved, fun x hx => ?_⟩
  have hrel := h.bindings x hx
  revert hrel
  generalize f.get? x = v
  generalize g.get? x = w
  intro hrel
  cases hrel with
  | none => exact .none
  | some hvw => exact .some (hvw.mono hsub)

theorem exists_of_get?
    {x : Text} {v : Node} (h : f.Mirrors R hidden g) (hx : ¬hidden x) (hv : f.get? x = some v) :
    ∃ w, g.get? x = some w ∧ Alike R v w := by
  have hrel := h.bindings x hx
  rw [hv] at hrel
  cases hw : g.get? x with
  | none =>
      rw [hw] at hrel
      cases hrel
  | some w =>
      rw [hw] at hrel
      cases hrel with
      | some hvw => exact ⟨w, rfl, hvw⟩

theorem get?_eq_none
    {x : Text} (h : f.Mirrors R hidden g) (hx : f.get? x = none) :
    g.get? x = none := by
  have hshown : ¬hidden x := by
    intro hhidden
    cases hx.symm.trans (h.reserved x hhidden)
  have hrel := h.bindings x hshown
  rw [hx] at hrel
  cases hw : g.get? x with
  | none => rfl
  | some w =>
      rw [hw] at hrel
      cases hrel

theorem define
    {x : Text} {v w : Node} (h : f.Mirrors R hidden g) (hx : ¬hidden x) (hvw : Alike R v w) :
    (f.define x v).Mirrors R hidden (g.define x w) := by
  refine ⟨h.outer, fun y hy => ?_, fun y hy => ?_⟩
  · have hne : y ≠ x := fun heq => hx (heq ▸ hy)
    rw [get?_define, if_neg hne]
    exact h.reserved y hy
  · rw [get?_define, get?_define]
    split
    · exact .some hvw
    · exact h.bindings y hy

end Frame.Mirrors

/-! ## Stores -/

/-- A store of the program and a store of the session correspond. Labels that belong
together have captured frames that correspond, and no other labels have captured
any. -/
structure Store.Mirrors (R : Pairing) (pending : List Text) (s t : Store) : Prop where
  unique : R.Unique
  below : ∀ {a b}, R a b → a < s.nextLabel ∧ b < t.nextLabel
  size : s.frames.size = t.frames.size + 1
  inside : blockFrame < s.frames.size
  gap : s.frames[1]? = some ⟨some 0, []⟩
  frames : ∀ (id : FrameId) (f : Frame), id ≠ 1 → s.frames[id]? = some f →
    ∃ g, t.frames[id - 1]? = some g ∧ f.Mirrors R (Hidden pending id) g
  captured : ∀ {a b}, R a b → t.captured? b = (s.captured? a).map (· - 1)
  left : ∀ {a id}, s.captured? a = some id → ∃ b, R a b
  right : ∀ {b id}, t.captured? b = some id → ∃ a, R a b

theorem pred_lt_pred
    {m n : Nat} (h : m < n) (hn : n ≠ 1) :
    m - 1 < n - 1 := by
  omega

theorem pred_eq_pred_iff
    {m n : Nat} (hm : m ≠ 1) (hn : n ≠ 1) :
    m - 1 = n - 1 ↔ m = n := by
  omega

namespace Store.Mirrors

variable {R : Pairing} {pending : List Text} {s t : Store}

theorem not_hidden_of_lt
    {id : FrameId} (hid : blockFrame < id) (x : Text) :
    ¬Hidden pending id x :=
  fun h => Nat.lt_irrefl _ (h.1 ▸ hid)

theorem ne_one_of_lt
    {id : FrameId} (hid : blockFrame < id) :
    id ≠ 1 := by
  rintro rfl
  exact absurd hid (by decide)

/-- What a name is bound to in the program it is bound to in the session, in the
frame that corresponds. -/
theorem nearest?
    (h : s.Mirrors R pending t) {x : Text} {id target : FrameId} {v : Node}
    (hfind : s.nearest? (·.get? x) id = some (target, v)) (hshown : ¬Hidden pending target x) :
    target ≠ 1 ∧ ∃ w, t.nearest? (·.get? x) (id - 1) = some (target - 1, w) ∧ Alike R v w := by
  induction id using Nat.strongRecOn with
  | ind id ih =>
      rw [Store.nearest?] at hfind
      by_cases hgap : id = 1
      · -- the empty frame has nothing, and the session goes on from where it leads
        subst hgap
        rw [h.gap] at hfind
        exact ih 0 Nat.zero_lt_one hfind
      · cases hf : s.frames[id]? with
        | none =>
            rw [hf] at hfind
            cases hfind
        | some f =>
            obtain ⟨g, hg, hfg⟩ := h.frames id f hgap hf
            rw [hf] at hfind
            dsimp only at hfind
            cases hget : f.get? x with
            | some u =>
                rw [hget] at hfind
                cases hfind
                obtain ⟨w, hw, hvw⟩ := hfg.exists_of_get? hshown hget
                exact ⟨hgap, w, nearest?_of_find hg hw, hvw⟩
            | none =>
                rw [hget] at hfind
                cases houter : f.outer with
                | none =>
                    rw [houter] at hfind
                    cases hfind
                | some outer =>
                    rw [houter] at hfind
                    dsimp only at hfind
                    split at hfind
                    · rename_i hlt
                      have hgouter : g.outer = some (outer - 1) := by
                        rw [hfg.outer, houter]
                        rfl
                      obtain ⟨htarget, w, hw, hvw⟩ := ih outer hlt hfind
                      refine ⟨htarget, w, ?_, hvw⟩
                      rw [Store.nearest?, hg]
                      dsimp only
                      rw [hfg.get?_eq_none hget, hgouter]
                      dsimp only
                      rw [if_pos (pred_lt_pred hlt hgap), hw]
                    · cases hfind

theorem reserved_of_hidden
    (h : s.Mirrors R pending t) {id : FrameId} {x : Text} (hx : Hidden pending id x) :
    Reserved s.frames id x := by
  have hid : id ≠ 1 := by
    rw [hx.1]
    decide
  have hlt : id < s.frames.size := hx.1 ▸ h.inside
  obtain ⟨g, -, hfg⟩ := h.frames id _ hid (Array.getElem?_eq_getElem hlt)
  rw [Reserved, Array.getElem?_eq_getElem hlt, Option.any_some, Frame.reserves,
    hfg.reserved x hx]
  rfl

theorem exists_of_get?
    (h : s.Mirrors R pending t) {id : FrameId} {x : Text} {v : Node} (hv : s.get? id x = some v)
    (hreal : v.isPlaceholder = false) :
    ∃ w, t.get? (id - 1) x = some w ∧ Alike R v w := by
  obtain ⟨⟨target, u⟩, hnearest, rfl⟩ := Option.map_eq_some_iff.mp hv
  have hshown : ¬Hidden pending target x := by
    intro hx
    obtain ⟨f, hf, hfind⟩ := find_of_nearest? id hnearest
    have hreserved := h.reserved_of_hidden hx
    rw [Reserved, hf, Option.any_some, Frame.reserves, hfind, Option.any_some, hreal]
      at hreserved
    cases hreserved
  obtain ⟨-, w, hw, hvw⟩ := h.nearest? hnearest hshown
  exact ⟨w, by rw [Store.get?, hw]; rfl, hvw⟩

theorem findBinding?
    (h : s.Mirrors R pending t) {id target : FrameId} {x : Text}
    (htarget : s.findBinding? id x = some target) (hshown : ¬Hidden pending target x) :
    target ≠ 1 ∧ t.findBinding? (id - 1) x = some (target - 1) := by
  obtain ⟨⟨_, v⟩, hnearest, rfl⟩ := Option.map_eq_some_iff.mp htarget
  obtain ⟨hne, w, hw, -⟩ := h.nearest? hnearest hshown
  exact ⟨hne, by rw [Store.findBinding?, hw]; rfl⟩

theorem reserved
    (h : s.Mirrors R pending t) {id : FrameId} {x : Text} (hx : Reserved s.frames id x)
    (hshown : ¬Hidden pending id x) :
    id ≠ 1 ∧ Reserved t.frames (id - 1) x := by
  have hid : id ≠ 1 := by
    rintro rfl
    rw [Reserved, h.gap] at hx
    cases hx
  obtain ⟨f, hf, hreserves⟩ := (Option.any_eq_true ..).mp hx
  obtain ⟨v, hv, hplaceholder⟩ := (Option.any_eq_true ..).mp hreserves
  obtain ⟨g, hg, hfg⟩ := h.frames id f hid hf
  obtain ⟨w, hw, hvw⟩ := hfg.exists_of_get? hshown hv
  have hplaceholder' : w.isPlaceholder := by
    rw [hvw.isPlaceholder_eq, hplaceholder]
  refine ⟨hid, ?_⟩
  rw [Reserved, hg, Option.any_some, Frame.reserves, hw, Option.any_some, hplaceholder']

/-! ### Steps -/

theorem define
    {target : FrameId} {x : Text} {v w : Node} (h : s.Mirrors R pending t) (htarget : target ≠ 1)
    (hx : ¬Hidden pending target x) (hvw : Alike R v w) :
    (s.define target x v).Mirrors R pending (t.define (target - 1) x w) := by
  have hsize : (s.define target x v).frames.size = s.frames.size := Array.size_modify
  have hsize' : (t.define (target - 1) x w).frames.size = t.frames.size := Array.size_modify
  refine ⟨h.unique, h.below, ?_, ?_, ?_, fun id f hid hf => ?_, h.captured, h.left, h.right⟩
  · rw [hsize, hsize']
    exact h.size
  · rw [hsize]
    exact h.inside
  · rw [Store.define, Array.getElem?_modify, if_neg htarget]
    exact h.gap
  · rw [Store.define, Array.getElem?_modify] at hf ⊢
    split at hf
    · rename_i heq
      subst heq
      obtain ⟨f₀, hf₀, rfl⟩ := Option.map_eq_some_iff.mp hf
      obtain ⟨g, hg, hfg⟩ := h.frames target f₀ hid hf₀
      exact ⟨g.define x w, by rw [if_pos rfl, hg]; rfl, hfg.define hx hvw⟩
    · rename_i hne
      rw [if_neg (fun heq => hne ((pred_eq_pred_iff htarget hid).mp heq))]
      exact h.frames id f hid hf

theorem newFrame
    (h : s.Mirrors R pending t) (outer : FrameId) :
    (s.newFrame (some outer)).2.Mirrors R pending (t.newFrame (some (outer - 1))).2 := by
  have hframes : (s.newFrame (some outer)).2.frames = s.frames.push ⟨some outer, []⟩ := rfl
  have hframes' : (t.newFrame (some (outer - 1))).2.frames =
      t.frames.push ⟨some (outer - 1), []⟩ := rfl
  refine ⟨h.unique, h.below, ?_, ?_, ?_, fun id f hid hf => ?_, h.captured, h.left, h.right⟩
  · rw [hframes, hframes', Array.size_push, Array.size_push, h.size]
  · rw [hframes, Array.size_push]
    exact Nat.lt_succ_of_lt h.inside
  · have hone : (1 : FrameId) ≠ s.frames.size := (ne_one_of_lt h.inside).symm
    rw [hframes, Array.getElem?_push, if_neg hone]
    exact h.gap
  · have hlast : s.frames.size - 1 = t.frames.size := by
      rw [h.size]
      rfl
    rw [hframes, Array.getElem?_push] at hf
    rw [hframes', Array.getElem?_push]
    split at hf
    · rename_i heq
      cases hf
      refine ⟨_, if_pos (by rw [heq, hlast]), rfl, fun x hx => ?_, fun x _ => .none⟩
      exact absurd hx (not_hidden_of_lt (heq ▸ h.inside) x)
    · rename_i hne
      rw [if_neg]
      · exact h.frames id f hid hf
      · intro heq
        rw [← hlast, pred_eq_pred_iff hid (ne_one_of_lt h.inside)] at heq
        exact hne heq

theorem capture
    {a b : Label} (h : s.Mirrors R pending t) (hab : R a b) (id : FrameId) :
    (s.capture a id).Mirrors R pending (t.capture b (id - 1)) := by
  refine ⟨h.unique, h.below, h.size, h.inside, h.gap, h.frames, ?_, ?_, ?_⟩
  · intro i j hij
    rw [captured?_capture, captured?_capture]
    by_cases hi : i = a
    · rw [if_pos hi, if_pos ((h.unique.eq_iff hij hab).mp hi)]
      rfl
    · rw [if_neg hi, if_neg (fun hj => hi ((h.unique.eq_iff hij hab).mpr hj))]
      exact h.captured hij
  · intro i other hi
    rw [captured?_capture] at hi
    split at hi
    · rename_i heq
      exact ⟨b, heq ▸ hab⟩
    · exact h.left hi
  · intro j other hj
    rw [captured?_capture] at hj
    split at hj
    · rename_i heq
      exact ⟨a, heq ▸ hab⟩
    · exact h.right hj

/-- The session comes to a definition and reserves its name. -/
theorem declare
    {x : Text} (h : s.Mirrors R (x :: pending) t) :
    s.Mirrors R pending (t.declare (blockFrame - 1) x) := by
  have hsize : (t.declare (blockFrame - 1) x).frames.size = t.frames.size := Array.size_modify
  refine ⟨h.unique, h.below, ?_, h.inside, h.gap, fun id f hid hf => ?_, h.captured, h.left,
    h.right⟩
  · rw [hsize]
    exact h.size
  · obtain ⟨g, hg, hfg⟩ := h.frames id f hid hf
    rw [Store.declare, Store.define, Array.getElem?_modify, hg]
    by_cases hblock : id = blockFrame
    · subst hblock
      refine ⟨_, if_pos rfl, hfg.outer, fun y hy => ?_, fun y hy => ?_⟩
      · exact hfg.reserved y ⟨rfl, List.mem_cons_of_mem _ hy.2⟩
      · rw [Frame.get?_define]
        split
        · rename_i heq
          rw [hfg.reserved y ⟨rfl, heq ▸ List.mem_cons_self⟩]
          exact .some rfl
        · rename_i hne
          refine hfg.bindings y fun hhidden => ?_
          rcases List.mem_cons.mp hhidden.2 with heq | hmem
          · exact hne heq
          · exact hy ⟨rfl, hmem⟩
    · have hne : ¬blockFrame - 1 = id - 1 := fun heq =>
        hblock ((pred_eq_pred_iff (by decide) hid).mp heq).symm
      refine ⟨g, if_neg hne, hfg.outer, fun y hy => absurd hy.1 hblock, fun y _ => ?_⟩
      exact hfg.bindings y fun hhidden => hblock hhidden.1

/-- New nodes get labels that belong together. -/
theorem extend
    {a n : Nat} {next : Label} (h : s.Mirrors R pending t) (hnew : ∀ k < n, ∀ j, ¬R (a + k) j)
    (hle : s.nextLabel ≤ next) (hnext : a + n ≤ next) :
    Store.Mirrors (R.extend a t.nextLabel n) pending { s with nextLabel := next }
      { t with nextLabel := t.nextLabel + n } := by
  have hnew' : ∀ k < n, ∀ i, ¬R i (t.nextLabel + k) := fun k _ i hi =>
    Nat.not_lt_of_le (Nat.le_add_right _ k) (h.below hi).2
  refine ⟨Pairing.unique_extend h.unique hnew hnew', ?_, h.size, h.inside, h.gap, ?_, ?_, ?_, ?_⟩
  · rintro i j (hij | ⟨k, hk, rfl, rfl⟩)
    · obtain ⟨hi, hj⟩ := h.below hij
      exact ⟨Nat.lt_of_lt_of_le hi hle, Nat.lt_of_lt_of_le hj (Nat.le_add_right _ n)⟩
    · exact ⟨Nat.lt_of_lt_of_le (Nat.add_lt_add_left hk a) hnext, Nat.add_lt_add_left hk _⟩
  · intro id f hid hf
    obtain ⟨g, hg, hfg⟩ := h.frames id f hid hf
    exact ⟨g, hg, hfg.mono fun _ _ => .inl⟩
  · rintro i j (hij | ⟨k, hk, rfl, rfl⟩)
    · exact h.captured hij
    · -- nothing has been captured for a label that belongs to none
      have hs : s.captured? (a + k) = none := Option.eq_none_iff_forall_ne_some.mpr fun id hid =>
        (h.left hid).elim fun j hj => hnew k hk j hj
      have ht : t.captured? (t.nextLabel + k) = none :=
        Option.eq_none_iff_forall_ne_some.mpr fun id hid =>
          (h.right hid).elim fun i hi => hnew' k hk i hi
      exact ht.trans (congrArg (Option.map (· - 1)) hs).symm
  · intro i id hi
    exact (h.left hi).imp fun _ => .inl
  · intro j id hj
    exact (h.right hj).imp fun _ => .inl

end Store.Mirrors

namespace Evaluator

variable {R : Pairing} {pending : List Text} {s t : Store} {id : FrameId}

theorem declareAll_cons
    (id : FrameId) (e : Node) (es : List Node) (s : Store) :
    declareAll id (e :: es) s =
      declareAll id es
        (match e.definedName? with
          | some x => s.declare id x
          | none => s) := by
  cases e <;> rfl

theorem mirrors_declareAll
    {es es' : List Node} (h : s.Mirrors R pending t) (hid : blockFrame < id)
    (hes : List.Forall₂ (Alike R) es es') :
    (declareAll id es s).Mirrors R pending (declareAll (id - 1) es' t) := by
  induction hes generalizing s t with
  | nil => exact h
  | @cons e e' es es' he _ ih =>
      rw [declareAll_cons, declareAll_cons, he.definedName?_eq]
      apply ih
      cases e.definedName? with
      | none => exact h
      | some x =>
          exact h.define (Store.Mirrors.ne_one_of_lt hid) (Store.Mirrors.not_hidden_of_lt hid x)
            (v := .placeholder) (w := .placeholder) rfl

theorem mirrors_bindParameters
    {xs : List Text} {args args' : List Node} (h : s.Mirrors R pending t)
    (hid : blockFrame < id) (hargs : List.Forall₂ (Alike R) args args') :
    (bindParameters id (xs.zip args) s).Mirrors R pending
      (bindParameters (id - 1) (xs.zip args') t) := by
  induction hargs generalizing s t xs with
  | nil =>
      rw [List.zip_nil_right]
      exact h
  | cons hv _ ih =>
      cases xs with
      | nil => exact h
      | cons x xs =>
          exact ih (h.define (Store.Mirrors.ne_one_of_lt hid)
            (Store.Mirrors.not_hidden_of_lt hid x) hv)

theorem capture_of_not_lambda
    {v : Node} (hv : ¬∃ i xs body, v = .lambda i xs body) (settings : Settings) (x : Text)
    (id : FrameId) (s : State) :
    capture settings x v id s = s := by
  unfold capture
  split
  · exact absurd ⟨_, _, _, rfl⟩ hv
  · rfl

end Evaluator

/-! ## States -/

/-- A state of the program and a state of the session correspond. -/
structure State.Mirrors (R : Pairing) (pending : List Text) (s t : State) : Prop where
  store : s.store.Mirrors R pending t.store
  callers : t.callers = s.callers.map (· - 1)
  input : t.input = s.input
  output : t.output = s.output

namespace State.Mirrors

variable {R : Pairing} {pending : List Text} {s t : State}

theorem mapStore
    {m m' : Store → Store} (h : s.Mirrors R pending t)
    (hm : (m s.store).Mirrors R pending (m' t.store)) :
    (s.mapStore m).Mirrors R pending (t.mapStore m') :=
  ⟨hm, h.callers, h.input, h.output⟩

theorem define
    {target : FrameId} {x : Text} {v w : Node} (h : s.Mirrors R pending t) (htarget : target ≠ 1)
    (hx : ¬Hidden pending target x) (hvw : Alike R v w) :
    (s.mapStore (·.define target x v)).Mirrors R pending
      (t.mapStore (·.define (target - 1) x w)) :=
  h.mapStore (h.store.define htarget hx hvw)

theorem enclose
    (h : s.Mirrors R pending t) (outer : FrameId) :
    (s.enclose outer).2.Mirrors R pending (t.enclose (outer - 1)).2 :=
  ⟨h.store.newFrame outer, h.callers, h.input, h.output⟩

/-- The numbers of two new frames correspond. -/
theorem enclose_fst
    (h : s.Mirrors R pending t) (outer : FrameId) :
    (t.enclose (outer - 1)).1 = (s.enclose outer).1 - 1 := by
  have hsize : (s.enclose outer).1 = t.store.frames.size + 1 := h.store.size
  rw [hsize]
  rfl

theorem write
    (h : s.Mirrors R pending t) (settings : Settings) (line : Output) :
    (s.write settings line).Mirrors R pending (t.write settings line) := by
  unfold State.write
  split
  · exact h
  · exact ⟨h.store, h.callers, h.input, congrArg (line :: ·) h.output⟩

theorem pushCaller
    (h : s.Mirrors R pending t) (env : FrameId) :
    (s.pushCaller env).Mirrors R pending (t.pushCaller (env - 1)) :=
  ⟨h.store, congrArg ((env - 1) :: ·) h.callers, h.input, h.output⟩

theorem popCaller
    {s' : State} (h : s.Mirrors R pending t) (hs : s.popCaller = .ok s') :
    ∃ t', t.popCaller = .ok t' ∧ s'.Mirrors R pending t' := by
  obtain ⟨⟨env, hcallers⟩, hs'⟩ := State.callers_of_popCaller hs
  have ht : t.callers = (env - 1) :: s'.callers.map (· - 1) := by
    rw [h.callers, hcallers, List.map_cons]
  refine ⟨_, State.popCaller_of_callers ht, ?_⟩
  rw [hs']
  exact ⟨h.store, rfl, h.input, h.output⟩

theorem parentFrame
    {a b : Label} (h : s.Mirrors R pending t) (settings : Settings) (hab : R a b)
    (caller : FrameId) :
    Evaluator.parentFrame settings b (caller - 1) t =
      Evaluator.parentFrame settings a caller s - 1 := by
  unfold Evaluator.parentFrame
  rw [h.store.captured hab]
  split
  · cases s.store.captured? a <;> rfl
  · rfl

theorem capture
    {x : Text} {v w : Node} (h : s.Mirrors R pending t) (settings : Settings)
    (hvw : Alike R v w) (id : FrameId) :
    (Evaluator.capture settings x v id s).Mirrors R pending
      (Evaluator.capture settings x w (id - 1) t) := by
  by_cases hlambda : ∃ i xs body, v = .lambda i xs body
  · obtain ⟨i, xs, body, rfl⟩ := hlambda
    obtain ⟨j, body', hij, -, rfl⟩ := hvw
    have hnone : (t.store.captured? j).isNone = (s.store.captured? i).isNone := by
      rw [h.store.captured hij, Option.isNone_map]
    simp only [Evaluator.capture, hnone]
    split
    · exact ⟨h.store.capture hij id, h.callers, h.input, h.output⟩
    · exact h
  · have hlambda' : ¬∃ i xs body, w = .lambda i xs body := by
      rintro ⟨i, xs, body, rfl⟩
      have hbare := hvw.bare_eq
      cases v <;> first | cases hbare; done | exact hlambda ⟨_, _, _, rfl⟩
    rw [Evaluator.capture_of_not_lambda hlambda, Evaluator.capture_of_not_lambda hlambda']
    exact h

end State.Mirrors

end BlockLang
