import BlockLang.Evaluator

/-!
# Reserved names

A name is reserved in a frame while it is bound to the placeholder there. This
module tells how the reservations change when a frame is added or a name is
bound, one frame at a time and in number.
-/

namespace BlockLang

namespace Frame

theorem lookup_rebind
    (x : Text) (v : Node) (y : Text) (bindings : List (Text × Node)) :
    (rebind x v bindings).lookup y = if y = x then some v else bindings.lookup y := by
  induction bindings with
  | nil =>
      rw [rebind, List.lookup_cons, List.lookup_nil]
      by_cases hy : y = x <;> simp [hy, beq_eq_false_iff_ne.mpr]
  | cons b rest ih =>
      obtain ⟨z, w⟩ := b
      rw [rebind]
      by_cases hz : z = x
      · subst hz
        by_cases hy : y = z <;> simp [List.lookup_cons, hy, beq_eq_false_iff_ne.mpr]
      · by_cases hy : y = z
        · subst hy
          simp [hz]
        · simp [List.lookup_cons, hz, hy, ih, beq_eq_false_iff_ne.mpr]

theorem get?_define
    (f : Frame) (x : Text) (v : Node) (y : Text) :
    (f.define x v).get? y = if y = x then some v else f.get? y :=
  lookup_rebind x v y f.bindings

/-- Whether a name is bound to the placeholder in a frame. -/
def reserves (f : Frame) (x : Text) : Bool :=
  (f.get? x).any Expr.isPlaceholder

theorem reserves_define
    {v : Node} (hv : v.isPlaceholder = false) (f : Frame) (x y : Text) :
    (f.define x v).reserves y = (y != x && f.reserves y) := by
  by_cases hy : y = x <;> simp [reserves, get?_define, hy, hv]

end Frame

/-! ## One frame at a time -/

/-- A name is bound to the placeholder in the frame with a number. -/
def Reserved (fs : Array Frame) (id : FrameId) (x : Text) : Prop :=
  (fs[id]?).any (·.reserves x)

instance (fs : Array Frame) (id : FrameId) (x : Text) : Decidable (Reserved fs id x) :=
  inferInstanceAs (Decidable (_ = true))

variable {fs : Array Frame} {id id' : FrameId} {x y : Text} {v : Node}

theorem not_reserved_of_size_le
    (h : fs.size ≤ id) :
    ¬Reserved fs id x := by
  simp [Reserved, Array.getElem?_eq_none h]

theorem reserved_push
    {f : Frame} :
    Reserved (fs.push f) id x ↔
      (id = fs.size ∧ f.reserves x) ∨ Reserved fs id x := by
  by_cases hid : id = fs.size
  · subst hid
    simp [Reserved]
  · simp [Reserved, Array.getElem?_push, hid]

theorem reserved_define
    (hv : v.isPlaceholder = false) :
    Reserved (fs.modify id (·.define y v)) id' x ↔
      Reserved fs id' x ∧ ¬(id' = id ∧ x = y) := by
  by_cases hid : id' = id
  · subst hid
    cases hf : fs[id']? with
    | none => simp [Reserved, Array.getElem?_modify, hf]
    | some f => simp [Reserved, Array.getElem?_modify, hf, Frame.reserves_define hv, and_comm]
  · have hid' : ¬id = id' := fun h => hid h.symm
    simp [Reserved, Array.getElem?_modify, hid, hid']

/-! ## In number -/

/-- The number of frames in which a name is reserved. -/
def reservations (fs : Array Frame) (x : Text) : Nat :=
  fs.countP (·.reserves x)

theorem reservations_push
    (fs : Array Frame) (f : Frame) (x : Text) :
    reservations (fs.push f) x = reservations fs x + if f.reserves x then 1 else 0 :=
  Array.countP_push

theorem countP_modify
    {α : Type} (p : α → Bool) (g : α → α) (l : List α) (i : Nat) :
    (l.modify i g).countP p + (if (l[i]?).any p then 1 else 0) =
      l.countP p + if (l[i]?).any (p ∘ g) then 1 else 0 := by
  induction l generalizing i with
  | nil => simp
  | cons a l ih =>
      cases i with
      | zero =>
          simp only [List.modify_zero_cons, List.countP_cons, List.getElem?_cons_zero,
            Option.any_some, Function.comp_apply]
          omega
      | succ i =>
          simp only [List.modify_succ_cons, List.countP_cons, List.getElem?_cons_succ]
          have := ih i
          omega

/-- Binding a name to a value takes away its reservation, if it has one. -/
theorem reservations_define
    (hv : v.isPlaceholder = false) (fs : Array Frame) (id : FrameId) (x y : Text) :
    reservations (fs.modify id (·.define y v)) x +
        (if x = y ∧ Reserved fs id y then 1 else 0) =
      reservations fs x := by
  have hcount := countP_modify (·.reserves x) (·.define y v) fs.toList id
  rw [← Array.toList_modify, Array.countP_toList, Array.countP_toList,
    Array.getElem?_toList] at hcount
  cases hf : fs[id]? with
  | none => simpa [reservations, Reserved, hf] using hcount
  | some f =>
      by_cases hx : x = y
      · subst hx
        simpa [reservations, Reserved, hf, Frame.reserves_define hv] using hcount
      · simpa [reservations, Reserved, hf, Frame.reserves_define hv, hx] using hcount

/-! ## Looking a name up -/

namespace Store

variable {s : Store} {t : FrameId}

theorem find_of_nearest?
    {β : Type} {find : Frame → Option β} {b : β} (id : FrameId)
    (h : s.nearest? find id = some (t, b)) :
    ∃ f, s.frames[t]? = some f ∧ find f = some b := by
  fun_induction s.nearest? find id with
  | case1 => cases h
  | case2 id f hf b' hb => 
      cases h
      exact ⟨f, hf, hb⟩
  | case3 => cases h
  | case4 id f hf hb outer houter hlt ih => exact ih h
  | case5 => cases h

theorem nearest?_of_find
    {β : Type} {find : Frame → Option β} {f : Frame} {b : β}
    (hf : s.frames[id]? = some f) (hb : find f = some b) :
    s.nearest? find id = some (id, b) := by
  rw [nearest?, hf]
  simp [hb]

theorem exists_of_get?
    (h : s.get? id x = some v) :
    ∃ f ∈ s.frames, f.get? x = some v := by
  obtain ⟨⟨t, w⟩, hnearest, rfl⟩ := Option.map_eq_some_iff.mp h
  obtain ⟨f, hf, hw⟩ := find_of_nearest? id hnearest
  exact ⟨f, Array.mem_of_getElem? hf, hw⟩

theorem reserved_of_findPlaceholder?
    (h : s.findPlaceholder? id x = some t) :
    Reserved s.frames t x := by
  obtain ⟨⟨_, w⟩, hnearest, rfl⟩ := Option.map_eq_some_iff.mp h
  obtain ⟨f, hf, hw⟩ := find_of_nearest? id hnearest
  simp only [Option.filter_eq_some_iff] at hw
  simp [Reserved, hf, Frame.reserves, hw]

theorem findPlaceholder?_of_reserved
    (h : Reserved s.frames id x) :
    s.findPlaceholder? id x = some id := by
  cases hf : s.frames[id]? with
  | none => simp [Reserved, hf] at h
  | some f =>
      simp only [Reserved, hf, Option.any_some, Frame.reserves] at h
      obtain ⟨w, hw, hplaceholder⟩ := (Option.any_eq_true ..).mp h
      have hfilter : (f.get? x).filter Expr.isPlaceholder = some w := by
        rw [hw, Option.filter_some, if_pos hplaceholder]
      rw [findPlaceholder?, nearest?_of_find hf hfilter]
      rfl

end Store

/-! ## Filling a new frame -/

theorem modify_push
    (fs : Array Frame) (f : Frame) (g : Frame → Frame) :
    (fs.push f).modify fs.size g = fs.push (g f) := by
  apply Array.ext_getElem?
  intro i
  rw [Array.getElem?_modify]
  by_cases hi : fs.size = i
  · subst hi
    simp
  · have hi' : ¬i = fs.size := fun h => hi h.symm
    simp [Array.getElem?_push, hi, hi']

theorem Store.frames_define_push
    {s : Store} {f : Frame} (hs : s.frames = fs.push f) (x : Text) (v : Node) :
    (s.define fs.size x v).frames = fs.push (f.define x v) := by
  have hframes : (s.define fs.size x v).frames = s.frames.modify fs.size (·.define x v) := rfl
  rw [hframes, hs]
  exact modify_push fs f (·.define x v)

/-- The name that an expression is a definition of. -/
def Expr.definedName? : Node → Option Text
  | .define _ x _ => some x
  | _ => none

/-- The names that the statements of a block define. -/
def definedNames (es : List Node) : List Text :=
  es.filterMap Expr.definedName?

namespace Evaluator

theorem declareAll_push
    (es : List Node) {s : Store} {f : Frame} (hs : s.frames = fs.push f) :
    ∃ f', (declareAll fs.size es s).frames = fs.push f' ∧ f'.outer = f.outer ∧
      ∀ x, f'.get? x = if x ∈ definedNames es then some .placeholder else f.get? x := by
  induction es generalizing s f with
  | nil => exact ⟨f, hs, rfl, fun x => by simp [definedNames]⟩
  | cons e es ih =>
      cases e
      case define i y value =>
        obtain ⟨f', hf', houter, hget⟩ := ih (Store.frames_define_push hs y .placeholder)
        refine ⟨f', hf', houter, fun x => ?_⟩
        rw [hget, Frame.get?_define]
        have hnames : definedNames (.define i y value :: es) = y :: definedNames es := rfl
        by_cases hx : x ∈ definedNames es <;> simp [hnames, hx]
      all_goals exact ih hs

/-- Reserving names changes frames only. -/
theorem declareAll_eq
    (id : FrameId) (es : List Node) (s : Store) :
    declareAll id es s = { s with frames := (declareAll id es s).frames } := by
  induction es generalizing s with
  | nil => rfl
  | cons e es ih =>
      cases e
      case define i y value => exact ih (s.declare id y)
      all_goals exact ih s

theorem bindParameters_push
    (bs : List (Text × Node)) {s : Store} {f : Frame} (hs : s.frames = fs.push f) :
    ∃ f', (bindParameters fs.size bs s).frames = fs.push f' ∧ f'.outer = f.outer ∧
      (∀ x v, f'.get? x = some v → v ∈ bs.map (·.2) ∨ f.get? x = some v) ∧
      ∀ x, x ∉ bs.map (·.1) → f'.get? x = f.get? x := by
  induction bs generalizing s f with
  | nil => exact ⟨f, hs, rfl, fun x v hv => .inr hv, fun x _ => rfl⟩
  | cons b bs ih =>
      obtain ⟨y, w⟩ := b
      obtain ⟨f', hf', houter, hget, hrest⟩ := ih (Store.frames_define_push hs y w)
      refine ⟨f', hf', houter, fun x v hv => ?_, fun x hx => ?_⟩
      · rcases hget x v hv with hv | hv
        · exact .inl (List.mem_cons_of_mem _ hv)
        · rw [Frame.get?_define] at hv
          split at hv
          · cases hv
            exact .inl List.mem_cons_self
          · exact .inr hv
      · rw [List.map_cons, List.mem_cons, not_or] at hx
        rw [hrest x hx.2, Frame.get?_define, if_neg hx.1]

/-- Binding parameters changes frames only. -/
theorem bindParameters_eq
    (id : FrameId) (bs : List (Text × Node)) (s : Store) :
    bindParameters id bs s = { s with frames := (bindParameters id bs s).frames } := by
  induction bs generalizing s with
  | nil => rfl
  | cons b bs ih => exact ih (s.define id b.1 b.2)

end Evaluator

end BlockLang
