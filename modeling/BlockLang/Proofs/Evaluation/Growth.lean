import BlockLang.Proofs.Evaluation.Frames

/-!
# Growing stores

An evaluation adds frames to the store and binds names anew that were bound
before. It never moves a frame, adds a name to a frame that is already there,
reserves a name anew or changes a frame that a lambda has captured. This is an
order on stores, in which the frame that a name is found in stays the same. The
frames around a frame are older than it, so going outward comes to an end.
-/

namespace BlockLang

/-! ## Frames -/

namespace Frame

theorem map_fst_rebind
    (x : Text) (v : Node) {bindings : List (Text × Node)} (hx : x ∈ bindings.map (·.1)) :
    (rebind x v bindings).map (·.1) = bindings.map (·.1) := by
  induction bindings with
  | nil => cases hx
  | cons b rest ih =>
      obtain ⟨y, w⟩ := b
      by_cases hy : y = x
      · simp [rebind, hy]
      · have hrest : x ∈ rest.map (·.1) := by
          rcases List.mem_cons.mp hx with heq | hrest
          · exact absurd heq.symm hy
          · exact hrest
        simp [rebind, hy, ih hrest]

theorem isSome_get?_iff
    (f : Frame) (x : Text) :
    (f.get? x).isSome ↔ x ∈ f.bindings.map (·.1) := by
  unfold get?
  induction f.bindings with
  | nil => simp
  | cons b rest ih =>
      obtain ⟨y, w⟩ := b
      rw [List.lookup_cons, List.map_cons, List.mem_cons]
      by_cases hx : x = y
      · simp [hx]
      · have hne : (x == y) = false := beq_eq_false_iff_ne.mpr hx
        simp [hne, hx, ih]

/-- The same frame lies around both frames, they bind the same names, and no
name is reserved in the second one only. -/
structure Grows (f g : Frame) : Prop where
  outer : g.outer = f.outer
  names : g.bindings.map (·.1) = f.bindings.map (·.1)
  reserved : ∀ x, g.reserves x → f.reserves x

namespace Grows

variable {f g h : Frame}

theorem refl
    (f : Frame) :
    f.Grows f :=
  ⟨rfl, rfl, fun _ hx => hx⟩

theorem trans
    (hfg : f.Grows g) (hgh : g.Grows h) :
    f.Grows h :=
  ⟨hgh.outer.trans hfg.outer, hgh.names.trans hfg.names,
    fun x hx => hfg.reserved x (hgh.reserved x hx)⟩

theorem isSome_get?
    (hfg : f.Grows g) (x : Text) :
    (g.get? x).isSome = (f.get? x).isSome := by
  rw [Bool.eq_iff_iff, isSome_get?_iff, isSome_get?_iff, hfg.names]

/-- A name that is bound to a value stays bound to some value. -/
theorem exists_value
    (hfg : f.Grows g) {x : Text} {v : Node} (hv : f.get? x = some v)
    (hreal : v.isPlaceholder = false) :
    ∃ w, g.get? x = some w ∧ w.isPlaceholder = false := by
  have hsome : (g.get? x).isSome := by
    rw [hfg.isSome_get? x, hv]
    rfl
  obtain ⟨w, hw⟩ := Option.isSome_iff_exists.mp hsome
  refine ⟨w, hw, ?_⟩
  cases hplaceholder : w.isPlaceholder with
  | false => rfl
  | true =>
      have hreserved := hfg.reserved x (by simp [reserves, hw, hplaceholder])
      simp [reserves, hv, hreal] at hreserved

end Grows

theorem grows_define
    {f : Frame} {x : Text} {v : Node} (hx : (f.get? x).isSome) (hv : v.isPlaceholder = false) :
    f.Grows (f.define x v) := by
  refine ⟨rfl, map_fst_rebind x v ((isSome_get?_iff f x).mp hx), fun y hy => ?_⟩
  rw [reserves_define hv, Bool.and_eq_true] at hy
  exact hy.2

end Frame

/-! ## Stores -/

namespace Store

/-- Every frame of the first store is still there and has only grown, and so are
the captured frames. -/
structure Grows (s t : Store) : Prop where
  frames : ∀ (id : FrameId) (f : Frame), s.frames[id]? = some f →
    ∃ g, t.frames[id]? = some g ∧ f.Grows g
  captures : ∀ label id, s.captured? label = some id → t.captured? label = some id

variable {s t u : Store}

namespace Grows

theorem of_frames_eq
    (hframes : t.frames = s.frames)
    (hcaptures : ∀ label id, s.captured? label = some id → t.captured? label = some id) :
    s.Grows t := by
  refine ⟨fun id f hf => ⟨f, ?_, .refl f⟩, hcaptures⟩
  rw [hframes]
  exact hf

theorem refl
    (s : Store) :
    s.Grows s :=
  .of_frames_eq rfl fun _ _ h => h

theorem trans
    (hst : s.Grows t) (htu : t.Grows u) :
    s.Grows u := by
  refine ⟨fun id f hf => ?_, fun label id h => htu.captures label id (hst.captures label id h)⟩
  obtain ⟨g, hg, hfg⟩ := hst.frames id f hf
  obtain ⟨h, hh, hgh⟩ := htu.frames id g hg
  exact ⟨h, hh, hfg.trans hgh⟩

theorem of_push
    {frame : Frame} (hframes : t.frames = s.frames.push frame)
    (hcaptures : ∀ label id, s.captured? label = some id → t.captured? label = some id) :
    s.Grows t := by
  refine ⟨fun id f hf => ⟨f, ?_, .refl f⟩, hcaptures⟩
  have hid : id ≠ s.frames.size := by
    rintro rfl
    simp at hf
  rw [hframes, Array.getElem?_push, if_neg hid]
  exact hf

theorem of_define
    {target : FrameId} {x : Text} {v : Node}
    (hframes : t.frames = s.frames.modify target (·.define x v))
    (hcaptures : ∀ label id, s.captured? label = some id → t.captured? label = some id)
    (hx : ∀ f, s.frames[target]? = some f → (f.get? x).isSome) (hv : v.isPlaceholder = false) :
    s.Grows t := by
  refine ⟨fun id f hf => ?_, hcaptures⟩
  rw [hframes, Array.getElem?_modify, hf]
  by_cases hid : target = id
  · subst hid
    exact ⟨_, if_pos rfl, Frame.grows_define (hx f hf) hv⟩
  · exact ⟨f, if_neg hid, .refl f⟩

theorem size_le
    (h : s.Grows t) :
    s.frames.size ≤ t.frames.size := by
  refine Nat.le_of_not_lt fun hlt => ?_
  obtain ⟨g, hg, -⟩ := h.frames _ _ (Array.getElem?_eq_getElem hlt)
  simp at hg

theorem reserved
    (h : s.Grows t) {id : FrameId} {x : Text} (hid : id < s.frames.size)
    (hx : Reserved t.frames id x) :
    Reserved s.frames id x := by
  have hf := Array.getElem?_eq_getElem hid
  obtain ⟨g, hg, hgrows⟩ := h.frames id _ hf
  rw [Reserved, hg] at hx
  rw [Reserved, hf]
  exact hgrows.reserved x hx

/-- The frame in which a name is found does not change when a store grows. -/
theorem findBinding?_eq
    (h : s.Grows t) (x : Text) (id : FrameId) (hid : id < s.frames.size) :
    t.findBinding? id x = s.findBinding? id x := by
  unfold findBinding?
  induction id using Nat.strongRecOn with
  | ind id ih =>
      have hf := Array.getElem?_eq_getElem hid
      obtain ⟨g, hg, hgrows⟩ := h.frames id _ hf
      have hsome := hgrows.isSome_get? x
      rw [nearest?, nearest?, hf, hg]
      dsimp only
      cases hget : s.frames[id].get? x with
      | some v =>
          obtain ⟨w, hw⟩ := Option.isSome_iff_exists.mp (hsome.trans (by rw [hget]; rfl))
          rw [hw]
          rfl
      | none =>
          have hnone : g.get? x = none := by
            rw [hget] at hsome
            simpa using hsome
          rw [hnone, hgrows.outer]
          dsimp only
          cases houter : s.frames[id].outer with
          | none => rfl
          | some outer =>
              dsimp only
              split
              · rename_i hlt
                exact ih outer hlt (Nat.lt_trans hlt hid)
              · rfl

end Grows

/-! ## Going outward -/

/-- Every frame is younger than the one around it. -/
def Ordered (s : Store) : Prop :=
  ∀ (id : FrameId) (f : Frame) (outer : FrameId),
    s.frames[id]? = some f → f.outer = some outer → outer < id

/-- The frames that are met on the way from a frame to the outermost one. -/
inductive Outward (s : Store) : FrameId → List FrameId → Prop where
  | last {id : FrameId} {f : Frame} (hf : s.frames[id]? = some f) (houter : f.outer = none) :
      Outward s id [id]
  | step {id outer : FrameId} {f : Frame} {path : List FrameId} (hf : s.frames[id]? = some f)
      (houter : f.outer = some outer) (hpath : Outward s outer path) :
      Outward s id (id :: path)

theorem Ordered.le_of_mem
    (hs : s.Ordered) {id : FrameId} {path : List FrameId} (h : s.Outward id path) :
    ∀ other ∈ path, other ≤ id := by
  induction h with
  | last => simp
  | step hf houter _ ih =>
      have hlt := hs _ _ _ hf houter
      refine List.forall_mem_cons.mpr ⟨Nat.le_refl _, fun other hother => ?_⟩
      exact Nat.le_trans (ih other hother) (Nat.le_of_lt hlt)

/-- From every frame the way outward ends, and no frame is met twice on it. -/
theorem Ordered.exists_outward
    (hs : s.Ordered) (id : FrameId) (hid : id < s.frames.size) :
    ∃ path, s.Outward id path ∧ path.Nodup := by
  induction id using Nat.strongRecOn with
  | ind id ih =>
      have hf := Array.getElem?_eq_getElem hid
      cases houter : s.frames[id].outer with
      | none => exact ⟨[id], .last hf houter, by simp⟩
      | some outer =>
          have hlt := hs id _ outer hf houter
          obtain ⟨path, hpath, hnodup⟩ := ih outer hlt (Nat.lt_trans hlt hid)
          refine ⟨id :: path, .step hf houter hpath, List.nodup_cons.mpr ⟨?_, hnodup⟩⟩
          intro hmem
          exact Nat.not_le_of_lt hlt (hs.le_of_mem hpath id hmem)

end Store

end BlockLang
