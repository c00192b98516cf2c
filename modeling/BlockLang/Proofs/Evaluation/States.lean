import BlockLang.Evaluator
import BlockLang.Proofs.Evaluation.Growth
import BlockLang.Proofs.Evaluation.Values

/-!
# Well-formed states

A state is well formed if its frames lie inside each other without a cycle and
names are reserved or bound to values. This module tells which steps lead from a
well-formed state to another one while the store grows.
-/

namespace BlockLang

theorem Store.captured?_of_captures_eq
    {s t : Store} (h : t.captures = s.captures) (label : Label) :
    t.captured? label = s.captured? label := by
  rw [captured?, h, captured?]

theorem Store.captured?_capture
    (s : Store) (label : Label) (id : FrameId) (other : Label) :
    (s.capture label id).captured? other =
      if other = label then some id else s.captured? other := by
  rw [captured?, capture, List.lookup_cons, captured?]
  by_cases h : other = label
  · simp [h]
  · simp [h, beq_eq_false_iff_ne.mpr h]

namespace State

/-- A state in which expressions within a vocabulary are evaluated. Every frame is
younger than the one around it, names are reserved or bound to values, frames are
captured under lexical scoping only, and captured frames and callers exist. -/
structure WellFormed (settings : Settings) (p : Head → Bool) (s : State) : Prop where
  ordered : s.store.Ordered
  bindings : ∀ f ∈ s.store.frames, ∀ x v, f.get? x = some v → v = .placeholder ∨ IsValueOf p v
  captured : ∀ label id, s.store.captured? label = some id →
    settings.lexical ∧ id < s.store.frames.size
  callers : ∀ id ∈ s.callers, id < s.store.frames.size

/-- The second state is well formed, its store has grown from the first one and
the same procedures are running. -/
structure Proceeds (settings : Settings) (p : Head → Bool) (s t : State) : Prop where
  wellFormed : t.WellFormed settings p
  grows : s.store.Grows t.store
  callers : t.callers = s.callers

variable {settings : Settings} {p : Head → Bool} {s t t' u : State}

theorem WellFormed.proceeds
    (h : s.WellFormed settings p) :
    s.Proceeds settings p s :=
  ⟨h, .refl _, rfl⟩

/-- A change inside one frame. -/
theorem WellFormed.modify
    {m : Frame → Frame} {store : Store} (h : s.WellFormed settings p) (id : FrameId)
    (hframes : store.frames = s.store.frames.modify id m)
    (hcaptures : store.captures = s.store.captures)
    (houter : ∀ f, (m f).outer = f.outer)
    (hbindings : ∀ f x v, (m f).get? x = some v →
      (v = .placeholder ∨ IsValueOf p v) ∨ f.get? x = some v) :
    WellFormed settings p { s with store } := by
  have hsize : store.frames.size = s.store.frames.size := by
    rw [hframes, Array.size_modify]
  have hchanged : ∀ (other : FrameId) (f : Frame), store.frames[other]? = some f →
      ∃ g, s.store.frames[other]? = some g ∧ (f = m g ∨ f = g) := by
    intro other f hf
    rw [hframes, Array.getElem?_modify] at hf
    split at hf
    · obtain ⟨g, hg, rfl⟩ := Option.map_eq_some_iff.mp hf
      exact ⟨g, hg, .inl rfl⟩
    · exact ⟨f, hf, .inr rfl⟩
  refine ⟨?_, ?_, ?_, ?_⟩
  · intro other f outer hf hfouter
    obtain ⟨g, hg, rfl | rfl⟩ := hchanged other f hf
    · rw [houter] at hfouter
      exact h.ordered other g outer hg hfouter
    · exact h.ordered other f outer hg hfouter
  · intro f hf x v hv
    obtain ⟨other, hother⟩ := Array.mem_iff_getElem?.mp hf
    obtain ⟨g, hg, rfl | rfl⟩ := hchanged other f hother
    · rcases hbindings g x v hv with hv | hv
      · exact hv
      · exact h.bindings g (Array.mem_of_getElem? hg) x v hv
    · exact h.bindings f (Array.mem_of_getElem? hg) x v hv
  · intro label other hother
    rw [Store.captured?_of_captures_eq hcaptures] at hother
    show _ ∧ _ < store.frames.size
    rw [hsize]
    exact h.captured label other hother
  · intro other hother
    show _ < store.frames.size
    rw [hsize]
    exact h.callers other hother

theorem WellFormed.define
    {v : Node} (h : s.WellFormed settings p) (id : FrameId) (x : Text)
    (hv : v = .placeholder ∨ IsValueOf p v) :
    (s.mapStore (·.define id x v)).WellFormed settings p := by
  refine h.modify (m := (·.define x v)) id rfl rfl (fun _ => rfl) fun f y w hw => ?_
  rw [Frame.get?_define] at hw
  split at hw
  · cases hw
    exact .inl hv
  · exact .inr hw

namespace Proceeds

theorem trans
    (hst : s.Proceeds settings p t) (htu : t.Proceeds settings p u) :
    s.Proceeds settings p u :=
  ⟨htu.wellFormed, hst.grows.trans htu.grows, htu.callers.trans hst.callers⟩

theorem lt_size
    (h : s.Proceeds settings p t) {id : FrameId} (hid : id < s.store.frames.size) :
    id < t.store.frames.size :=
  Nat.lt_of_lt_of_le hid h.grows.size_le

/-- A step that changes neither frames nor captures. -/
theorem quiet
    (h : s.Proceeds settings p t) (hframes : t'.store.frames = t.store.frames)
    (hcaptures : t'.store.captures = t.store.captures) (hcallers : t'.callers = t.callers) :
    s.Proceeds settings p t' := by
  have hcaptured := Store.captured?_of_captures_eq hcaptures
  have hgrows : t.store.Grows t'.store := by
    refine .of_frames_eq hframes fun label id hid => ?_
    rw [hcaptured]
    exact hid
  refine ⟨⟨?_, ?_, ?_, ?_⟩, h.grows.trans hgrows, hcallers.trans h.callers⟩
  · rw [Store.Ordered, hframes]
    exact h.wellFormed.ordered
  · rw [hframes]
    exact h.wellFormed.bindings
  · intro label id hid
    rw [hcaptured] at hid
    rw [hframes]
    exact h.wellFormed.captured label id hid
  · rw [hframes, hcallers]
    exact h.wellFormed.callers

theorem write
    (h : s.Proceeds settings p t) (line : Output) :
    s.Proceeds settings p (t.write settings line) := by
  unfold State.write
  split
  · exact h
  · exact h.quiet rfl rfl rfl

/-- A step that adds a frame inside one that exists. -/
theorem push
    {frame : Frame} {env : FrameId} (h : s.Proceeds settings p t)
    (hframes : t'.store.frames = t.store.frames.push frame)
    (houter : frame.outer = some env) (henv : env < t.store.frames.size)
    (hbindings : ∀ x v, frame.get? x = some v → v = .placeholder ∨ IsValueOf p v)
    (hcaptures : t'.store.captures = t.store.captures) (hcallers : t'.callers = t.callers) :
    s.Proceeds settings p t' := by
  have hcaptured := Store.captured?_of_captures_eq hcaptures
  have hgrows : t.store.Grows t'.store := by
    refine .of_push hframes fun label id hid => ?_
    rw [hcaptured]
    exact hid
  have hsize : t.store.frames.size ≤ t'.store.frames.size := hgrows.size_le
  refine ⟨⟨?_, ?_, ?_, ?_⟩, h.grows.trans hgrows, hcallers.trans h.callers⟩
  · intro id f outer hf hfouter
    rw [hframes, Array.getElem?_push] at hf
    split at hf
    · rename_i hid
      cases hf
      rw [houter] at hfouter
      cases hfouter
      rw [hid]
      exact henv
    · exact h.wellFormed.ordered id f outer hf hfouter
  · intro f hf
    rw [hframes] at hf
    rcases Array.mem_push.mp hf with hf | rfl
    · exact h.wellFormed.bindings f hf
    · exact hbindings
  · intro label id hid
    rw [hcaptured] at hid
    obtain ⟨hlexical, hlt⟩ := h.wellFormed.captured label id hid
    exact ⟨hlexical, Nat.lt_of_lt_of_le hlt hsize⟩
  · intro id hid
    rw [hcallers] at hid
    exact Nat.lt_of_lt_of_le (h.wellFormed.callers id hid) hsize

/-- A step that adds a frame with its bindings. -/
theorem enclose
    {m : Store → Store} {frame : Frame} {env : FrameId} (h : s.Proceeds settings p t)
    (henv : env < t.store.frames.size)
    (hframes : (m (t.enclose env).2.store).frames = t.store.frames.push frame)
    (hcaptures : (m (t.enclose env).2.store).captures = t.store.captures)
    (houter : frame.outer = some env)
    (hbindings : ∀ x v, frame.get? x = some v → v = .placeholder ∨ IsValueOf p v) :
    s.Proceeds settings p ((t.enclose env).2.mapStore m) ∧
      t.store.frames.size < ((t.enclose env).2.mapStore m).store.frames.size := by
  refine ⟨h.push hframes houter henv hbindings hcaptures rfl, ?_⟩
  show _ < (m (t.enclose env).2.store).frames.size
  rw [hframes, Array.size_push]
  exact Nat.lt_succ_self _

/-- A step that binds a name to a value where it was bound before. -/
theorem define
    {target : FrameId} {x : Text} {v : Node} (h : s.Proceeds settings p t)
    (hx : ∀ f, t.store.frames[target]? = some f → (f.get? x).isSome) (hv : IsValueOf p v) :
    s.Proceeds settings p (t.mapStore (·.define target x v)) := by
  have hgrows : t.store.Grows (t.store.define target x v) :=
    .of_define rfl (fun _ _ hid => hid) hx hv.isPlaceholder_eq_false
  exact ⟨h.wellFormed.define target x (.inr hv), h.grows.trans hgrows, h.callers⟩

/-- A step in which a lambda may capture a frame that exists. -/
theorem capture
    {x : Text} {v : Node} {target : FrameId} (h : s.Proceeds settings p t)
    (htarget : target < t.store.frames.size) :
    s.Proceeds settings p (Evaluator.capture settings x v target t) := by
  unfold Evaluator.capture
  split
  · rename_i label _ _
    split
    · rename_i hcapture
      rw [Bool.and_eq_true, Option.isNone_iff_eq_none] at hcapture
      obtain ⟨hlexical, hnone⟩ := hcapture
      have hcaptured := t.store.captured?_capture label target
      have hgrows : t.store.Grows (t.store.capture label target) := by
        refine .of_frames_eq rfl fun other id hid => ?_
        rw [hcaptured]
        split
        · rename_i hother
          rw [hother, hnone] at hid
          cases hid
        · exact hid
      refine ⟨⟨h.wellFormed.ordered, h.wellFormed.bindings, ?_, h.wellFormed.callers⟩,
        h.grows.trans hgrows, h.callers⟩
      intro other id hid
      rw [hcaptured] at hid
      split at hid
      · cases hid
        exact ⟨hlexical, htarget⟩
      · exact h.wellFormed.captured other id hid
    · exact h
  · exact h

end Proceeds

end State

end BlockLang
