import BlockLang.Proofs.Evaluation.Definitions
import BlockLang.Proofs.Evaluation.States

/-!
# The steps of a session

Besides evaluating, a session makes its first state, loads trees, reserves the name
of a definition and gives it back when the definition fails. All these steps lead
to well-formed states.
-/

namespace BlockLang

theorem Frame.get?_erase
    (f : Frame) (x y : Text) :
    (f.erase x).get? y = if y = x then none else f.get? y := by
  unfold get? erase
  induction f.bindings with
  | nil => simp
  | cons b rest ih =>
      obtain ⟨z, w⟩ := b
      dsimp only at ih ⊢
      by_cases hz : z = x
      · subst hz
        rw [List.filter_cons_of_neg (by simp), ih, List.lookup_cons]
        by_cases hy : y = z
        · simp [hy]
        · simp [hy, beq_eq_false_iff_ne.mpr hy]
      · rw [List.filter_cons_of_pos (by simpa using hz), List.lookup_cons, List.lookup_cons, ih]
        by_cases hy : y = z
        · simp [hy, hz]
        · simp [beq_eq_false_iff_ne.mpr hy]

namespace Session

variable {settings : Settings} {p : Head → Bool} {s : State}

theorem wellFormed_start
    (hp : ∀ q : Procedure, p (.procedure q.name true)) (settings : Settings) (input : Input) :
    (start settings input).state.WellFormed settings p := by
  have hframes : (start settings input).state.store.frames = library.push ⟨some 0, []⟩ := rfl
  refine ⟨?_, ?_, nofun, nofun⟩
  · intro id f outer hf houter
    rw [hframes, Array.getElem?_push] at hf
    split at hf
    · rename_i hid
      cases hf
      cases houter
      rw [hid]
      exact Nat.zero_lt_one
    · obtain ⟨hid, rfl⟩ := Array.getElem?_eq_some_iff.mp hf
      have hzero : id = 0 := Nat.lt_one_iff.mp hid
      subst hzero
      cases houter
  · intro f hf x v hv
    rw [hframes] at hf
    rcases Array.mem_push.mp hf with hf | rfl
    · exact .inr (isValueOf_library hp hf hv)
    · cases hv

theorem wellFormed_loadTree
    {ι : Type} (hs : s.WellFormed settings p) (e : Expr ι) :
    (loadTree s e).2.WellFormed settings p := by
  have hproceeds : s.Proceeds settings p (loadTree s e).2 := hs.proceeds.quiet rfl rfl rfl
  exact hproceeds.wellFormed

theorem size_reserve
    (frame : FrameId) (e : Node) (s : State) :
    (reserve frame e s).store.frames.size = s.store.frames.size := by
  cases e
  case define i x value => exact Array.size_modify
  all_goals rfl

theorem callers_reserve
    (frame : FrameId) (e : Node) (s : State) :
    (reserve frame e s).callers = s.callers := by
  cases e <;> rfl

theorem wellFormed_reserve
    (hs : s.WellFormed settings p) (frame : FrameId) (e : Node) :
    (reserve frame e s).WellFormed settings p := by
  cases e
  case define i x value => exact hs.define frame x (.inl rfl)
  all_goals exact hs

theorem wellFormed_restore
    {before : Option Node} (hs : s.WellFormed settings p) (frame : FrameId) (x : Text)
    (hbefore : ∀ v, before = some v → v = .placeholder ∨ IsValueOf p v) :
    (s.mapStore (restore frame x before)).WellFormed settings p := by
  cases before with
  | some v => exact hs.define frame x (hbefore v rfl)
  | none =>
      refine hs.modify (m := (·.erase x)) frame rfl rfl (fun _ => rfl) fun f y v hv => .inr ?_
      rw [Frame.get?_erase] at hv
      split at hv
      · cases hv
      · exact hv

theorem isValueOf_getLocal?
    {t : State} (ht : t.WellFormed settings p) {frame : FrameId} {x : Text} {v : Node}
    (hv : t.store.getLocal? frame x = some v) :
    v = .placeholder ∨ IsValueOf p v := by
  obtain ⟨f, hf, hv⟩ := Option.bind_eq_some_iff.mp hv
  exact ht.bindings f (Array.mem_of_getElem? hf) x v hv

end Session

end BlockLang
