import BlockLang.Proofs.Dumps.Strings
import BlockLang.Proofs.Printing

/-!
# Dumps are read in one way

No two dumps are written as the same text, as long as their strings are UTF-8. What is
read off a text from the left is settled byte by byte: the first byte of a value says
what it is, and behind an item there is a comma if another one follows. Only a number
does not show its own end, so it has to be followed by something else than a digit.
-/

namespace BlockLang

namespace Dump

/-- A text that does not go on with the digits of a number. -/
def NoDigit (u : Text) : Prop :=
  ∀ b ∈ u.head?, Scan.isDigit b = false

theorem noDigit_cons {b : UInt8} (h : Scan.isDigit b = false) (u : Text) : NoDigit (b :: u) := by
  rintro _ ⟨⟩
  exact h

/-- Two things are the same if they are written alike in front of texts that do not go on
with digits, and then so are these texts. -/
def Discerned {α : Type} (write : α → Text) (x y : α) : Prop :=
  ∀ u u' : Text, NoDigit u → NoDigit u' → write x ++ u = write y ++ u' → x = y ∧ u = u'

/-! ## Numbers -/

theorem takeWhile_ofNat_append (n : Nat) {u : Text} (hu : NoDigit u) :
    (Text.ofNat n ++ u).takeWhile Scan.isDigit = Text.ofNat n := by
  have hnil : u.takeWhile Scan.isDigit = [] := by
    cases u with
    | nil => rfl
    | cons b u => simp [hu b rfl]
  rw [List.takeWhile_append_of_pos (Integer.isDecimal_ofNat n).2.1, hnil, List.append_nil]

theorem discerned_ofNat (m n : Nat) : Discerned Text.ofNat m n := by
  intro u u' hu hu' h
  have hdigits := congrArg (List.takeWhile Scan.isDigit) h
  rw [takeWhile_ofNat_append m hu, takeWhile_ofNat_append n hu'] at hdigits
  have hm := Integer.isDecimal_ofNat m
  rw [hdigits] at h hm
  exact ⟨hm.unique (Integer.isDecimal_ofNat n), List.append_cancel_left h⟩

/-- The decimal form of a number starts with a digit. -/
theorem exists_ofNat_eq_cons (n : Nat) :
    ∃ b t, Text.ofNat n = b :: t ∧ Scan.isDigit b = true := by
  obtain ⟨hne, hdigits, -⟩ := Integer.isDecimal_ofNat n
  cases h : Text.ofNat n with
  | nil => exact absurd h hne
  | cons b t => exact ⟨b, t, rfl, hdigits b (h ▸ List.mem_cons_self)⟩

theorem ofNat_append_ne (n : Nat) (u v : Text) : Text.ofNat n ++ u ≠ 0x2D :: v := by
  obtain ⟨b, t, heq, hb⟩ := exists_ofNat_eq_cons n
  rw [heq]
  rintro ⟨⟩
  cases hb

theorem discerned_ofInt (m n : Int) : Discerned Text.ofInt m n := by
  intro u u' hu hu' h
  cases m with
  | ofNat m =>
      cases n with
      | ofNat n =>
          obtain ⟨rfl, hrest⟩ := discerned_ofNat m n u u' hu hu' h
          exact ⟨rfl, hrest⟩
      | negSucc n => exact absurd h (ofNat_append_ne m u _)
  | negSucc m =>
      cases n with
      | ofNat n => exact absurd h.symm (ofNat_append_ne n u' _)
      | negSucc n =>
          obtain ⟨hvalue, hrest⟩ := discerned_ofNat _ _ u u' hu hu' (List.cons.inj h).2
          exact ⟨by rw [Nat.succ.inj hvalue], hrest⟩

/-! ## Lists -/

section

variable {α : Type} {write : α → Text} {lead u u' : Text}

/-- The text behind an item: more items, each on a line with a given margin, and then
the line that ends them. -/
def following (lead : Text) (write : α → Text) (u : Text) : List α → Text
  | [] => 0x0A :: u
  | x :: xs => 0x2C :: 0x0A :: (lead ++ (write x ++ following lead write u xs))

theorem noDigit_following (lead : Text) (write : α → Text) (u : Text) (xs : List α) :
    NoDigit (following lead write u xs) := by
  cases xs with
  | nil => exact noDigit_cons rfl _
  | cons x xs => exact noDigit_cons rfl _

theorem following_inj {xs ys : List α}
    (hitems : ∀ x ∈ xs, ∀ y ∈ ys, Discerned write x y)
    (h : following lead write u xs = following lead write u' ys) : xs = ys ∧ u = u' := by
  induction xs generalizing ys with
  | nil =>
      cases ys with
      | nil => exact ⟨rfl, (List.cons.inj h).2⟩
      | cons y ys => exact absurd (List.cons.inj h).1 (by decide)
  | cons x xs ih =>
      cases ys with
      | nil => exact absurd (List.cons.inj h).1 (by decide)
      | cons y ys =>
          have hline := List.append_cancel_left (List.cons.inj (List.cons.inj h).2).2
          obtain ⟨rfl, hrest⟩ := hitems x List.mem_cons_self y List.mem_cons_self _ _
            (noDigit_following _ _ _ _) (noDigit_following _ _ _ _) hline
          obtain ⟨rfl, rfl⟩ := ih (fun x hx y hy =>
            hitems x (List.mem_cons_of_mem _ hx) y (List.mem_cons_of_mem _ hy)) hrest
          exact ⟨rfl, rfl⟩

theorem following_eq (lead : Text) (write : α → Text) (u : Text) (xs : List α) :
    following lead write u xs =
      (xs.map fun x => lead ++ write x).flatMap ((",\n" : Text) ++ ·) ++ 0x0A :: u := by
  induction xs with
  | nil => rfl
  | cons x xs ih =>
      rw [following, ih, List.map_cons, List.flatMap_cons]
      simp only [List.append_assoc]
      rfl

theorem bracketed_cons (opening closing : Text) (level : Nat) (x : α) (xs : List α) (u : Text) :
    bracketed opening closing level ((x :: xs).map write) ++ u =
      opening ++ 0x0A :: (margin (level + 1) ++
        (write x ++ following (margin (level + 1)) write (margin level ++ (closing ++ u)) xs)) := by
  rw [bracketed, if_neg (by simp), List.map_map, List.map_cons, Text.join_cons, following_eq]
  simp only [Function.comp_apply, List.append_assoc]
  rfl

/-- Lists between brackets are the same if their items can be told apart. -/
theorem bracketed_inj {xs ys : List α} {opening : Text} {c : UInt8} {level : Nat}
    (hc : c ≠ 0x0A) (hitems : ∀ x ∈ xs, ∀ y ∈ ys, Discerned write x y)
    (h : bracketed opening [c] level (xs.map write) ++ u =
      bracketed opening [c] level (ys.map write) ++ u') : xs = ys ∧ u = u' := by
  have hnil (u : Text) : bracketed opening [c] level (([] : List α).map write) ++ u =
      opening ++ c :: u := List.append_assoc ..
  cases xs with
  | nil =>
      rw [hnil] at h
      cases ys with
      | nil =>
          rw [hnil] at h
          exact ⟨rfl, (List.cons.inj (List.append_cancel_left h)).2⟩
      | cons y ys =>
          rw [bracketed_cons] at h
          exact absurd (List.cons.inj (List.append_cancel_left h)).1 hc
  | cons x xs =>
      rw [bracketed_cons] at h
      cases ys with
      | nil =>
          rw [hnil] at h
          exact absurd (List.cons.inj (List.append_cancel_left h)).1.symm hc
      | cons y ys =>
          rw [bracketed_cons] at h
          have hline := List.append_cancel_left (List.cons.inj (List.append_cancel_left h)).2
          obtain ⟨rfl, hrest⟩ := hitems x List.mem_cons_self y List.mem_cons_self _ _
            (noDigit_following _ _ _ _) (noDigit_following _ _ _ _) hline
          obtain ⟨rfl, hend⟩ := following_inj (fun x hx y hy =>
            hitems x (List.mem_cons_of_mem _ hx) y (List.mem_cons_of_mem _ hy)) hrest
          exact ⟨rfl, (List.cons.inj (List.append_cancel_left hend)).2⟩

end

/-! ## Values -/

/-- What holds of a dump when it holds of its items and fields holds of every dump. -/
theorem induction
    {motive : Dump → Prop} (null : motive .null) (boolean : ∀ b, motive (.boolean b))
    (integer : ∀ n, motive (.integer n)) (string : ∀ s, motive (.string s))
    (array : ∀ items : List Dump, (∀ d ∈ items, motive d) → motive (.array items))
    (object : ∀ fields : List (Text × Dump), (∀ f ∈ fields, motive f.2) →
      motive (.object fields)) :
    ∀ d, motive d
  | .null => null
  | .boolean b => boolean b
  | .integer n => integer n
  | .string s => string s
  | .array items => array items (ofItems items)
  | .object fields => object fields (ofFields fields)
where
  ofItems : ∀ items : List Dump, ∀ d ∈ items, motive d
    | [], _, hd => absurd hd List.not_mem_nil
    | item :: items, d, hd => by
        have hitem := induction null boolean integer string array object item
        rcases List.mem_cons.mp hd with heq | hd
        · exact heq ▸ hitem
        · exact ofItems items d hd
  ofFields : ∀ fields : List (Text × Dump), ∀ f ∈ fields, motive f.2
    | [], _, hf => absurd hf List.not_mem_nil
    | (key, value) :: fields, f, hf => by
        have hvalue := induction null boolean integer string array object value
        rcases List.mem_cons.mp hf with heq | hf
        · exact heq ▸ hvalue
        · exact ofFields fields f hf

/-- What a dump is, without its content. -/
inductive Form where
  | null
  | boolean
  | integer
  | string
  | array
  | object

/-- The form of a dump. -/
def form : Dump → Form
  | null => .null
  | boolean _ => .boolean
  | integer _ => .integer
  | string _ => .string
  | array _ => .array
  | object _ => .object

/-- The form of the dumps that start with a byte. -/
def Form.ofByte (b : UInt8) : Form :=
  match b with
  | 0x6E => null
  | 0x74 => boolean
  | 0x66 => boolean
  | 0x22 => string
  | 0x5B => array
  | 0x7B => object
  | _ => integer

theorem Form.ofByte_of_isDigit {b : UInt8} (h : Scan.isDigit b = true) : ofByte b = integer := by
  unfold ofByte
  split
  · cases h
  · cases h
  · cases h
  · cases h
  · cases h
  · cases h
  · rfl

theorem exists_bracketed_eq_cons (b : UInt8) (closing : Text) (level : Nat) (parts : List Text) :
    ∃ t, bracketed [b] closing level parts = b :: t := by
  unfold bracketed
  split
  · exact ⟨_, rfl⟩
  · exact ⟨_, rfl⟩

theorem exists_render_eq_cons (level : Nat) (d : Dump) :
    ∃ b t, d.render level = b :: t ∧ Form.ofByte b = d.form := by
  cases d with
  | null => exact ⟨_, _, rfl, rfl⟩
  | boolean b => cases b <;> exact ⟨_, _, rfl, rfl⟩
  | integer n =>
      cases n with
      | ofNat n =>
          obtain ⟨b, t, heq, hb⟩ := exists_ofNat_eq_cons n
          exact ⟨b, t, heq, Form.ofByte_of_isDigit hb⟩
      | negSucc n => exact ⟨_, _, rfl, rfl⟩
  | string s => exact ⟨_, _, rfl, rfl⟩
  | array items =>
      obtain ⟨t, ht⟩ := exists_bracketed_eq_cons 0x5B "]" level (renderItems (level + 1) items)
      exact ⟨_, t, ht, rfl⟩
  | object fields =>
      obtain ⟨t, ht⟩ :=
        exists_bracketed_eq_cons 0x7B "\x7d" level (renderFields (level + 1) fields)
      exact ⟨_, t, ht, rfl⟩

theorem form_eq_of_render {level : Nat} {d d' : Dump} {u u' : Text}
    (h : d.render level ++ u = d'.render level ++ u') : d.form = d'.form := by
  obtain ⟨b, t, heq, hb⟩ := exists_render_eq_cons level d
  obtain ⟨b', t', heq', hb'⟩ := exists_render_eq_cons level d'
  rw [heq, heq'] at h
  rw [← hb, ← hb', (List.cons.inj h).1]

mutual

/-- Whether the strings and the names of fields in a dump are UTF-8. -/
def legible : Dump → Bool
  | null | boolean _ | integer _ => true
  | string s => s.isUtf8
  | array items => legibleItems items
  | object fields => legibleFields fields

/-- Whether all items are legible. -/
def legibleItems : List Dump → Bool
  | [] => true
  | item :: items => legible item && legibleItems items

/-- Whether all fields are legible. -/
def legibleFields : List (Text × Dump) → Bool
  | [] => true
  | (key, value) :: fields => key.isUtf8 && legible value && legibleFields fields

end

theorem legibleItems_iff {items : List Dump} :
    legibleItems items = true ↔ ∀ d ∈ items, d.legible = true := by
  induction items with
  | nil => simp [legibleItems]
  | cons item items ih => simp [legibleItems, ih]

theorem legibleFields_iff {fields : List (Text × Dump)} :
    legibleFields fields = true ↔ ∀ f ∈ fields, f.1.isUtf8 = true ∧ f.2.legible = true := by
  induction fields with
  | nil => simp [legibleFields]
  | cons field fields ih => simp [legibleFields, ih, and_assoc]

/-- A field of an object. -/
def renderField (level : Nat) (field : Text × Dump) : Text :=
  quoted field.1 ++ ": " ++ field.2.render level

theorem renderItems_eq (level : Nat) (items : List Dump) :
    renderItems level items = items.map (render level) := by
  induction items with
  | nil => rfl
  | cons item items ih => rw [renderItems, ih, List.map_cons]

theorem renderFields_eq (level : Nat) (fields : List (Text × Dump)) :
    renderFields level fields = fields.map (renderField level) := by
  induction fields with
  | nil => rfl
  | cons field fields ih => rw [renderFields, ih, List.map_cons, renderField]

theorem discerned_renderField {level : Nat} {field field' : Text × Dump}
    (hkey : field.1.isUtf8 = true) (hkey' : field'.1.isUtf8 = true)
    (hvalue : Discerned (render level) field.2 field'.2) :
    Discerned (renderField level) field field' := by
  intro u u' hu hu' h
  rw [renderField, renderField] at h
  simp only [List.append_assoc] at h
  obtain ⟨hname, hrest⟩ := quoted_inj hkey hkey' h
  obtain ⟨hdump, hu⟩ := hvalue u u' hu hu' (List.append_cancel_left hrest)
  exact ⟨Prod.ext hname hdump, hu⟩

/-- Dumps that are written alike at a level of indentation are the same. -/
theorem discerned_render {d d' : Dump} (hd : d.legible = true) (hd' : d'.legible = true)
    (level : Nat) : Discerned (render level) d d' := by
  intro u u' hu hu' h
  -- The first byte settles the form of both, so each case has only one partner.
  have hform := form_eq_of_render h
  induction d using Dump.induction generalizing d' level u u' with
  | null =>
      cases d' with
      | null => exact ⟨rfl, List.append_cancel_left h⟩
      | _ => cases hform
  | boolean b =>
      cases d' with
      | boolean b' =>
          cases b <;> cases b'
          · exact ⟨rfl, List.append_cancel_left h⟩
          · exact absurd (List.cons.inj h).1 (by decide)
          · exact absurd (List.cons.inj h).1 (by decide)
          · exact ⟨rfl, List.append_cancel_left h⟩
      | _ => cases hform
  | integer n =>
      cases d' with
      | integer n' =>
          obtain ⟨rfl, hrest⟩ := discerned_ofInt n n' u u' hu hu' h
          exact ⟨rfl, hrest⟩
      | _ => cases hform
  | string s =>
      cases d' with
      | string s' =>
          obtain ⟨rfl, hrest⟩ := quoted_inj hd hd' h
          exact ⟨rfl, hrest⟩
      | _ => cases hform
  | array items ih =>
      cases d' with
      | array items' =>
          rw [render, render, renderItems_eq, renderItems_eq] at h
          obtain ⟨rfl, hrest⟩ := bracketed_inj (c := 0x5D) (by decide) (fun d hitem d' hitem' =>
            fun v v' hv hv' heq => ih d hitem (legibleItems_iff.mp hd d hitem)
              (legibleItems_iff.mp hd' d' hitem') (level + 1) v v' hv hv' heq
              (form_eq_of_render heq)) h
          exact ⟨rfl, hrest⟩
      | _ => cases hform
  | object fields ih =>
      cases d' with
      | object fields' =>
          rw [render, render, renderFields_eq, renderFields_eq] at h
          obtain ⟨rfl, hrest⟩ := bracketed_inj (c := 0x7D) (by decide) (fun f hfield f' hfield' =>
            discerned_renderField (legibleFields_iff.mp hd f hfield).1
              (legibleFields_iff.mp hd' f' hfield').1
              fun v v' hv hv' heq => ih f hfield (legibleFields_iff.mp hd f hfield).2
                (legibleFields_iff.mp hd' f' hfield').2 (level + 1) v v' hv hv' heq
                (form_eq_of_render heq)) h
          exact ⟨rfl, hrest⟩
      | _ => cases hform

/-- Two dumps with the same text are the same. -/
theorem text_inj {d d' : Dump} (hd : d.legible = true) (hd' : d'.legible = true)
    (h : d.text = d'.text) : d = d' :=
  (discerned_render hd hd' 0 _ _ (noDigit_cons rfl []) (noDigit_cons rfl []) h).1

end Dump

end BlockLang
