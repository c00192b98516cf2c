import BlockLang.Proofs.Dumps
import BlockLang.Proofs.Evaluation.Vocabulary

/-!
# Dumps of trees

The dump of a tree determines the tree. The type in the dump of a node names its form,
and the other fields hold all its parts. What the outline of a tree leaves out is the
label of a node, which a tree that was read does not have, and the wiring of a
procedure, which is not found in such a tree. So two trees that were read are the same
if their dumps are written alike, provided that their names and strings are UTF-8.
-/

namespace BlockLang

/-! ## The names and strings of a tree -/

theorem Text.isUtf8_ofString (s : String) : Text.isUtf8 s = true := by
  have hpieces : Text.pieces s = s.toList.map .char := Text.pieces_ofChars s.toList
  rw [Text.isUtf8, hpieces, List.all_map]
  exact List.all_eq_true.mpr fun _ _ => rfl

theorem Shape.isUtf8_tag (shape : Shape) : shape.tag.isUtf8 = true := by
  cases shape <;> exact Text.isUtf8_ofString _

/-- The fields of a node are legible if its parts are. -/
theorem Shape.legible_fields (shape : Shape) {parts : List Dump}
    (h : Dump.legibleItems parts = true) :
    Dump.legibleFields (shape.fields parts) = true := by
  unfold Shape.fields
  split <;>
    simp_all [Dump.legibleFields, Dump.legible, Dump.legibleItems, Text.isUtf8_ofString,
      Shape.isUtf8_tag]

namespace Outline

mutual

/-- The names and the strings in a tree. -/
def texts : Outline → List Text
  | string s => [s]
  | identifier x => [x]
  | procedure name => [name]
  | node _ parts => textsAll parts
  | hole | integer _ | boolean _ | placeholder => []

/-- The names and the strings in a list of trees. -/
def textsAll : List Outline → List Text
  | [] => []
  | o :: os => texts o ++ textsAll os

end

mutual

theorem legible_dump : ∀ o : Outline, (∀ s ∈ o.texts, s.isUtf8 = true) → o.dump.legible = true
  | hole, _ => rfl
  | integer _, _ | boolean _, _ | placeholder, _ => by
      simp [dump, Dump.legible, Dump.legibleFields, Text.isUtf8_ofString]
  | string s, h | identifier s, h | procedure s, h => by
      have hs : s.isUtf8 = true := h s (List.mem_singleton.mpr rfl)
      simp [dump, Dump.legible, Dump.legibleFields, Text.isUtf8_ofString, hs]
  | node shape parts, h => by
      rw [dump, Dump.legible]
      exact shape.legible_fields (legible_dumpAll parts h)

theorem legible_dumpAll :
    ∀ os : List Outline, (∀ s ∈ textsAll os, s.isUtf8 = true) →
      Dump.legibleItems (dumpAll os) = true
  | [], _ => rfl
  | o :: os, h => by
      have ho := legible_dump o fun s hs => h s (List.mem_append_left _ hs)
      have hos := legible_dumpAll os fun s hs => h s (List.mem_append_right _ hs)
      rw [dumpAll, Dump.legibleItems, ho, hos, Bool.and_true]

end

/-! ## The form of a node -/

/-- The form of an outline, without its parts. -/
inductive Form where
  | hole
  | integer
  | string
  | boolean
  | identifier
  | procedure
  | placeholder
  | node (shape : Shape)

/-- The form of an outline. -/
def form : Outline → Form
  | hole => .hole
  | integer _ => .integer
  | string _ => .string
  | boolean _ => .boolean
  | identifier _ => .identifier
  | procedure _ => .procedure
  | placeholder => .placeholder
  | node shape _ => .node shape

/-- The forms by the type in their dumps. -/
def forms : List (Text × Form) :=
  [("Integer", .integer), ("String", .string), ("Boolean", .boolean),
    ("Identifier", .identifier), ("Procedure", .procedure), ("Dummy", .placeholder),
    ("Parameters", .node .parameters), ("Lambda", .node .lambda), ("Block", .node .block),
    ("Clause", .node .clause), ("Cond", .node .cond), ("Let", .node .letIn),
    ("Def", .node .define), ("Assignment", .node .assign), ("Application", .node .apply),
    ("List", .node .list)]

/-- The form that the type of a dump names. -/
def formOfType? : Option Dump → Option Form
  | some (.string type) => forms.lookup type
  | _ => none

/-- The form of the outlines with a given dump. -/
def formOfDump? : Dump → Option Form
  | .null => some .hole
  | .object fields => formOfType? (fields.lookup ("type" : Text))
  | _ => none

theorem lookup_type_fields (shape : Shape) (parts : List Dump) :
    (shape.fields parts).lookup ("type" : Text) = some (.string shape.tag) := by
  unfold Shape.fields
  split <;> rfl

theorem lookup_tag (shape : Shape) : forms.lookup shape.tag = some (.node shape) := by
  cases shape <;> rfl

theorem formOfDump?_dump (o : Outline) : formOfDump? o.dump = some o.form := by
  cases o with
  | node shape parts =>
      rw [dump, formOfDump?, lookup_type_fields, formOfType?, lookup_tag, form]
  | _ => rfl

theorem form_eq_of_dump {o o' : Outline} (h : o.dump = o'.dump) : o.form = o'.form :=
  Option.some.inj (by rw [← formOfDump?_dump o, ← formOfDump?_dump o', h])

end Outline

/-! ## The parts of a node -/

/-- Whether a node of a form has a number of parts. -/
def Shape.takes : Shape → Nat → Bool
  | lambda, n | clause, n | define, n | assign, n => n == 2
  | letIn, n => n == 3
  | apply, n => n != 0
  | parameters, _ | block, _ | cond, _ | list, _ => true

/-- The fields of a node hold all its parts. -/
theorem Shape.parts_eq_of_fields {shape : Shape} {parts parts' : List Dump}
    (hparts : shape.takes parts.length = true) (hparts' : shape.takes parts'.length = true)
    (h : shape.fields parts = shape.fields parts') : parts = parts' := by
  cases shape with
  | parameters | block | cond | list => simpa [fields] using h
  | lambda | clause | define | assign =>
      obtain ⟨a, b, rfl⟩ := List.length_eq_two.mp (beq_iff_eq.mp hparts)
      obtain ⟨a', b', rfl⟩ := List.length_eq_two.mp (beq_iff_eq.mp hparts')
      simpa [fields, and_comm] using h
  | letIn =>
      obtain ⟨a, b, c, rfl⟩ := List.length_eq_three.mp (beq_iff_eq.mp hparts)
      obtain ⟨a', b', c', rfl⟩ := List.length_eq_three.mp (beq_iff_eq.mp hparts')
      simpa [fields, and_comm, and_assoc] using h
  | apply =>
      cases parts with
      | nil => cases hparts
      | cons a as =>
          cases parts' with
          | nil => cases hparts'
          | cons a' as' => simpa [fields, and_comm] using h

namespace Outline

theorem dumpAll_eq_map (os : List Outline) : dumpAll os = os.map dump := by
  induction os with
  | nil => rfl
  | cons o os ih => rw [dumpAll, ih, List.map_cons]

theorem dumpAll_eq_of_dump {shape : Shape} {parts parts' : List Outline}
    (hparts : shape.takes parts.length = true) (hparts' : shape.takes parts'.length = true)
    (h : (node shape parts).dump = (node shape parts').dump) :
    dumpAll parts = dumpAll parts' := by
  refine Shape.parts_eq_of_fields ?_ ?_ (Dump.object.inj h)
  · rw [dumpAll_eq_map, List.length_map, hparts]
  · rw [dumpAll_eq_map, List.length_map, hparts']

theorem names_eq_of_dump {xs ys : List Text}
    (h : (node .parameters (xs.map identifier)).dump =
      (node .parameters (ys.map identifier)).dump) : xs = ys := by
  have hnames := dumpAll_eq_of_dump rfl rfl h
  rw [dumpAll_eq_map, dumpAll_eq_map, List.map_map, List.map_map] at hnames
  refine (List.map_inj_right fun x y hxy => ?_).mp hnames
  simpa [dump] using hxy

theorem name_eq_of_dump {x y : Text} (h : (identifier x).dump = (identifier y).dump) : x = y := by
  simpa [dump] using h

end Outline

/-- A vocabulary in which every procedure is wired. -/
def Head.AllWired (p : Head → Bool) : Prop :=
  ∀ name, p (.procedure name false) = false

namespace Expr

variable {p q : Head → Bool}

theorem wired_of_within
    (hp : Head.AllWired p) {name : Text} {wired : Bool}
    (h : (procedure () name wired : Source).within p) :
    wired = true := by
  cases wired with
  | false => exact absurd h (by simp [within, hp name])
  | true => rfl

-- The induction is on the first tree. The type in the common dump leaves one form for the
-- second tree, and the dumps of the parts are equal by the lemma on the fields of a node.

mutual

theorem eq_of_dump (hp : Head.AllWired p) (hq : Head.AllWired q) :
    ∀ e e' : Source, e.within p → e'.within q → e.outline.dump = e'.outline.dump → e = e'
  | integer n, e', _, _, h => by
      cases e' with
      | integer n' => simpa [outline, Outline.dump, Int64.toInt_inj] using h
      | _ => cases Outline.form_eq_of_dump h
  | string s, e', _, _, h => by
      cases e' with
      | string s' => simpa [outline, Outline.dump] using h
      | _ => cases Outline.form_eq_of_dump h
  | boolean b, e', _, _, h => by
      cases e' with
      | boolean b' => simpa [outline, Outline.dump] using h
      | _ => cases Outline.form_eq_of_dump h
  | identifier x, e', _, _, h => by
      cases e' with
      | identifier x' => rw [Outline.name_eq_of_dump h]
      | _ => cases Outline.form_eq_of_dump h
  | placeholder, e', _, _, h => by
      cases e' with
      | placeholder => rfl
      | _ => cases Outline.form_eq_of_dump h
  | absent, e', _, _, h => by
      cases e' with
      | absent => rfl
      | _ => cases Outline.form_eq_of_dump h
  | parameters i xs, e', _, _, h => by
      cases e' with
      | parameters i' xs' => rw [Outline.names_eq_of_dump h]
      | _ => cases Outline.form_eq_of_dump h
  | lambda i xs body, e', hin, hin', h => by
      cases e' with
      | lambda i' xs' body' =>
          have hbody := eqAll_of_dump hp hq body body'
          have hparts := Outline.dumpAll_eq_of_dump rfl rfl h
          simp only [Outline.dumpAll, List.cons.injEq] at hparts
          simp only [within, Bool.and_eq_true] at hin hin'
          rw [Outline.names_eq_of_dump hparts.1,
            hbody hin.2 hin'.2 (Outline.dumpAll_eq_of_dump rfl rfl hparts.2.1)]
      | _ => cases Outline.form_eq_of_dump h
  | block i es, e', hin, hin', h => by
      cases e' with
      | block i' es' =>
          have hes := eqAll_of_dump hp hq es es'
          simp only [within, Bool.and_eq_true] at hin hin'
          rw [hes hin.2 hin'.2 (Outline.dumpAll_eq_of_dump rfl rfl h)]
      | _ => cases Outline.form_eq_of_dump h
  | clause i test result, e', hin, hin', h => by
      cases e' with
      | clause i' test' result' =>
          have htest := eq_of_dump hp hq test test'
          have hresult := eq_of_dump hp hq result result'
          have hparts := Outline.dumpAll_eq_of_dump rfl rfl h
          simp only [Outline.dumpAll, List.cons.injEq] at hparts
          simp only [within, Bool.and_eq_true] at hin hin'
          rw [htest hin.1.2 hin'.1.2 hparts.1, hresult hin.2 hin'.2 hparts.2.1]
      | _ => cases Outline.form_eq_of_dump h
  | cond i clauses, e', hin, hin', h => by
      cases e' with
      | cond i' clauses' =>
          have hclauses := eqClauses_of_dump hp hq clauses clauses'
          simp only [within, Bool.and_eq_true] at hin hin'
          rw [hclauses hin.2 hin'.2 (Outline.dumpAll_eq_of_dump rfl rfl h)]
      | _ => cases Outline.form_eq_of_dump h
  | letIn i x value body, e', hin, hin', h => by
      cases e' with
      | letIn i' x' value' body' =>
          have hvalue := eq_of_dump hp hq value value'
          have hbody := eqAll_of_dump hp hq body body'
          have hparts := Outline.dumpAll_eq_of_dump rfl rfl h
          simp only [Outline.dumpAll, List.cons.injEq] at hparts
          simp only [within, Bool.and_eq_true] at hin hin'
          rw [Outline.name_eq_of_dump hparts.1, hvalue hin.1.2 hin'.1.2 hparts.2.1,
            hbody hin.2 hin'.2 (Outline.dumpAll_eq_of_dump rfl rfl hparts.2.2.1)]
      | _ => cases Outline.form_eq_of_dump h
  | define i x value, e', hin, hin', h => by
      cases e' with
      | define i' x' value' =>
          have hvalue := eq_of_dump hp hq value value'
          have hparts := Outline.dumpAll_eq_of_dump rfl rfl h
          simp only [Outline.dumpAll, List.cons.injEq] at hparts
          simp only [within, Bool.and_eq_true] at hin hin'
          rw [Outline.name_eq_of_dump hparts.1, hvalue hin.2 hin'.2 hparts.2.1]
      | _ => cases Outline.form_eq_of_dump h
  | assign i x value, e', hin, hin', h => by
      cases e' with
      | assign i' x' value' =>
          have hvalue := eq_of_dump hp hq value value'
          have hparts := Outline.dumpAll_eq_of_dump rfl rfl h
          simp only [Outline.dumpAll, List.cons.injEq] at hparts
          simp only [within, Bool.and_eq_true] at hin hin'
          rw [Outline.name_eq_of_dump hparts.1, hvalue hin.2 hin'.2 hparts.2.1]
      | _ => cases Outline.form_eq_of_dump h
  | apply i operator operands, e', hin, hin', h => by
      cases e' with
      | apply i' operator' operands' =>
          have hoperator := eq_of_dump hp hq operator operator'
          have hoperands := eqAll_of_dump hp hq operands operands'
          have hparts := Outline.dumpAll_eq_of_dump rfl rfl h
          simp only [Outline.dumpAll, List.cons.injEq] at hparts
          simp only [within, Bool.and_eq_true] at hin hin'
          rw [hoperator hin.1.2 hin'.1.2 hparts.1, hoperands hin.2 hin'.2 hparts.2]
      | _ => cases Outline.form_eq_of_dump h
  | procedure i name wired, e', hin, hin', h => by
      cases e' with
      | procedure i' name' wired' =>
          have hname : name = name' := by simpa [outline, Outline.dump] using h
          rw [hname, wired_of_within hp hin, wired_of_within hq hin']
      | _ => cases Outline.form_eq_of_dump h
  | list i elements, e', hin, hin', h => by
      cases e' with
      | list i' elements' =>
          have helements := eqAll_of_dump hp hq elements elements'
          simp only [within, Bool.and_eq_true] at hin hin'
          rw [helements hin.2 hin'.2 (Outline.dumpAll_eq_of_dump rfl rfl h)]
      | _ => cases Outline.form_eq_of_dump h
termination_by structural e => e

theorem eqAll_of_dump (hp : Head.AllWired p) (hq : Head.AllWired q) :
    ∀ es es' : List Source, withinAll p es → withinAll q es' →
      Outline.dumpAll (outlines es) = Outline.dumpAll (outlines es') → es = es'
  | [], es', _, _, h => by
      cases es' with
      | nil => rfl
      | cons e' es' => cases h
  | e :: es, es', hin, hin', h => by
      cases es' with
      | nil => cases h
      | cons e' es' =>
          have he := eq_of_dump hp hq e e'
          have hes := eqAll_of_dump hp hq es es'
          simp only [withinAll, Bool.and_eq_true] at hin hin'
          simp only [outlines, Outline.dumpAll, List.cons.injEq] at h
          rw [he hin.1 hin'.1 h.1, hes hin.2 hin'.2 h.2]
termination_by structural es => es

theorem eqClauses_of_dump (hp : Head.AllWired p) (hq : Head.AllWired q) :
    ∀ cs cs' : List (Source × Source), withinClauses p cs → withinClauses q cs' →
      Outline.dumpAll (clauseOutlines cs) = Outline.dumpAll (clauseOutlines cs') → cs = cs'
  | [], cs', _, _, h => by
      cases cs' with
      | nil => rfl
      | cons c' cs' => cases h
  | (test, result) :: cs, cs', hin, hin', h => by
      cases cs' with
      | nil => cases h
      | cons c' cs' =>
          obtain ⟨test', result'⟩ := c'
          have htest := eq_of_dump hp hq test test'
          have hresult := eq_of_dump hp hq result result'
          have hcs := eqClauses_of_dump hp hq cs cs'
          obtain ⟨hclause, hrest⟩ := List.cons.inj h
          have hparts := Outline.dumpAll_eq_of_dump rfl rfl hclause
          simp only [Outline.dumpAll, List.cons.injEq] at hparts
          simp only [withinClauses, Bool.and_eq_true] at hin hin'
          rw [htest hin.1.1 hin'.1.1 hparts.1, hresult hin.1.2 hin'.1.2 hparts.2.1,
            hcs hin.2 hin'.2 hrest]
termination_by structural cs => cs

end

end Expr

/-! ## Trees that were read -/

/-- Trees that come from parsing tokens or from compiling a source. -/
inductive WasRead : Source → Prop where
  | parsed {tokens : List Token} {e : Source} (h : parse tokens = .ok e) : WasRead e
  | compiled {source : Text} {e : Source} (h : compile source = .ok e) : WasRead e

theorem WasRead.exists_within {e : Source} (h : WasRead e) :
    ∃ p, Head.AllWired p ∧ e.within p := by
  cases h with
  | parsed hparse =>
      -- What is read still has the placeholders that lifting does away with.
      obtain ⟨d, -, rfl⟩ := parse_eq_ok_iff_exists.mp hparse
      exact ⟨_, fun _ => rfl, d.2.within_value⟩
  | compiled hcompile => exact ⟨_, fun _ => rfl, within_of_compile hcompile⟩

/-- The dump determines the tree: two trees that were read are the same if the texts of
their dumps are, provided that their names and strings are UTF-8. -/
theorem json_determines_tree
    {e e' : Source} (he : WasRead e) (he' : WasRead e')
    (hutf8 : ∀ s ∈ e.outline.texts, s.isUtf8 = true)
    (hutf8' : ∀ s ∈ e'.outline.texts, s.isUtf8 = true)
    (h : e.json = e'.json) :
    e = e' := by
  obtain ⟨p, hp, hin⟩ := he.exists_within
  obtain ⟨q, hq, hin'⟩ := he'.exists_within
  have hdump : e.outline.dump = e'.outline.dump :=
    Dump.text_inj (Outline.legible_dump _ hutf8) (Outline.legible_dump _ hutf8') h
  exact Expr.eq_of_dump hp hq e e' hin hin' hdump

/-- A let with an escape and a line separator in its string. -/
def printedLet : Source :=
  .block ()
    [.letIn () "s" (.string "a\"\n\u2028<")
      [.apply () (.identifier "print") [.identifier "s", .integer (-7)]]]

/-- A let that takes over the rest of its block and a let with braces have the same dump,
and they are the same tree. -/
theorem json_determines_printedLet :
    ∃ e e' : Source,
      compile "\x7b let s = \"a\\\"\\n\u2028<\"; print(s, -7) \x7d" = .ok e ∧
      parse (scan "\x7b let s = \"a\\\"\\n\u2028<\" \x7b print(s, -7) \x7d \x7d") = .ok e' ∧
      (∀ s ∈ e.outline.texts, s.isUtf8 = true) ∧ (∀ s ∈ e'.outline.texts, s.isUtf8 = true) ∧
      e.json = e'.json ∧ e = e' := by
  have hcompile :
      compile "\x7b let s = \"a\\\"\\n\u2028<\"; print(s, -7) \x7d" = .ok printedLet := rfl
  have hparse :
      parse (scan "\x7b let s = \"a\\\"\\n\u2028<\" \x7b print(s, -7) \x7d \x7d") =
        .ok printedLet := rfl
  have hutf8 : ∀ s ∈ printedLet.outline.texts, s.isUtf8 = true := by decide +kernel
  exact ⟨printedLet, printedLet, hcompile, hparse, hutf8, hutf8, rfl,
    json_determines_tree (.compiled hcompile) (.parsed hparse) hutf8 hutf8 rfl⟩

end BlockLang
