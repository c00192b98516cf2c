import Mathlib.Data.List.Forall2
import BlockLang.Proofs.Completion
import BlockLang.Proofs.Evaluation.Vocabulary

/-!
# Sources as the statements of a block

Sources that are programs can be written between braces, each on lines of its own
with semicolons between them. What is between the braces is read as it was read
before, because a line end ends every token but a string that is left open, and no
program has one. So the sources become the statements of a block. A let without
braces would take the statements after it along, so it is none of them.
-/

namespace BlockLang

open Grammar

/-- The source of a block with sources as its statements. -/
def blockOf (sources : List Text) : Text :=
  "\x7b\n" ++ Text.join "\n;\n" sources ++ "\n\x7d"

/-! ## Tokens -/

theorem spelled_newline
    {a : Text} (h : ¬EndsInOpenString a) (b : Text) :
    spelled (a ++ 0x0A :: b) = spelled a ++ spelled b := by
  obtain ⟨us, hus, hspelled⟩ := exists_significant_newline h b
  rw [append_newline] at hus
  rw [spelled, terminals, hus, List.map_append, hspelled]
  rfl

theorem join_cons_cons
    (separator a b : Text) (rest : List Text) :
    Text.join separator (a :: b :: rest) = a ++ (separator ++ Text.join separator (b :: rest)) :=
  rfl

theorem spelled_join
    {source : Text} {sources : List Text} (h : ∀ a ∈ source :: sources, ¬EndsInOpenString a)
    (rest : Text) :
    spelled (Text.join "\n;\n" (source :: sources) ++ 0x0A :: rest) =
      separated .semicolon ((source :: sources).map spelled) ++ spelled rest := by
  induction sources generalizing source with
  | nil =>
      have hjoin : Text.join "\n;\n" [source] = source := List.append_nil source
      rw [hjoin, spelled_newline (h source List.mem_cons_self)]
      simp [separated, preceded]
  | cons next sources ih =>
      obtain ⟨hsource, hrest⟩ := List.forall_mem_cons.mp h
      have hjoin : Text.join "\n;\n" (source :: next :: sources) ++ 0x0A :: rest =
          source ++ 0x0A :: (0x3B :: 0x0A ::
            (Text.join "\n;\n" (next :: sources) ++ 0x0A :: rest)) := by
        rw [join_cons_cons, List.append_assoc, List.append_assoc]
        rfl
      rw [hjoin, spelled_newline hsource, spelled_mark rfl (fun _ => by simp), spelled_space rfl,
        ih hrest]
      simp [separated, preceded]

theorem spelled_blockOf
    {sources : List Text} (hne : sources ≠ []) (h : ∀ a ∈ sources, ¬EndsInOpenString a) :
    spelled (blockOf sources) = braced (sources.map spelled) := by
  obtain ⟨source, sources, rfl⟩ := List.exists_cons_of_ne_nil hne
  have hblock : blockOf (source :: sources) =
      0x7B :: 0x0A :: (Text.join "\n;\n" (source :: sources) ++ 0x0A :: [0x7D]) :=
    List.append_assoc ..
  rw [hblock, spelled_mark rfl (fun _ => by simp), spelled_space rfl, spelled_join h,
    spelled_mark rfl (fun _ => by simp)]
  rfl

/-! ## Statements -/

theorem not_endsInOpenString_of_parse
    {source : Text} {e : Source} (h : parse (scan source) = .ok e) :
    ¬EndsInOpenString source := by
  intro hopen
  obtain ⟨_, _, hfail⟩ := parse_of_not_shifted (hopen.shifted_eq_none Automaton.start)
  have hself := hfail (scan source) [] (List.append_nil _).symm
  cases h.symm.trans hself

/-- Sources that are expressions are the yields of a sequence of phrases. -/
theorem exists_phrases
    {sources : List Text} {es : List Source}
    (h : List.Forall₂ (fun source e => parse (scan source) = .ok e) sources es) :
    ∃ d : Phrases, d.yields = sources.map spelled ∧ d.values = es := by
  induction h with
  | nil => exact ⟨.nil, rfl, rfl⟩
  | cons he _ ih =>
      obtain ⟨⟨b, p⟩, hyield, rfl⟩ := parse_eq_ok_iff_exists.mp he
      obtain ⟨d, hyields, rfl⟩ := ih
      refine ⟨.cons p d, ?_, rfl⟩
      rw [List.map_cons, ← hyields, spelled, ← hyield]
      rfl

theorem parse_blockOf
    {sources : List Text} {es : List Source} (hne : sources ≠ [])
    (h : List.Forall₂ (fun source e => parse (scan source) = .ok e) sources es) :
    parse (scan (blockOf sources)) = .ok (.block () es) := by
  have hclosed : ∀ a ∈ sources, ¬EndsInOpenString a := by
    clear hne
    induction h with
    | nil => simp
    | cons he _ ih => exact List.forall_mem_cons.mpr ⟨not_endsInOpenString_of_parse he, ih⟩
  obtain ⟨d, hyields, rfl⟩ := exists_phrases h
  refine parse_eq_ok_iff_exists.mpr ⟨⟨false, .simple (.mk (.block d) .nil)⟩, ?_, rfl⟩
  have hterminals := spelled_blockOf hne hclosed
  rw [spelled] at hterminals
  rw [hterminals, ← hyields]
  exact List.append_nil _

/-- Statements that are lifted on their own are lifted so in a block, if none of
them is a let without braces. -/
theorem liftBlock_eq
    {es es' : List Source} (h : List.Forall₂ (fun e e' => e.lift = (e', none)) es es')
    (hopen : ∀ e ∈ es, e.isOpenLet = false) :
    Expr.liftBlock es = (es', none) := by
  induction h with
  | nil => rfl
  | cons he _ ih =>
      obtain ⟨hhead, hrest⟩ := List.forall_mem_cons.mp hopen
      rw [Expr.liftBlock_cons hhead, he, ih hrest]

theorem exists_of_forall₂_compile
    {sources : List Text} {es : List Source}
    (h : List.Forall₂ (fun source e => compile source = .ok e) sources es)
    (hopen : ∀ source ∈ sources, ∀ e, parse (scan source) = .ok e → e.isOpenLet = false) :
    ∃ es₀ : List Source,
      List.Forall₂ (fun source e => parse (scan source) = .ok e) sources es₀ ∧
      List.Forall₂ (fun e e' => e.lift = (e', none)) es₀ es ∧
      ∀ e ∈ es₀, e.isOpenLet = false := by
  induction h with
  | nil => exact ⟨[], .nil, .nil, by simp⟩
  | cons hcompile _ ih =>
      obtain ⟨hhead, hrest⟩ := List.forall_mem_cons.mp hopen
      obtain ⟨e, hparse, hlift⟩ := exists_of_compile hcompile
      obtain ⟨es₀, hparses, hlifts, hopen⟩ := ih hrest
      exact ⟨e :: es₀, .cons hparse hparses, .cons hlift hlifts,
        List.forall_mem_cons.mpr ⟨hhead e hparse, hopen⟩⟩

/-- Programs between braces are the block of these programs. -/
theorem compile_blockOf
    {sources : List Text} {es : List Source} (hne : sources ≠ [])
    (h : List.Forall₂ (fun source e => compile source = .ok e) sources es)
    (hopen : ∀ source ∈ sources, ∀ e, parse (scan source) = .ok e → e.isOpenLet = false) :
    compile (blockOf sources) = .ok (.block () es) := by
  obtain ⟨es₀, hparses, hlifts, hopen⟩ := exists_of_forall₂_compile h hopen
  have hlift : (Expr.block () es₀).lift = (.block () es, none) := by
    rw [Expr.lift, liftBlock_eq hlifts hopen]
  rw [compile, parse_blockOf hne hparses]
  dsimp only
  rw [hlift]

end BlockLang
