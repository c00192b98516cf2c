import BlockLang.Prompt

/-!
# Lines at the prompt

What is typed at the prompt is never lost, doubled or mixed up. An account of a reading
says where its lines have gone: stretches of lines that were given up, and the lines
that were pending when the reading came to its end. The accounts of one reading after
the other make up what was typed. The reader keeps no more of the pending lines than
their text, and this is enough: a line that is kept asks for another one, so the text is
empty only if no line is pending.
-/

namespace BlockLang

theorem Text.join_concat {lines : List Text} (h : lines ≠ []) (separator line : Text) :
    Text.join separator (lines ++ [line]) = Text.join separator lines ++ separator ++ line := by
  induction lines with
  | nil => exact absurd rfl h
  | cons first rest ih =>
      cases rest with
      | nil => simp [Text.join]
      | cons second rest =>
          have hrest := ih (List.cons_ne_nil second rest)
          simp only [Text.join, List.cons_append, List.intersperse_cons_cons, List.flatten_cons,
            List.append_assoc] at hrest ⊢
          rw [hrest]

/-! ## Texts that ask for more -/

/-- A text asks for another line: it is not blank, it is no command, and as an
expression it is incomplete. -/
structure AsksForMore (text : Text) : Prop where
  not_blank : Text.trim text ≠ []
  not_command : isCommand text = false
  incomplete : ∃ err, parse (scan text) = .error err ∧ err.incomplete = true

/-- A text is an input as it is: it is blank, or a command, or no incomplete
expression. -/
def IsInput (text : Text) : Prop :=
  Text.trim text = [] ∨ isCommand text = true ∨
    ∀ err, parse (scan text) = .error err → err.incomplete = false

theorem asksForMore_of_wantsMore {text : Text} (h : wantsMore text = true) :
    AsksForMore text := by
  simp only [wantsMore, Bool.and_eq_true, Bool.not_eq_true', List.isEmpty_eq_false_iff] at h
  obtain ⟨⟨hcommand, hunfinished⟩, hblank⟩ := h
  refine ⟨hblank, hcommand, ?_⟩
  unfold isUnfinished at hunfinished
  split at hunfinished
  · cases hunfinished
  · exact ⟨_, ‹_›, hunfinished⟩

theorem isInput_of_not_wantsMore {text : Text} (h : wantsMore text ≠ true) : IsInput text := by
  unfold IsInput
  by_cases hblank : Text.trim text = []
  · exact .inl hblank
  by_cases hcommand : isCommand text = true
  · exact .inr (.inl hcommand)
  refine .inr (.inr fun err herr => Bool.eq_false_iff.mpr fun hincomplete => h ?_)
  have hunfinished : isUnfinished text = true := by
    rw [isUnfinished, herr]
    exact hincomplete
  simp [wantsMore, hblank, hcommand, hunfinished]

namespace Prompt

/-! ## Accounts -/

/-- The text of lines that are pending. -/
def textOf (lines : List Text) : Text :=
  Text.join "\n" lines

/-- How a reading comes to its end: the pending lines are handed over, at once or at the
end of what is typed, or the prompt breaks down, or what is typed ends and no line is
pending. -/
inductive Ending where
  | handed
  | cutOff
  | broken
  | ended
  deriving DecidableEq

/-- Where the lines of a reading have gone: stretches of lines that were given up one
after the other, and the lines that were pending at the end. -/
structure Account where
  dropped : List (List Text)
  lines : List Text
  ending : Ending

namespace Account

/-- What was typed. -/
def typed (a : Account) : List Typed :=
  a.dropped.flatMap (fun lines => lines.map .line ++ [.abort]) ++ a.lines.map .line ++
    if a.ending = .broken then [.broken] else []

/-- The input that was read. -/
def input (a : Account) : Option Text :=
  if a.ending = .handed ∨ a.ending = .cutOff then some (textOf a.lines) else none

/-- The prompts for the first `n` answers of a stretch, in which every answer but the
last is a line: all but the first prompt are shown while lines are pending. -/
def promptsFor (n : Nat) : List Prompt :=
  (List.range n).map fun pending => if pending = 0 then .first else .further

/-- The prompts that were shown. There is one more than lines, unless the last line has
been handed over at once. -/
def prompts (a : Account) : List Prompt :=
  a.dropped.flatMap (fun lines => promptsFor (lines.length + 1)) ++
    promptsFor (a.lines.length + if a.ending = .handed then 0 else 1)

end Account

/-- Lines that are kept: whichever of them have been typed ask for another one. -/
def Kept (lines : List Text) : Prop :=
  ∀ shown, shown <+: lines → shown ≠ [] → AsksForMore (textOf shown)

/-- An account that holds together. Lines were given up only while they were pending.
Of the other lines each beginning asks for another line. All of them do so as well,
unless they were handed over at once, which is done only with an input. What is typed
has come to its end where an account says so. -/
structure Account.Sound (a : Account) (rest : List Typed) : Prop where
  dropped : ∀ lines ∈ a.dropped, Kept lines
  begun : ∀ shown, shown <+: a.lines → shown ≠ [] → shown ≠ a.lines → AsksForMore (textOf shown)
  handed : a.ending = .handed → a.lines ≠ [] ∧ IsInput (textOf a.lines)
  pending : a.ending ≠ .handed → Kept a.lines
  cutOff : a.ending = .cutOff → a.lines ≠ [] ∧ rest = []
  ended : a.ending = .ended → a.lines = [] ∧ rest = []

/-- An account tells all about a reading of what is typed. -/
structure Account.Explains (a : Account) (typed : List Typed) (r : Reading) : Prop where
  typed : typed = a.typed ++ r.rest
  input : r.input = a.input
  prompts : r.prompts = a.prompts
  sound : a.Sound r.rest

/-! ## Lines that are kept -/

theorem kept_nil : Kept [] :=
  fun _ hshown hne => absurd (List.prefix_nil.mp hshown) hne

theorem Kept.concat {lines : List Text} {line : Text} (h : Kept lines)
    (hline : AsksForMore (textOf (lines ++ [line]))) : Kept (lines ++ [line]) := by
  intro shown hshown hne
  rcases List.prefix_concat_iff.mp hshown with rfl | hshown
  · exact hline
  · exact h shown hshown hne

/-- The text of lines that are kept is empty only if there are none. -/
theorem Kept.textOf_isEmpty {lines : List Text} (h : Kept lines) :
    (textOf lines).isEmpty = lines.isEmpty := by
  cases lines with
  | nil => rfl
  | cons line rest =>
      have hblank := (h _ (List.prefix_refl _) (List.cons_ne_nil line rest)).not_blank
      cases htext : textOf (line :: rest) with
      | nil => exact absurd (congrArg Text.trim htext) hblank
      | cons b text => rfl

theorem Kept.extend_textOf {lines : List Text} (h : Kept lines) (line : Text) :
    extend (textOf lines) line = textOf (lines ++ [line]) := by
  unfold extend
  rw [h.textOf_isEmpty]
  cases lines with
  | nil => simp [textOf, Text.join]
  | cons first rest => exact (Text.join_concat (List.cons_ne_nil first rest) "\n" line).symm

theorem Kept.promptsFor_succ {lines : List Text} (h : Kept lines) :
    Account.promptsFor (lines.length + 1) =
      Account.promptsFor lines.length ++ [pendingOn (textOf lines)] := by
  unfold pendingOn
  rw [h.textOf_isEmpty, Account.promptsFor, List.range_succ, List.map_append, List.map_singleton,
    ← Account.promptsFor]
  cases lines <;> rfl

/-! ## One reading -/

/-- A reading that has begun with some lines, each of which has been prompted for. -/
def begunWith (lines : List Text) (r : Reading) : Reading :=
  { r with prompts := Account.promptsFor lines.length ++ r.prompts }

theorem Kept.begunWith_concat {lines : List Text} (h : Kept lines) (line : Text) (r : Reading) :
    begunWith (lines ++ [line]) r = begunWith lines (r.after (pendingOn (textOf lines))) := by
  simp [begunWith, Reading.after, h.promptsFor_succ]

/-- A reading that ends while lines are pending. -/
theorem Kept.explains_pending
    {lines : List Text} (h : Kept lines) (ending : Ending) {rest : List Typed}
    (hending : ending ≠ .handed) (hcutOff : ending = .cutOff → lines ≠ [] ∧ rest = [])
    (hended : ending = .ended → lines = [] ∧ rest = []) :
    Account.Explains ⟨[], lines, ending⟩
      (lines.map .line ++ ((if ending = .broken then [.broken] else []) ++ rest))
      (begunWith lines
        ⟨Account.input ⟨[], lines, ending⟩, [pendingOn (textOf lines)], rest⟩) := by
  constructor
  · simp [Account.typed, begunWith]
  · rfl
  · simp [Account.prompts, begunWith, hending, h.promptsFor_succ]
  · exact ⟨nofun, fun shown hshown hne _ => h shown hshown hne, fun heq => absurd heq hending,
      fun _ => h, hcutOff, hended⟩

/-- A reading that ends with a line. -/
theorem Kept.explains_handed
    {lines : List Text} (h : Kept lines) {line : Text} (hinput : IsInput (textOf (lines ++ [line])))
    (rest : List Typed) :
    Account.Explains ⟨[], lines ++ [line], .handed⟩ (lines.map .line ++ .line line :: rest)
      (begunWith lines ⟨some (textOf (lines ++ [line])), [pendingOn (textOf lines)], rest⟩) := by
  constructor
  · simp [Account.typed, begunWith]
  · rfl
  · simp [Account.prompts, begunWith, ← h.promptsFor_succ]
  · refine ⟨nofun, fun shown hshown hne hproper => ?_, fun _ => ⟨by simp, hinput⟩,
      fun hne => absurd rfl hne, nofun, nofun⟩
    rcases List.prefix_concat_iff.mp hshown with rfl | hshown
    · exact absurd rfl hproper
    · exact h shown hshown hne

/-- A reading that goes on after its lines have been given up. -/
theorem Account.Explains.abort
    {a : Account} {typed : List Typed} {r : Reading} (ha : a.Explains typed r)
    {lines : List Text} (h : Kept lines) :
    Account.Explains { a with dropped := lines :: a.dropped }
      (lines.map .line ++ .abort :: typed)
      (begunWith lines (r.after (pendingOn (textOf lines)))) := by
  constructor
  · simp [Account.typed, begunWith, Reading.after, ha.typed]
  · exact ha.input
  · simp [Account.prompts, begunWith, Reading.after, ha.prompts, h.promptsFor_succ]
  · have hsound := ha.sound
    exact ⟨List.forall_mem_cons.mpr ⟨h, hsound.dropped⟩, hsound.begun, hsound.handed,
      hsound.pending, hsound.cutOff, hsound.ended⟩

/-- A reading that has begun with lines that are kept has an account. -/
theorem exists_explains_of_kept {lines : List Text} (h : Kept lines) (typed : List Typed) :
    ∃ a : Account, a.Explains (lines.map .line ++ typed)
      (begunWith lines (readFrom (textOf lines) typed)) := by
  induction typed generalizing lines with
  | nil =>
      rw [readFrom, h.textOf_isEmpty]
      cases lines with
      | nil => exact ⟨_, h.explains_pending .ended (by decide) (by simp) fun _ => ⟨rfl, rfl⟩⟩
      | cons line rest =>
          have hne := List.cons_ne_nil line rest
          exact ⟨_, h.explains_pending .cutOff (by decide) (fun _ => ⟨hne, rfl⟩) (by simp)⟩
  | cons t rest ih =>
      cases t with
      | broken => exact ⟨_, h.explains_pending .broken (by decide) (by simp) (by simp)⟩
      | abort =>
          obtain ⟨a, ha⟩ := ih kept_nil
          exact ⟨_, ha.abort h⟩
      | line line =>
          rw [readFrom, h.extend_textOf]
          by_cases hwants : wantsMore (textOf (lines ++ [line])) = true
          · obtain ⟨a, ha⟩ := ih (h.concat (asksForMore_of_wantsMore hwants))
            rw [if_pos hwants, ← h.begunWith_concat line]
            exact ⟨a, by simpa using ha⟩
          · rw [if_neg hwants]
            exact ⟨_, h.explains_handed (isInput_of_not_wantsMore hwants) rest⟩

theorem exists_explains_readInput (typed : List Typed) :
    ∃ a : Account, a.Explains typed (readInput typed) :=
  exists_explains_of_kept kept_nil typed

/-! ## One reading after the other -/

/-- Every line that is typed is accounted for. Reading input after input, what has been
typed is what the accounts of these readings tell, one after the other, and the rest has
not been read. So an input is made of the lines right after the last input, the last
abort or the last failure of the prompt, and of no others. -/
theorem readInputs_accounted (n : Nat) (typed : List Typed) :
    (readInputs n typed).length = n ∧
      ∃ accounts : List Account, accounts.length = n ∧
        ∀ k r, (readInputs n typed)[k]? = some r →
          ∃ a, accounts[k]? = some a ∧
            typed = (accounts.take (k + 1)).flatMap Account.typed ++ r.rest ∧
            r.input = a.input ∧ r.prompts = a.prompts ∧ a.Sound r.rest := by
  induction n generalizing typed with
  | zero => exact ⟨rfl, [], rfl, nofun⟩
  | succ n ih =>
      obtain ⟨a, ha⟩ := exists_explains_readInput typed
      obtain ⟨hlength, accounts, haccounts, hall⟩ := ih (readInput typed).rest
      refine ⟨congrArg (· + 1) hlength, a :: accounts, congrArg (· + 1) haccounts, ?_⟩
      rintro (_ | k) r hr
      · obtain rfl : readInput typed = r := Option.some.inj hr
        exact ⟨a, rfl, by simpa using ha.typed, ha.input, ha.prompts, ha.sound⟩
      · obtain ⟨a', ha', htyped, hrest⟩ := hall k r hr
        refine ⟨a', ha', ?_, hrest⟩
        rw [List.take_succ_cons, List.flatMap_cons, List.append_assoc, ← htyped]
        exact ha.typed

/-- Five readings: of two lines after one that was given up, of a command, of a line that
the failing prompt loses, of a line that is cut off, and of nothing. -/
theorem readInputs_accounted_cutOff :
    let typed : List Typed :=
      [.line "f(", .abort, .line "g(", .line "1)", .line ":q", .line "h(", .broken, .line "k("]
    ∃ accounts : List Account, accounts.length = 5 ∧
      (∃ a, accounts[0]? = some a ∧ a.Sound (typed.drop 4) ∧ a.input = some ("g(\n1)" : Text) ∧
        a.prompts = [.first, .further, .first, .further]) ∧
      (∃ a, accounts[2]? = some a ∧ a.Sound [.line "k("] ∧ a.input = none ∧
        a.prompts = [.first, .further]) ∧
      ∃ a, accounts[3]? = some a ∧ a.Sound [] ∧ a.input = some ("k(" : Text) ∧
        typed = (accounts.take 4).flatMap Account.typed := by
  intro typed
  obtain ⟨-, accounts, hlength, hall⟩ := readInputs_accounted 5 typed
  obtain ⟨a, ha, -, hinput, hprompts, hsound⟩ :=
    hall 0 ⟨some "g(\n1)", [.first, .further, .first, .further], typed.drop 4⟩ rfl
  obtain ⟨b, hb, -, hlost, hlostPrompts, hlostSound⟩ :=
    hall 2 ⟨none, [.first, .further], [.line "k("]⟩ rfl
  obtain ⟨c, hc, htyped, hcut, -, hcutSound⟩ := hall 3 ⟨some "k(", [.first, .further], []⟩ rfl
  exact ⟨accounts, hlength, ⟨a, ha, hsound, hinput.symm, hprompts.symm⟩,
    ⟨b, hb, hlostSound, hlost.symm, hlostPrompts.symm⟩, c, hc, hcutSound, hcut.symm,
    by simpa using htyped⟩

end Prompt

end BlockLang
