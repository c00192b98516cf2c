import BlockLang.Expr.Parser
import BlockLang.Text.Blank

/-!
# Reading at a prompt

An input is typed line by line. As long as the lines so far are an expression
that has not come to its end, another line is asked for with a different prompt.
A typed line may be given up, which drops the lines so far, and the prompt may
break down.
-/

namespace BlockLang

/-- The two prompts: for the first line of an input and for the others. -/
inductive Prompt where
  | first
  | further
  deriving DecidableEq

/-- A prompt as it is shown. -/
def Prompt.text : Prompt → Text
  | first => "417> "
  | further => "...> "

/-- What can happen at a prompt. After the last of a list of them the input is at
its end. -/
inductive Typed where
  | line (s : Text)
  | abort
  | broken
  deriving DecidableEq

/-- What came of reading an input: the input unless there was none, the prompts
shown for it, and what has not been read. -/
structure Reading where
  input : Option Text
  prompts : List Prompt
  rest : List Typed

namespace Reading

/-- A reading with one more prompt in front. -/
def after (prompt : Prompt) (r : Reading) : Reading :=
  { r with prompts := prompt :: r.prompts }

end Reading

/-- Whether a text is a command to the prompt. -/
def isCommand (s : Text) : Bool :=
  (Text.trim s).head? == some 0x3A

/-- Whether a text is an expression that has not come to its end. -/
def isUnfinished (s : Text) : Bool :=
  match parse (scan s) with
  | .ok _ => false
  | .error e => e.incomplete

/-- Whether another line has to be read after a text. -/
def wantsMore (s : Text) : Bool :=
  !isCommand s && isUnfinished s && !(Text.trim s).isEmpty

namespace Prompt

/-- The prompt that is shown when some lines are pending. -/
def pendingOn (pending : Text) : Prompt :=
  if pending.isEmpty then first else further

/-- The pending lines with one more. -/
def extend (pending line : Text) : Text :=
  if pending.isEmpty then line else pending ++ "\n" ++ line

/-- Reads an input of which some lines are pending. -/
def readFrom (pending : Text) : List Typed → Reading
  | [] => ⟨if pending.isEmpty then none else some pending, [pendingOn pending], []⟩
  | .broken :: rest => ⟨none, [pendingOn pending], rest⟩
  | .abort :: rest => (readFrom [] rest).after (pendingOn pending)
  | .line s :: rest =>
    let text := extend pending s
    if wantsMore text then (readFrom text rest).after (pendingOn pending)
    else ⟨some text, [pendingOn pending], rest⟩

/-- Reads an input. -/
def readInput (typed : List Typed) : Reading :=
  readFrom [] typed

/-- Reads several inputs one after the other. -/
def readInputs : Nat → List Typed → List Reading
  | 0, _ => []
  | n + 1, typed =>
    let r := readInput typed
    r :: readInputs n r.rest

theorem readFrom_rest_length
    (pending : Text) (typed : List Typed) :
    (readFrom pending typed).rest.length ≤ typed.length - 1 := by
  induction typed generalizing pending with
  | nil => exact Nat.le_refl _
  | cons t rest ih =>
    cases t with
    | broken => exact Nat.le_refl _
    | abort =>
      have h := ih []
      simp only [readFrom, Reading.after, List.length_cons]
      omega
    | line s =>
      have h := ih (extend pending s)
      simp only [readFrom, List.length_cons]
      split
      · simp only [Reading.after]
        omega
      · exact Nat.le_refl _

end Prompt

end BlockLang
