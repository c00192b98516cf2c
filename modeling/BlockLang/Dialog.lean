import BlockLang.History.Listing
import BlockLang.Log
import BlockLang.Prompt
import BlockLang.Session

/-!
# Dialogs

A dialog reads inputs at a prompt and answers each of them: it evaluates an
expression in its session and shows the value, or it carries out a command. A
dialog ends with the input or with the command to quit.
-/

namespace BlockLang

/-- What a dialog can show of the history. -/
inductive Archive where
  | absent
  | unreadable (cause : Text)
  | fixed (entries : Table)
  | growing (entries : Table)

namespace Archive

/-- The most recent entries, newest first. -/
def recent (a : Archive) (limit : Int) : Except Text (List Entry) :=
  match a with
  | absent => .ok []
  | unreadable cause => .error cause
  | fixed entries | growing entries => .ok (entries.recent limit)

/-- Adds a run to a history that grows, and tells the log. -/
def add (a : Archive) (r : Record) (now : Int) : Archive × List LogRecord :=
  match a with
  | growing entries => (growing (entries.add r 0 now), [.runRecorded r.errorClass 0])
  | a => (a, [])

end Archive

/-- A dialog: its session, whether values are shown, the history and the time. -/
structure Dialog where
  session : Session
  echo : Bool
  archive : Archive
  now : Int

/-- What a dialog does with an input. The input is remembered if it was
evaluated. -/
structure Response where
  dialog : Dialog
  out : Text
  err : Text
  log : List LogRecord
  missed : List Text
  remembered : Option Text
  ends : Bool

/-- The commands of a dialog. -/
inductive Command where
  | quit
  | names
  | library
  | history
  | unknown (word : Text)
  deriving DecidableEq

namespace Command

/-- The command that a word stands for. -/
def ofWord (word : Text) : Command :=
  if [(":quit" : Text), ":q", ":exit"].contains word then quit
  else if word == (":names" : Text) then names
  else if word == (":builtins" : Text) then library
  else if word == (":history" : Text) then history
  else unknown word

/-- The command at the front of a text. Capitals do not matter. -/
def read (s : Text) : Command :=
  ofWord (((Text.words (Text.lower s)).head?).getD [])

end Command

namespace Dialog

/-- How many runs the history command lists. -/
def listed : Nat := 20

/-- An answer that changes nothing. -/
def say (d : Dialog) (out err : Text) : Response :=
  ⟨d, out, err, [], [], none, false⟩

/-- Lists the history. -/
def listHistory (d : Dialog) : Response :=
  match d.archive with
  | .absent => d.say "history is disabled\n" ""
  | archive =>
    match archive.recent listed with
    | .ok entries => d.say (listing entries) ""
    | .error cause =>
      { d.say "" ("could not read history: " ++ cause ++ "\n") with
        log := [.historyUnreadable cause] }

/-- The names of a list on one line. -/
def nameLine (names : List Text) : Text :=
  Text.join " " names ++ "\n"

/-- Carries out a command. -/
def command (d : Dialog) : Command → Response
  | .quit => { d.say "" "" with ends := true }
  | .names => d.say (nameLine d.session.names) ""
  | .library => d.say (nameLine Library.names) ""
  | .history => d.listHistory
  | .unknown word =>
    d.say ("unknown command " ++ word ++ ". Commands: :quit :names :builtins :history\n") ""

/-- Evaluates an input and shows its value or what went wrong. -/
def eval (d : Dialog) (code : Text) : Response :=
  let (outcome, record, session) := d.session.forget.evalRecorded code
  let (archive, notes) := d.archive.add record d.now
  let dialog := { d with session, archive }
  let log := session.events.filterMap LogRecord.ofEvent? ++ notes
  let missed := session.missedFiles
  let written := session.state.written
  match outcome with
  | .ok v =>
    let shown : Text := if d.echo then v.inspect ++ "\n" else ""
    ⟨dialog, written ++ shown, "", log, missed, some code, false⟩
  | .error f => ⟨dialog, written, f.report code ++ "\n", log, missed, some code, false⟩

/-- Answers an input. Blank inputs are passed over. -/
def respond (d : Dialog) (code : Text) : Response :=
  if (Text.trim code).isEmpty then d.say "" ""
  else if isCommand code then d.command (.read code)
  else d.eval code

/-- What was written since the last prompt, and the prompt shown after it. At the
end of a dialog there is no prompt. -/
structure Turn where
  out : Text
  err : Text
  prompt : Option Prompt

/-- The turns of an input: output comes before the first of its prompts. -/
def turns (out err : Text) : List Prompt → List Turn
  | [] => []
  | prompt :: prompts => ⟨out, err, some prompt⟩ :: prompts.map (⟨[], [], some ·⟩)

end Dialog

/-- The course of a dialog. -/
structure Transcript where
  turns : List Dialog.Turn
  remembered : List Text
  log : List LogRecord
  missed : List Text
  rest : List Typed
  dialog : Dialog

namespace Transcript

/-- Everything a dialog wrote. -/
def out (t : Transcript) : Text :=
  t.turns.flatMap (·.out)

/-- Everything a dialog wrote about errors. -/
def err (t : Transcript) : Text :=
  t.turns.flatMap (·.err)

/-- A course with something in front. -/
def after (turns : List Dialog.Turn) (r : Response) (t : Transcript) : Transcript :=
  { t with
    turns := turns ++ t.turns
    remembered := r.remembered.toList ++ t.remembered
    log := r.log ++ t.log
    missed := r.missed ++ t.missed }

end Transcript

namespace Dialog

/-- Goes through a dialog. `out` and `err` were written since the last prompt. -/
def runFrom (d : Dialog) (out err : Text) (typed : List Typed) : Transcript :=
  match typed with
  | [] => ⟨turns out err [.first] ++ [⟨"\n", "", none⟩], [], [], [], [], d⟩
  | t :: ts =>
    let r := Prompt.readInput (t :: ts)
    let turns := turns out err r.prompts
    match r.input with
    | none => ⟨turns ++ [⟨"\n", "", none⟩], [], [], [], r.rest, d⟩
    | some code =>
      let response := d.respond code
      if response.ends then
        ⟨turns ++ [⟨response.out, response.err, none⟩], [], response.log, response.missed,
          r.rest, response.dialog⟩
      else
        (runFrom response.dialog response.out response.err r.rest).after turns response
termination_by typed.length
decreasing_by
  have h := Prompt.readFrom_rest_length [] (t :: ts)
  simp only [Prompt.readInput, List.length_cons] at h ⊢
  omega

/-- Goes through a dialog from its start. -/
def run (d : Dialog) (typed : List Typed) : Transcript :=
  d.runFrom [] [] typed

end Dialog

end BlockLang
