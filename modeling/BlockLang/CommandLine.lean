import BlockLang.CommandLine.Flags
import BlockLang.CommandLine.Usage
import BlockLang.Config.File
import BlockLang.Dialog
import BlockLang.History.Store
import BlockLang.Log.File
import BlockLang.Prompt.Lines

/-!
# The command

The command reads its options and settings, opens the log and the history, and
then evaluates a program, shows the tree of one, or holds a dialog. It is a
function of the files and the input it finds; what it writes, and the files it
leaves behind, are its report.
-/

namespace BlockLang

/-- What the command finds: the files, the path of the home directory (empty if it
is the working directory), the time in microseconds and the input. -/
structure Host where
  tree : FileTree
  home : Text
  now : Int
  input : Input

/-- What the command does. Log records are in the report unless they went to a
file; notices are lines about the log itself. The missed files are those that a
program could not read. -/
structure Report where
  exit : Nat
  out : Text
  err : Text
  log : List LogRecord
  notices : List Text
  missed : List Text
  tree : FileTree

/-- The forms in which a tree is shown. -/
inductive TreeFormat where
  | json
  | text
  deriving DecidableEq

namespace TreeFormat

/-- The form that a word asks for. Capitals do not matter. -/
def ofText? (s : Text) : Option TreeFormat :=
  let word := Text.lower s
  if word == ("json" : Text) then some json
  else if word == ("text" : Text) then some text
  else none

/-- Shows a tree. -/
def render (e : Source) : TreeFormat → Text
  | json => e.json
  | text => e.source 0

end TreeFormat

/-- What was asked for: the settings, and the form of the tree if only that is to
be shown. -/
structure Plan where
  config : Config
  tree : Option TreeFormat

/-- Settings with the options that were given on top. -/
def Config.withFlags (c : Config) (f : Flags) : Config :=
  { c with
    trace := f.trace.getD c.trace
    dynamicScoping := f.dynamic.getD c.dynamicScoping
    noPrint := f.noPrint.getD c.noPrint
    maxDepth := f.maxDepth.getD c.maxDepth
    history := f.history.getD c.history
    historyEnabled := (f.noHistory.map (!·)).getD c.historyEnabled
    logLevel := f.logLevel.getD c.logLevel
    logFile := f.logFile.getD c.logFile }

namespace CommandLine

/-- The settings that a file and the options ask for. -/
def configure (tree : FileTree) (f : Flags) : Except Text Config :=
  if f.config.isEmpty then .ok (Config.standard.withFlags f)
  else
    match Config.standard.load tree f.config with
    | .ok c => .ok (c.withFlags f)
    | .error e => .error e.message

/-- The plan that the options ask for. -/
def plan (tree : FileTree) (f : Flags) : Except Text Plan := do
  let config ← configure tree f
  match f.maxDepth with
  | some n =>
    if n ≤ 0 then throw ("-max-depth must be positive, got " ++ Text.ofInt n)
  | none => pure ()
  if f.debugTree then
    match TreeFormat.ofText? f.treeFormat with
    | some format => return ⟨config, some format⟩
    | none => throw ("-ast-format must be json or text, got " ++ f.treeFormat.quoted)
  else return ⟨config, none⟩

/-- A report of a command that only wrote something. -/
def wrote (tree : FileTree) (exit : Nat) (out err : Text) : Report :=
  ⟨exit, out, err, [], [], [], tree⟩

/-- The source of a program, and the input that is left for it. -/
def readSource (host : Host) (path : Text) : Except Text (Text × Input) := do
  let trouble : Text := "Failure while reading program input: "
  let (source, input) ←
    if path.isEmpty then
      match host.input.fault with
      | some cause => throw (trouble ++ cause)
      | none => pure (host.input.pending, ⟨[], none⟩)
    else
      match host.tree.read path with
      | .ok source => pure (source, host.input)
      | .error cause => throw (trouble ++ cause)
  if (Text.trim source).isEmpty then throw ("No input detected." : Text) else return (source, input)

/-- Shows the tree of a program. -/
def showTree (host : Host) (path : Text) (format : TreeFormat) : Report :=
  match readSource host path with
  | .error message => wrote host.tree 1 "" (message ++ "\n")
  | .ok (source, _) =>
    match compile source with
    | .ok e => wrote host.tree 0 (format.render e ++ "\n") ""
    | .error f => wrote host.tree 1 "" (f.report source ++ "\n")

/-- A path in the home directory. -/
def atHome (host : Host) (path : Text) : Text :=
  if host.home.isEmpty then path else host.home ++ "/" ++ path

/-- Opens the history, unless it is switched off or cannot be used. -/
def openHistory (host : Host) (c : Config) : Option History × List LogRecord × FileTree :=
  if c.historyEnabled then
    let name := if c.history.isEmpty then atHome host ".lang417/history.db" else c.history
    match History.openNamed host.tree name with
    | .ok (h, tree) => (some h, [.historyOpened DatabaseKind.sqlite.name], tree)
    | .error cause => (none, [.historyDisabled cause], host.tree)
  else (none, [], host.tree)

/-- The settings for the evaluation of a program. -/
def settingsFor (tree : FileTree) (c : Config) : Settings :=
  { lexical := c.lexical
    trace := c.trace
    limit := Settings.limitFor c.maxDepth
    canApply := true
    outputFault := none
    fileText := tree.read }

/-- Adds a run to the history, if there is one, and tells the log. -/
def keepRun (history : Option History) (tree : FileTree) (r : Record) (now : Int) :
    List LogRecord × FileTree :=
  match history with
  | none => ([], tree)
  | some h =>
    match h.record tree r 0 now with
    | .ok (_, tree) => ([.runRecorded r.errorClass 0], tree)
    | .error cause => ([.runLost cause], tree)

/-- Evaluates a program. -/
def evaluate (host : Host) (history : Option History) (c : Config) (path : Text) : Report :=
  match readSource host path with
  | .error message => wrote host.tree 1 "" (message ++ "\n")
  | .ok (source, input) =>
    let session := Session.start (settingsFor host.tree c) input
    let (outcome, record, session) := session.evalRecorded source
    let (kept, tree) := keepRun history host.tree record host.now
    let log := .evaluating path c.lexical c.trace :: session.events.filterMap LogRecord.ofEvent? ++ kept
    let missed := session.missedFiles
    let written := session.state.written
    match outcome with
    | .ok v =>
      let shown : Text := if c.noPrint then "" else v.inspect ++ "\n"
      ⟨0, written ++ shown, "", log, [], missed, tree⟩
    | .error f => ⟨1, written, f.report source ++ "\n", log, [], missed, tree⟩

/-- The file in which the lines of dialogs are kept. -/
def lineHistoryPath (host : Host) : Text :=
  atHome host ".lang417_history"

/-- The lines of earlier dialogs. -/
def earlierLines (host : Host) : List Text :=
  match host.tree.read (lineHistoryPath host) with
  | .ok s => LineHistory.read s
  | .error _ => []

/-- Keeps the lines of dialogs. -/
def keepLines (host : Host) (tree : FileTree) (lines : List Text) : FileTree :=
  match tree.write (lineHistoryPath host) (LineHistory.text lines) with
  | .ok tree => tree
  | .error _ => tree

/-- The history as a dialog sees it. -/
def archiveOf (history : Option History) (tree : FileTree) : Archive :=
  match history with
  | none => .absent
  | some h => .growing (h.table tree)

/-- Puts the runs of a dialog into the history. -/
def keepArchive (history : Option History) (tree : FileTree) (a : Archive) : FileTree :=
  match history, a with
  | some ⟨.file id, _⟩, .growing entries => tree.setContent id (.table entries)
  | _, _ => tree

/-- Holds a dialog. The lines of the input are typed at the prompt, and the
programs read the same input once more. -/
def talk (host : Host) (history : Option History) (c : Config) : Report :=
  let session := Session.start (settingsFor host.tree c) host.input
  let dialog : Dialog :=
    ⟨session, !c.noPrint, archiveOf history host.tree, host.now⟩
  let course := dialog.run ((TypedText.lines host.input.pending).map .line)
  let lines := course.remembered.foldl LineHistory.add (earlierLines host)
  let tree := keepArchive history host.tree course.dialog.archive
  ⟨0, Usage.banner ++ course.out, course.err, session.events.filterMap LogRecord.ofEvent? ++ course.log, [],
   course.missed, keepLines host tree lines⟩

/-- Does what was asked for. The log is complete. -/
def work (host : Host) (f : Flags) (plan : Plan) (path : Text) : Report :=
  match plan.tree with
  | some format => showTree host path format
  | none =>
    let (history, opened, tree) := openHistory host plan.config
    let host := { host with tree }
    let report :=
      if f.repl then talk host history plan.config
      else evaluate host history plan.config path
    { report with log := opened ++ report.log }

/-- Opens the log file if one is asked for. If that fails, the records stay in the
report and a notice says so. -/
def openLog (tree : FileTree) (path : Text) : Option LogFile × List Text × FileTree :=
  if path.isEmpty then (none, [], tree)
  else
    match LogFile.create tree path with
    | .ok (file, tree) => (some file, [], tree)
    | .error message => (none, [message ++ "; falling back to stderr"], tree)

/-- Writes the records of a report to the log file, if there is one. -/
def deliver (file : Option LogFile) (now : Int) (r : Report) : Report :=
  match file with
  | none => r
  | some file =>
    match file.write r.tree (r.log.flatMap (LogRecord.line now)) with
    | .ok tree => { r with log := [], tree }
    | .error _ => r

/-- Does what was asked for with the log that was asked for. -/
def logged (host : Host) (f : Flags) (plan : Plan) (path : Text) : Report :=
  let (file, notices, tree) := openLog host.tree plan.config.logFile
  let report := work { host with tree } f plan path
  let level := LogLevel.ofText plan.config.logLevel
  deliver file host.now { report with log := report.log.filter (·.keptAt level), notices }

/-- The command. -/
def run (host : Host) (arguments : List Text) : Report :=
  match Flags.read arguments with
  | .error e => wrote host.tree 2 "" (e.message ++ "\n" ++ Usage.hint)
  | .ok (f, operands) =>
    if f.version then wrote host.tree 0 Usage.versionLine ""
    else if f.help then wrote host.tree 0 Usage.help ""
    else
      match operands with
      | _ :: extra :: _ =>
        wrote host.tree 2 "" ("Invalid argument " ++ extra.quoted ++ "\n" ++ Usage.hint)
      | operands =>
        match plan host.tree f with
        | .error message => wrote host.tree 2 "" (message ++ "\n")
        | .ok plan => logged host f plan (operands.head?.getD [])

end CommandLine

end BlockLang
