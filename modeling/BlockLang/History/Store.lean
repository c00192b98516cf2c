import BlockLang.FileTree.Directories
import BlockLang.History.Source

/-!
# Open histories

A history that is open is kept in memory or in a file of the working directory.
Only databases of the kind that is kept in a file can be opened here.
-/

namespace BlockLang

/-- Where the table of an open history is. -/
inductive Shelf where
  | memory (t : Table)
  | file (id : FileId)

/-- A history that has been opened. -/
structure History where
  shelf : Shelf
  isOpen : Bool

namespace HistorySource

/-- The path of the file that holds a database, empty for a database in memory.
What follows a question mark are options, unless it begins the location. -/
def filePath (s : HistorySource) : Text :=
  if ("file:" : Text).isPrefixOf s.location then s.file
  else
    match s.location with
    | [] => []
    | b :: rest =>
      let path := b :: rest.takeWhile (· != 0x3F)
      if path == (":memory:" : Text) then [] else path

end HistorySource

namespace History

/-- The table of runs in a file. A file that is not empty and holds something
else is no database. -/
def tableOf? (c : Content) : Option Table :=
  match c with
  | .table t => some t
  | .text [] => some []
  | .text _ => none

/-- The message about a database that cannot be reached. -/
def unreachable (kind : DatabaseKind) (cause : Text) : Text :=
  "history: connect " ++ kind.name ++ ": " ++ cause

/-- Opens the database in a file. -/
def openPath (tree : FileTree) (path : Text) : Except Text (History × FileTree) :=
  match tree.openFile path with
  | .error r => .error (unreachable .sqlite ("unable to open database file: " ++ r.text))
  | .ok (id, tree) =>
    match tableOf? (tree.content id) with
    | none => .error (unreachable .sqlite "file is not a database")
    | some t => .ok (⟨.file id, true⟩, tree.setContent id (.table t))

/-- Makes the directories on the way to the file of a database. -/
def prepare (tree : FileTree) (s : HistorySource) : Except Text FileTree :=
  if s.file.isEmpty then .ok tree
  else
    match tree.makeDirectories (FileTree.parentOf s.file) with
    | .ok tree => .ok tree
    | .error cause => .error ("history: creating directory for " ++ s.file ++ ": " ++ cause)

/-- Opens a database. -/
def openSource (tree : FileTree) (s : HistorySource) : Except Text (History × FileTree) :=
  match s.kind with
  | .sqlite => do
    let tree ← prepare tree s
    if s.filePath.isEmpty then return (⟨.memory [], true⟩, tree) else openPath tree s.filePath
  | kind => .error (unreachable kind "connection refused")

/-- Opens the history that a text names. -/
def openNamed (tree : FileTree) (name : Text) : Except Text (History × FileTree) :=
  match HistorySource.read name with
  | .error flaw => .error flaw.message
  | .ok s => openSource tree s

/-- Closes a history. What was kept in memory is gone. -/
def close (h : History) : History :=
  { h with isOpen := false }

/-- Why nothing can be done with a history that is closed. -/
def closedText : Text := "sql: database is closed"

/-- The runs of a history, newest first. -/
def table (h : History) (tree : FileTree) : Table :=
  match h.shelf with
  | .memory t => t
  | .file id => (tableOf? (tree.content id)).getD []

/-- Adds a run to a history. -/
def record (h : History) (tree : FileTree) (r : Record) (duration created : Int) :
    Except Text (History × FileTree) :=
  if h.isOpen then
    let t := (h.table tree).add r duration created
    match h.shelf with
    | .memory _ => .ok ({ h with shelf := .memory t }, tree)
    | .file id => .ok (h, tree.setContent id (.table t))
  else .error ("history: record: " ++ closedText)

/-- The most recent runs of a history, newest first. -/
def recent (h : History) (tree : FileTree) (limit : Int) : Except Text (List Entry) :=
  if h.isOpen then .ok ((h.table tree).recent limit)
  else .error ("history: query: " ++ closedText)

end History

end BlockLang
