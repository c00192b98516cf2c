import BlockLang.FileTree.Directories

/-!
# Log files

A log file is written at its end. The file can be moved away while it is open:
what is written still goes to that file until the log is opened again.
-/

namespace BlockLang

/-- A log file: the path under which it is opened and the file that is open. -/
structure LogFile where
  path : Text
  handle : Option FileId

namespace LogFile

/-- Why a log file cannot be written. -/
def closedText : Text := "file already closed"

/-- Opens the file at a path for writing at its end. -/
def openHandle (tree : FileTree) (path : Text) : Except Text (FileId × FileTree) :=
  match tree.openFile path with
  | .ok opened => .ok opened
  | .error r =>
    .error ("failed to open log file '" ++ path ++ "': " ++ FileTree.complaint "open" path r)

/-- Opens a log file and makes the directories on the way to it. -/
def create (tree : FileTree) (path : Text) : Except Text (LogFile × FileTree) :=
  match tree.makeDirectories (FileTree.parentOf path) with
  | .error cause =>
    .error ("failed to create log directory for '" ++ path ++ "': " ++ cause)
  | .ok tree => do
    let (id, tree) ← openHandle tree path
    return (⟨path, some id⟩, tree)

/-- Adds a text at the end of a log file. -/
def write (f : LogFile) (tree : FileTree) (s : Text) : Except Text FileTree :=
  match f.handle with
  | some id => .ok (tree.append id s)
  | none => .error closedText

/-- Opens the file at the path of a log file again. If that fails, the file that
is open stays open. -/
def reopen (f : LogFile) (tree : FileTree) : Except Text (LogFile × FileTree) := do
  let (id, tree) ← openHandle tree f.path
  return ({ f with handle := some id }, tree)

/-- Closes a log file. -/
def close (f : LogFile) : LogFile :=
  { f with handle := none }

end LogFile

end BlockLang
