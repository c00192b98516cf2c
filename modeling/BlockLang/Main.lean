import Std.Time.DateTime.Timestamp
import BlockLang.CommandLine

/-!
# The program

The outer layer of the command: it gathers the arguments, the input and the files
that the command asks for, runs the command on them, and writes what it reports.
Histories are kept for the time of a run only.
-/

namespace BlockLang

namespace Main

/-- The bytes of a text. -/
def toBytes (s : Text) : ByteArray :=
  ⟨s.toArray⟩

/-- Reads a stream to its end. -/
partial def readAll (stream : IO.FS.Stream) (before : ByteArray) : IO ByteArray := do
  let chunk ← stream.read 65536
  if chunk.isEmpty then return before else readAll stream (before ++ chunk)

/-- Puts what is at a path into the tree, if anything is there. -/
def mount (tree : FileTree) (path : Text) : IO FileTree := do
  match String.fromUTF8? (toBytes path) with
  | none => return tree
  | some name =>
    try
      let real ← IO.FS.realPath name
      if ← real.isDir then return tree.place (path ++ "/") []
      else return tree.place path (← IO.FS.readBinFile real).toList
    catch _ => return tree

/-- The paths that the command looks at whatever the program does. -/
def fixedPaths (host : Host) (arguments : List Text) : List Text :=
  CommandLine.lineHistoryPath host ::
    match Flags.read arguments with
    | .error _ => []
    | .ok (f, operands) => f.config :: f.logFile.toList ++ operands

/-- Writes a file of the tree back if the command has changed it. -/
def writeBack (before after : FileTree) (path : Text) : IO Unit := do
  match before.read path, after.read path, String.fromUTF8? (toBytes path) with
  | .ok old, .ok new, some name =>
    if old != new then IO.FS.writeBinFile name (toBytes new)
  | .error _, .ok new, some name =>
    match String.fromUTF8? (toBytes (FileTree.parentOf path)) with
    | some parent => IO.FS.createDirAll parent
    | none => pure ()
    IO.FS.writeBinFile name (toBytes new)
  | _, _, _ => pure ()

/-- Runs the command. As long as a program misses files that have not been looked
for yet, they are looked for and the command starts again. -/
partial def settle (host : Host) (arguments : List Text) (known : List Text) :
    IO (Report × Host) := do
  let report := CommandLine.run host arguments
  let new := report.missed.filter (!known.contains ·)
  if new.isEmpty then return (report, host)
  else
    let tree ← new.foldlM mount host.tree
    settle { host with tree } arguments (known ++ new)

/-- The names on the way to a directory. -/
def trailOf (path : Text) : Trail :=
  (path.splitOn 0x2F).filter (!·.isEmpty)

end Main

end BlockLang

open BlockLang in
/-- Runs the command with the arguments and the input of the system. -/
def main (arguments : List String) : IO UInt32 := do
  let stdin ← IO.getStdin
  let stdout ← IO.getStdout
  let stderr ← IO.getStderr
  let arguments := arguments.map Text.ofString
  let working := Main.trailOf (Text.ofString (← IO.currentDir).toString)
  let home := Text.ofString ((← IO.getEnv "HOME").getD "")
  let now := (← Std.Time.Timestamp.now).toNanosecondsSinceUnixEpoch.toInt.fdiv 1000
  let bare : Host := ⟨.ofWorking working, home, now, ⟨[], none⟩⟩
  let paths := Main.fixedPaths bare arguments
  let tree ← paths.foldlM Main.mount bare.tree
  let input ← Main.readAll stdin .empty
  let host : Host := { bare with tree, input := ⟨input.toList, none⟩ }
  let (report, host) ← Main.settle host arguments paths
  paths.forM (Main.writeBack host.tree report.tree)
  stdout.write (Main.toBytes report.out)
  stdout.flush
  report.notices.forM fun line => stderr.write (Main.toBytes (line ++ [0x0A]))
  report.log.forM fun record => stderr.write (Main.toBytes (record.line now))
  stderr.write (Main.toBytes report.err)
  return report.exit.toUInt32
