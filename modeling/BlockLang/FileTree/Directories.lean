import BlockLang.FileTree

/-!
# Directories on the way to a file

Before a file is made, the directories on its path are. A path is first brought
into its shortest form.
-/

namespace BlockLang

namespace FileTree

/-- Adds a step to the steps of a path that are left, which are kept last first.
Above the outermost directory there is nothing. -/
def shorten (absolute : Bool) (steps : List Text) (step : Text) : List Text :=
  if isIdle step then steps
  else if isUp step then
    match steps with
    | [] => if absolute then [] else [step]
    | last :: rest => if isUp last then step :: steps else rest
  else step :: steps

/-- A path without steps that lead nowhere else or back. -/
def shortest (path : Text) : Text :=
  let absolute := isAbsolute path
  let steps := ((path.splitOn 0x2F).foldl (shorten absolute) []).reverse
  let body := Text.join [0x2F] steps
  if absolute then 0x2F :: body else if body.isEmpty then [0x2E] else body

/-- The directory of a path, in its shortest form. -/
def parentOf (path : Text) : Text :=
  shortest (((path.splitOn 0x2F).dropLast).flatMap (· ++ [0x2F]))

/-- The name of the last step of a path. -/
def lastName (path : Text) : Text :=
  ((path.splitOn 0x2F).getLast?).getD []

/-- Makes one directory whose name in messages is `shown`. -/
def makeDirectory (t : FileTree) (shown path : Text) : Except Text FileTree :=
  match t.find path with
  | .ok (.directory _) => .ok t
  | .ok (.file ..) => .error (complaint "mkdir" shown .taken)
  | .ok (.free place) => .ok (t.newDirectory place)
  | .error r => .error (complaint "mkdir" shown r)

/-- Makes a directory after the directories on the way to it, of which those in
`done` exist already. -/
def makeSteps (t : FileTree) (done : Text) : List Text → Except Text FileTree
  | [] => .ok t
  | [step] => t.makeDirectory (done ++ step) (done ++ step)
  | step :: steps => do
    let shown := done ++ step ++ [0x2F]
    (← t.makeDirectory shown (done ++ step)).makeSteps shown steps

/-- Makes a directory and all directories on the way to it, unless they exist. -/
def makeDirectories (t : FileTree) (path : Text) : Except Text FileTree :=
  match t.find path with
  | .ok (.directory _) => .ok t
  | .ok (.file ..) => .error (complaint "mkdir" path .notDirectory)
  | _ =>
    if isAbsolute path then t.makeSteps [0x2F] (path.tail.splitOn 0x2F)
    else t.makeSteps [] (path.splitOn 0x2F)

/-- A tree with one more item: a file with a text, or a directory if the path ends
in a slash. Paths that cannot be made are left out. -/
def place (t : FileTree) (path s : Text) : FileTree :=
  match t.makeDirectories (parentOf path) with
  | .error _ => t
  | .ok t =>
    if path.getLast? == some 0x2F then t
    else
      match t.write path s with
      | .error _ => t
      | .ok t => t

end FileTree

end BlockLang
