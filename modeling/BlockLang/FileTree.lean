import BlockLang.History.Entry
import BlockLang.Text.Utf8

/-!
# The files around a program

A program runs in a working directory, which is part of a tree of directories and
files. Files are identified by numbers, so that a file that is open for writing
stays the same file when it is moved. A file holds a text or the table of a
history. Paths are resolved step by step, from the outermost directory if they
begin with a slash and from the working directory otherwise.
-/

namespace BlockLang

/-- Why a path cannot be used. -/
inductive Refusal where
  | missing
  | notDirectory
  | isDirectory
  | taken
  | nameTooLong
  | invalid
  deriving DecidableEq

/-- The words for a refusal. -/
def Refusal.text : Refusal → Text
  | missing => "no such file or directory"
  | notDirectory => "not a directory"
  | isDirectory => "is a directory"
  | taken => "file exists"
  | nameTooLong => "file name too long"
  | invalid => "invalid argument"

/-- What a file holds. -/
inductive Content where
  | text (s : Text)
  | table (t : Table)

/-- The number of a file. -/
abbrev FileId := Nat

/-- A name in a directory stands for a directory or a file. -/
inductive Item where
  | directory
  | file (id : FileId)
  deriving DecidableEq

/-- The way to an item: the names from the outermost directory down to it. -/
abbrev Trail := List Text

/-- The working directory, the items of a tree and what its files hold. -/
structure FileTree where
  working : Trail
  items : List (Trail × Item)
  contents : List (FileId × Content)
  nextFile : FileId

/-- What a path leads to: an item, or a name that is free in its directory. -/
inductive Spot where
  | directory (place : Trail)
  | file (place : Trail) (id : FileId)
  | free (place : Trail)

namespace FileTree

/-- The directories on the way to a directory, and that directory itself. -/
def directoriesTo (place : Trail) : List (Trail × Item) :=
  (List.range place.length).map fun n => (place.take (n + 1), .directory)

/-- A tree without files, with a given working directory. -/
def ofWorking (working : Trail) : FileTree :=
  ⟨working, directoriesTo working, [], 0⟩

/-- A tree without files. -/
def empty : FileTree :=
  ofWorking ["work"]

/-- The item at a place. -/
def item? (t : FileTree) (place : Trail) : Option Item :=
  if place.isEmpty then some .directory else t.items.lookup place

/-- Whether a step of a path leads nowhere else. -/
def isIdle (step : Text) : Bool :=
  step.isEmpty || step == [0x2E]

/-- Whether a step of a path leads to the directory around. -/
def isUp (step : Text) : Bool :=
  step == [0x2E, 0x2E]

/-- The longest name. -/
def maxName : Nat := 255

/-- The length from which on a path is too long. -/
def maxPath : Nat := 4096

/-- Follows the steps of a path from a directory. Nothing lies around the
outermost directory. -/
def walk (t : FileTree) (dir : Trail) : List Text → Except Refusal Spot
  | [] => .ok (.directory dir)
  | step :: steps =>
    if isIdle step then walk t dir steps
    else if isUp step then walk t dir.dropLast steps
    else if maxName < step.length then .error .nameTooLong
    else
      match t.item? (dir ++ [step]) with
      | some .directory => walk t (dir ++ [step]) steps
      | some (.file id) =>
        if steps.isEmpty then .ok (.file (dir ++ [step]) id) else .error .notDirectory
      | none =>
        if steps.all List.isEmpty then .ok (.free (dir ++ [step])) else .error .missing

/-- Whether a path starts at the outermost directory. -/
def isAbsolute (path : Text) : Bool :=
  path.head? == some 0x2F

/-- What a path leads to. -/
def find (t : FileTree) (path : Text) : Except Refusal Spot :=
  let steps := path.splitOn 0x2F
  if path.any (· == 0) then .error .invalid
  else if path.isEmpty then .error .missing
  else if maxPath ≤ path.length then .error .nameTooLong
  else t.walk (if isAbsolute path then [] else t.working) steps

/-- Whether something is at a path. -/
def occupied (t : FileTree) (path : Text) : Bool :=
  match t.find path with
  | .ok (.directory _) | .ok (.file ..) => true
  | .ok (.free _) | .error _ => false

/-- What a file holds. A file that was never written holds the empty text. -/
def content (t : FileTree) (id : FileId) : Content :=
  (t.contents.lookup id).getD (.text [])

/-- The text of a file. The table of a history has none. -/
def textOf (t : FileTree) (id : FileId) : Text :=
  match t.content id with
  | .text s => s
  | .table _ => []

/-- Changes what a file holds. -/
def setContent (t : FileTree) (id : FileId) (c : Content) : FileTree :=
  { t with contents := (id, c) :: t.contents.filter (·.1 != id) }

/-- The message about an operation that was refused. -/
def complaint (operation path : Text) (r : Refusal) : Text :=
  operation ++ " " ++ path ++ ": " ++ r.text

/-- Reads a text. -/
def read (t : FileTree) (path : Text) : Except Text Text :=
  match t.find path with
  | .ok (.file _ id) => .ok (t.textOf id)
  | .ok (.directory _) => .error (complaint "read" path .isDirectory)
  | .ok (.free _) => .error (complaint "open" path .missing)
  | .error r => .error (complaint "open" path r)

/-- Puts a new file that holds the empty text at a free place. -/
def newFile (t : FileTree) (place : Trail) : FileId × FileTree :=
  (t.nextFile,
    { t with items := t.items ++ [(place, .file t.nextFile)], nextFile := t.nextFile + 1 })

/-- Puts a directory at a free place. -/
def newDirectory (t : FileTree) (place : Trail) : FileTree :=
  { t with items := t.items ++ [(place, .directory)] }

/-- The file at a path, which is made if nothing is there. -/
def openFile (t : FileTree) (path : Text) : Except Refusal (FileId × FileTree) :=
  match t.find path with
  | .ok (.file _ id) => .ok (id, t)
  | .ok (.directory _) => .error .isDirectory
  | .ok (.free place) =>
    if path.getLast? == some 0x2F then .error .isDirectory else .ok (t.newFile place)
  | .error r => .error r

/-- Adds a text at the end of a file. -/
def append (t : FileTree) (id : FileId) (s : Text) : FileTree :=
  t.setContent id (.text (t.textOf id ++ s))

/-- Makes a text the whole content of the file at a path. -/
def write (t : FileTree) (path s : Text) : Except Refusal FileTree := do
  let (id, t) ← t.openFile path
  return t.setContent id (.text s)

/-- The way to an item below `source` after that has moved to `target`. -/
def moved (source target place : Trail) : Trail :=
  if source.isPrefixOf place then target ++ place.drop source.length else place

/-- Moves an item, with everything in it, to a free place. -/
def move (t : FileTree) (source target : Trail) : FileTree :=
  { t with items := t.items.map fun (place, item) => (moved source target place, item) }

/-- Takes the item at a place out of the tree. -/
def eraseAt (t : FileTree) (place : Trail) : FileTree :=
  { t with items := t.items.filter (·.1 != place) }

/-- Takes the file at a path out of the tree. -/
def erase (t : FileTree) (path : Text) : FileTree :=
  match t.find path with
  | .ok (.file place _) => t.eraseAt place
  | _ => t

/-- Gives an item a new path. A file may take the place of a file. -/
def rename (t : FileTree) (path target : Text) : Except Refusal FileTree :=
  match t.find path, t.find target with
  | .error r, _ => .error r
  | .ok (.free _), _ => .error .missing
  | .ok _, .ok (.directory _) => .error .taken
  | .ok (.file source _), .ok (.file place _) =>
    .ok (if source == place then t else (t.eraseAt place).move source place)
  | .ok (.file source _), .ok (.free place) =>
    if target.getLast? == some 0x2F then .error .notDirectory else .ok (t.move source place)
  | .ok (.directory _), .ok (.file ..) => .error .notDirectory
  | .ok (.directory source), .ok (.free place) =>
    if source.isPrefixOf place then .error .invalid else .ok (t.move source place)
  | .ok _, .error r => .error r

end FileTree

end BlockLang
