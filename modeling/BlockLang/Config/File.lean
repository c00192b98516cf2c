import BlockLang.Config.Toml
import BlockLang.Config.Yaml
import BlockLang.FileTree.Directories
import BlockLang.Text.Lowercase
import BlockLang.Text.Quoted

/-!
# Files with settings

The name of a file with settings tells its format. All settings of a file are
taken over, or none.
-/

namespace BlockLang

namespace Config

/-- The formats of files with settings. -/
inductive Format where
  | yaml
  | toml
  deriving DecidableEq

/-- The end of a file name from its last dot on. -/
def extension (path : Text) : Text :=
  let name := FileTree.lastName path
  let tail := (name.reverse.takeWhile (· != 0x2E)).reverse
  if tail.length < name.length then 0x2E :: tail else []

/-- The format of a file. Capitals in its name do not matter. -/
def formatOf? (path : Text) : Option Format :=
  let ending := Text.lower (extension path)
  if ending == (".yaml" : Text) || ending == (".yml" : Text) then some .yaml
  else if ending == (".toml" : Text) then some .toml
  else none

/-- Reads a text in a format. -/
def Format.read (s : Text) : Format → Except FormatError (List (Key × Value))
  | .yaml =>
    match Yaml.read? s with
    | some changes => .ok changes
    | none => .error .malformed
  | .toml => Toml.read s

/-- Why settings could not be loaded. -/
inductive LoadError where
  | unreadable (path cause : Text)
  | unknownFormat (path : Text)
  | badFormat (path : Text) (e : FormatError)
  | badDepth (path : Text) (n : Int)

/-- The message about settings that could not be loaded. -/
def LoadError.message : LoadError → Text
  | unreadable path cause => "reading config " ++ path ++ ": " ++ cause
  | unknownFormat path =>
    "config " ++ path ++ ": unsupported extension " ++ (extension path).quoted ++
      " (want .yaml, .yml or .toml)"
  | badFormat path e => "parsing config " ++ path ++ ": " ++ e.message
  | badDepth path n =>
    "config " ++ path ++ ": max_depth must be positive, got " ++ Text.ofInt n

/-- The changes that the file at a path asks for. -/
def changesIn (tree : FileTree) (path : Text) : Except LoadError (List (Key × Value)) := do
  let s ←
    match tree.read path with
    | .ok s => pure s
    | .error cause => throw (.unreadable path cause)
  let format ←
    match formatOf? path with
    | some format => pure format
    | none => throw (.unknownFormat path)
  let changes ←
    match format.read s with
    | .ok changes => pure changes
    | .error e => throw (.badFormat path e)
  match badDepth? changes with
  | some n => throw (.badDepth path n)
  | none => return changes

/-- Settings with those of a file on top. -/
def load (c : Config) (tree : FileTree) (path : Text) : Except LoadError Config := do
  return c.setAll (← changesIn tree path)

end Config

end BlockLang
