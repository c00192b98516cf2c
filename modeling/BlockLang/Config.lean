import BlockLang.Evaluator.State

/-!
# Settings of the command

What can be set for the command, in a file or by options. In a file every setting
has a key and a value of one of three kinds.
-/

namespace BlockLang

/-- The settings of the command. -/
structure Config where
  trace : Bool
  dynamicScoping : Bool
  noPrint : Bool
  maxDepth : Int
  history : Text
  historyEnabled : Bool
  logLevel : Text
  logFile : Text

namespace Config

/-- The settings when nothing is set. -/
def standard : Config :=
  ⟨false, false, false, Settings.defaultLimit, "", true, "none", ""⟩

/-- Whether scoping is lexical. -/
def lexical (c : Config) : Bool :=
  !c.dynamicScoping

/-- The keys of settings in a file. -/
inductive Key where
  | trace
  | dynamicScoping
  | noPrint
  | maxDepth
  | history
  | historyEnabled
  | logLevel
  | logFile
  deriving DecidableEq

/-- The kinds of values. -/
inductive ValueKind where
  | flag
  | number
  | text
  deriving DecidableEq

/-- The value of a setting. -/
inductive Value where
  | flag (b : Bool)
  | number (n : Int)
  | text (s : Text)
  deriving DecidableEq

namespace Key

/-- Every key once. -/
def all : List Key :=
  [trace, dynamicScoping, noPrint, maxDepth, history, historyEnabled, logLevel, logFile]

/-- A key as it is written in a file. -/
def name : Key → Text
  | trace => "trace"
  | dynamicScoping => "dynamic_scoping"
  | noPrint => "no_print"
  | maxDepth => "max_depth"
  | history => "history"
  | historyEnabled => "history_enabled"
  | logLevel => "log_level"
  | logFile => "log_file"

/-- The kind of values that a key takes. -/
def kind : Key → ValueKind
  | trace | dynamicScoping | noPrint | historyEnabled => .flag
  | maxDepth => .number
  | history | logLevel | logFile => .text

end Key

/-- Settings with one of them changed. A value of another kind changes nothing. -/
def set (c : Config) : Key → Value → Config
  | .trace, .flag b => { c with trace := b }
  | .dynamicScoping, .flag b => { c with dynamicScoping := b }
  | .noPrint, .flag b => { c with noPrint := b }
  | .maxDepth, .number n => { c with maxDepth := n }
  | .history, .text s => { c with history := s }
  | .historyEnabled, .flag b => { c with historyEnabled := b }
  | .logLevel, .text s => { c with logLevel := s }
  | .logFile, .text s => { c with logFile := s }
  | _, _ => c

/-- Settings with several of them changed, one after the other. -/
def setAll (c : Config) (changes : List (Key × Value)) : Config :=
  changes.foldl (fun c (key, value) => c.set key value) c

/-- What can be wrong with the text of a file with settings. -/
inductive FormatError where
  | malformed
  | unknownKeys (names : List Text)
  deriving DecidableEq

/-- The words for what is wrong. About a malformed text nothing more is said. -/
def FormatError.message : FormatError → Text
  | malformed => "*"
  | unknownKeys names => "unknown keys " ++ Text.join ", " names

/-- The positive numbers are the depths that can be asked for. -/
def badDepth? (changes : List (Key × Value)) : Option Int :=
  changes.findSome? fun
    | (.maxDepth, .number n) => if n ≤ 0 then some n else none
    | _ => none

end Config

end BlockLang
