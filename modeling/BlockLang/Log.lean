import BlockLang.Dump
import BlockLang.Evaluator.State
import BlockLang.History.Calendar
import BlockLang.Text.Blank
import BlockLang.Text.Lowercase

/-!
# The log

The log tells what happens behind the scenes. Every record has a level, and only
records of the level that was asked for and above are kept.
-/

namespace BlockLang

/-- The levels of the log. -/
inductive LogLevel where
  | trace
  | debug
  | info
  | warn
  | error
  | none
  deriving DecidableEq

namespace LogLevel

/-- The rank of a level. No record reaches the last one. -/
def rank : LogLevel → Int
  | trace => -8
  | debug => -4
  | info => 0
  | warn => 4
  | error => 8
  | none => 12

/-- The name of a level in records. -/
def name : LogLevel → Text
  | trace => "DEBUG-4"
  | debug => "DEBUG"
  | info => "INFO"
  | warn => "WARN"
  | error => "ERROR"
  | none => "ERROR+4"

/-- The word for a level in settings. -/
def word : LogLevel → Text
  | trace => "trace"
  | debug => "debug"
  | info => "info"
  | warn => "warn"
  | error => "error"
  | none => "none"

/-- The level that a setting asks for. Unknown words ask for no records. -/
def ofText (s : Text) : LogLevel :=
  let asked := Text.lower (Text.trim s)
  ([trace, debug, info, warn, error].find? (·.word == asked)).getD none

end LogLevel

/-- A record of the log. -/
structure LogRecord where
  level : LogLevel
  message : Text
  fields : List (Text × Dump)

namespace LogRecord

/-- Whether a record is kept at a level. -/
def keptAt (level : LogLevel) (r : LogRecord) : Bool :=
  level.rank ≤ r.level.rank

/-- A field of a record as it is written. -/
def fieldText (field : Text × Dump) : Text :=
  Dump.quoted field.1 ++ ":" ++ field.2.render 0

/-- A record as a line that tells the time first. -/
def line (now : Int) (r : LogRecord) : Text :=
  let fields : List (Text × Dump) :=
    ("time", .string (stampText now)) :: ("level", .string r.level.name) ::
      ("msg", .string r.message) :: r.fields
  "\x7b" ++ Text.join "," (fields.map fieldText) ++ "\x7d\n"

/-- The number of a frame in the log, counted from one. -/
def frame (id : FrameId) : Dump :=
  .integer (id + 1)

/-- The record of an event of an evaluation, if the log tells about it. -/
def ofEvent? : Event → Option LogRecord
  | .frameMade id outer =>
    some ⟨.debug, "new frame", [("id", frame id), ("outer", frame outer)]⟩
  | .frameCaptured x id =>
    some ⟨.debug, "closure captured", [("name", .string x), ("frame", frame id)]⟩
  | .fileMissed _ => none

/-- The record of a program that is about to be evaluated. -/
def evaluating (file : Text) (lexical trace : Bool) : LogRecord :=
  ⟨.debug, "evaluating program",
   [("file", .string file), ("lexical-scoping", .boolean lexical), ("trace", .boolean trace)]⟩

/-- The record of a history that has been opened. -/
def historyOpened (kind : Text) : LogRecord :=
  ⟨.debug, "history store opened", [("driver", .string kind)]⟩

/-- The record of a history that cannot be used. -/
def historyDisabled (cause : Text) : LogRecord :=
  ⟨.warn, "history disabled", [("error", .string cause)]⟩

/-- The record of a run that has been added to the history. -/
def runRecorded (errorClass : Text) (duration : Int) : LogRecord :=
  ⟨.debug, "run recorded",
   [("error-class", .string errorClass), ("duration", .integer duration)]⟩

/-- The record of a run that could not be added to the history. -/
def runLost (cause : Text) : LogRecord :=
  ⟨.warn, "failed to record run", [("error", .string cause)]⟩

/-- The record of a history that could not be read. -/
def historyUnreadable (cause : Text) : LogRecord :=
  ⟨.warn, "failed to read history", [("error", .string cause)]⟩

end LogRecord

end BlockLang
