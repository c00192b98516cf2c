import BlockLang.History.Calendar
import BlockLang.History.Entry

/-!
# Listings of the history

A listing has one line for each run, the oldest first.
-/

namespace BlockLang

namespace Entry

/-- What came out of a run. -/
def outcome (e : Entry) : Text :=
  if e.record.failed then e.record.errorClass ++ ": " ++ e.record.errorMessage
  else e.record.result

/-- A run as a line of a listing. -/
def line (e : Entry) : Text :=
  Text.padLeft 4 (Text.ofInt e.id) ++ "  " ++ timeText (e.created.fdiv 1000000) ++ "  " ++
    Text.flattenLines e.record.source ++ "  => " ++ e.outcome ++ "\n"

end Entry

/-- The listing of runs that are given newest first. -/
def listing (entries : List Entry) : Text :=
  entries.reverse.flatMap Entry.line

end BlockLang
