import BlockLang.Record

/-!
# Entries of the history

A history is a table of runs that only grows. Its rows are numbered from one in
the order in which they were added.
-/

namespace BlockLang

/-- A run in the history. Times are in microseconds, the time of the run counted
from the beginning of 1970. -/
structure Entry where
  id : Int
  record : Record
  duration : Int
  created : Int

/-- A number of nanoseconds in microseconds, cut off toward zero. -/
def Entry.micros (nanos : Int) : Int :=
  nanos.tdiv 1000

/-- The runs of a history, newest first. -/
abbrev Table := List Entry

namespace Table

/-- A table with one more run. -/
def add (t : Table) (record : Record) (duration created : Int) : Table :=
  ⟨t.length + 1, record, duration, created⟩ :: t

/-- At most `limit` runs, newest first. A negative limit stands for all. -/
def recent (t : Table) (limit : Int) : List Entry :=
  if limit < 0 then t else t.take limit.toNat

end Table

end BlockLang
