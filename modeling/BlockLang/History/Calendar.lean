import BlockLang.Text

/-!
# Points in time

A point in time is a number of seconds since the beginning of 1970. Dates follow
the calendar of today in both directions, in universal time.
-/

namespace BlockLang

/-- A day of the calendar. -/
structure Date where
  year : Int
  month : Nat
  day : Nat
  deriving DecidableEq

namespace Date

/-- The date of the day that is `n` days after the first day of 1970. Years are
counted from March here, so that the leap day is the last of its year, in cycles
of 400 years, each of which has 146097 days. -/
def ofDays (n : Int) : Date :=
  let shifted := n + 719468
  let cycle := shifted.fdiv 146097
  let dayOfCycle := (shifted.fmod 146097).toNat
  let yearOfCycle :=
    (dayOfCycle - dayOfCycle / 1460 + dayOfCycle / 36524 - dayOfCycle / 146096) / 365
  let dayOfYear := dayOfCycle - (365 * yearOfCycle + yearOfCycle / 4 - yearOfCycle / 100)
  let month := (5 * dayOfYear + 2) / 153
  let year := (yearOfCycle : Int) + 400 * cycle
  ⟨if month < 10 then year else year + 1,
   if month < 10 then month + 3 else month - 9,
   dayOfYear - (153 * month + 2) / 5 + 1⟩

end Date

/-- A number with zeros in front of it up to a width. -/
def zeroPadded (width n : Nat) : Text :=
  let digits := Text.ofNat n
  List.replicate (width - digits.length) 0x30 ++ digits

/-- A year with at least four digits. -/
def yearText (year : Int) : Text :=
  (if year < 0 then "-" else "") ++ zeroPadded 4 year.natAbs

/-- The date of a point in time. -/
def dateText (seconds : Int) : Text :=
  let date := Date.ofDays (seconds.fdiv 86400)
  yearText date.year ++ "-" ++ zeroPadded 2 date.month ++ "-" ++ zeroPadded 2 date.day

/-- The time of day of a point in time. -/
def clockText (seconds : Int) : Text :=
  let time := (seconds.fmod 86400).toNat
  zeroPadded 2 (time / 3600) ++ ":" ++ zeroPadded 2 (time / 60 % 60) ++ ":" ++
    zeroPadded 2 (time % 60)

/-- The date and the time of day of a point in time. -/
def timeText (seconds : Int) : Text :=
  dateText seconds ++ " " ++ clockText seconds

/-- A point in time that is given in microseconds. -/
def stampText (micros : Int) : Text :=
  let seconds := micros.fdiv 1000000
  dateText seconds ++ "T" ++ clockText seconds ++ "." ++
    zeroPadded 6 (micros.fmod 1000000).toNat ++ "Z"

end BlockLang
