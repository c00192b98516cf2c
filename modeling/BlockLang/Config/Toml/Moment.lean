import BlockLang.Decimal

/-!
# Dates and times in a TOML text

A date, a time of day, or both with or without an offset from universal time. No
setting is one, but a text in which one is not well formed is refused.
-/

namespace BlockLang

namespace Toml

/-- Whether a year has a leap day. -/
def isLeap (year : Nat) : Bool :=
  year % 4 == 0 && (year % 100 != 0 || year % 400 == 0)

/-- The number of days of a month. -/
def daysIn (year month : Nat) : Nat :=
  match month with
  | 2 => if isLeap year then 29 else 28
  | 4 | 6 | 9 | 11 => 30
  | _ => 31

/-- The number in `width` decimal digits at the front of a text, and the rest. -/
def digits? (width : Nat) (s : Text) : Option (Nat × Text) :=
  let digits := s.take width
  if digits.length == width && digits.all Decimal.isDigit then
    some (Decimal.value digits, s.drop width)
  else none

/-- What comes after a byte at the front of a text. -/
def after? (b : UInt8) : Text → Option Text
  | [] => none
  | a :: s => if a == b then some s else none

/-- What comes after a date at the front of a text. -/
def afterDate? (s : Text) : Option Text := do
  let (year, s) ← digits? 4 s
  let (month, s) ← digits? 2 (← after? 0x2D s)
  let (day, s) ← digits? 2 (← after? 0x2D s)
  if 1 ≤ month && month ≤ 12 && 1 ≤ day && day ≤ daysIn year month then some s else none

/-- What comes after the fraction of a second, which may be left out. -/
def afterFraction (s : Text) : Text :=
  match s with
  | 0x2E :: rest => if rest.head?.any Decimal.isDigit then rest.dropWhile Decimal.isDigit else s
  | s => s

/-- What comes after a time of day at the front of a text. Seconds may be left out. -/
def afterClock? (s : Text) : Option Text := do
  let (hour, s) ← digits? 2 s
  let (minute, s) ← digits? 2 (← after? 0x3A s)
  if 24 ≤ hour || 60 ≤ minute then failure
  match s with
  | 0x3A :: s =>
    let (second, s) ← digits? 2 s
    if second < 60 then some (afterFraction s) else none
  | s => some s

/-- Whether a text is an offset from universal time. -/
def isOffset (s : Text) : Bool :=
  match s with
  | [b] => b == 0x5A
  | b :: s =>
    (b == 0x2B || b == 0x2D) &&
      match digits? 2 s with
      | some (hour, 0x3A :: s) =>
        match digits? 2 s with
        | some (minute, []) => hour ≤ 24 && minute ≤ 60
        | _ => false
      | _ => false
  | [] => false

/-- Whether a text is a date or a time. Small letters do for capitals, and a space
may divide a date from a time. -/
def isMoment (s : Text) : Bool :=
  let s := s.map fun b =>
    if b == 0x20 || b == 0x74 then 0x54 else if b == 0x7A then 0x5A else b
  match afterDate? s with
  | some [] => true
  | some (0x54 :: rest) =>
    match afterClock? rest with
    | some rest => rest.isEmpty || isOffset rest
    | none => false
  | some _ => false
  | none => afterClock? s == some []

end Toml

end BlockLang
