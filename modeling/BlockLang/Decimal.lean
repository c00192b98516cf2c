import BlockLang.Integer

/-!
# Decimal fractions

A decimal fraction has digits with at most one point among them, and may have a
sign and an exponent. In double precision only fractions that round to a finite
number have a value.
-/

namespace BlockLang

/-- A decimal fraction: its digits as a number and the power of ten by which they
are multiplied. -/
structure Decimal where
  negative : Bool
  digits : Nat
  exponent : Int
  deriving DecidableEq

namespace Decimal

/-- Whether a byte is a decimal digit. -/
def isDigit (b : UInt8) : Bool :=
  0x30 ≤ b && b ≤ 0x39

/-- The number that decimal digits denote. -/
def value (s : Text) : Nat :=
  s.foldl (fun n b => n * 10 + (b.toNat - 0x30)) 0

/-- A text without the sign in front. -/
def unsigned (s : Text) : Text :=
  if s.head? == some 0x2D || s.head? == some 0x2B then s.drop 1 else s

/-- The exponent at the end of a decimal fraction. -/
def exponent? : Text → Option Int
  | [] => some 0
  | e :: s =>
    let digits := unsigned s
    if (e != 0x65 && e != 0x45) || digits.isEmpty || !digits.all isDigit then none
    else if s.head? == some 0x2D then some (-(value digits)) else some (value digits)

/-- The decimal fraction that a text stands for. There is a digit before the
exponent. -/
def read? (s : Text) : Option Decimal := do
  let t := unsigned s
  let whole := t.takeWhile isDigit
  let rest := t.dropWhile isDigit
  let (part, rest) :=
    match rest with
    | 0x2E :: rest => (rest.takeWhile isDigit, rest.dropWhile isDigit)
    | rest => ([], rest)
  if whole.isEmpty && part.isEmpty then failure
  return ⟨s.head? == some 0x2D, value (whole ++ part), (← exponent? rest) - part.length⟩

/-- The size of a decimal fraction in double precision. Sizes that round to
infinity are out of range. -/
def size? (d : Decimal) : Option Float :=
  let places : Int := (Text.ofNat d.digits).length + d.exponent
  if d.digits == 0 || places < -400 then some 0
  else if 309 < places then none
  else
    let x := Float.ofScientific d.digits (d.exponent < 0) d.exponent.natAbs
    if x.isInf then none else some x

/-- The least word. -/
def leastWord : Int :=
  -(Integer.bound : Int)

/-- The whole part of a decimal fraction as a word, in double precision. Numbers
below the words become the least word, and so does the first number above them,
because it has the same bits. -/
def truncated? (d : Decimal) : Option Int := do
  let x ← d.size?
  let bound := Float.ofScientific Integer.bound false 0
  if x < bound then return if d.negative then -x.toUInt64.toNat else x.toUInt64.toNat
  else if d.negative || x == bound then return leastWord
  else failure

end Decimal

end BlockLang
