import BlockLang.Integer

/-!
# Numerals in settings

A number in a setting is written in base ten, or in another base after a mark:
two after `0b`, eight after `0o` or a bare zero, sixteen after `0x`. Single
underscores may stand between digits and after the mark.
-/

namespace BlockLang

namespace Numeral

/-- The value of a digit in any base up to 36. -/
def digit? (b : UInt8) : Option Nat :=
  let n := b.toNat
  if 0x30 ≤ n && n ≤ 0x39 then some (n - 0x30)
  else if 0x61 ≤ n && n ≤ 0x7A then some (n - 0x61 + 10)
  else if 0x41 ≤ n && n ≤ 0x5A then some (n - 0x41 + 10)
  else none

/-- The base that the letter of a mark stands for. -/
def markedBase? (b : UInt8) : Option Nat :=
  match b.toNat with
  | 0x62 | 0x42 => some 2
  | 0x6F | 0x4F => some 8
  | 0x78 | 0x58 => some 16
  | _ => none

/-- The base of a numeral without a sign, its digits, and whether a mark with a
letter comes before them. -/
def marked : Text → Nat × Text × Bool
  | 0x30 :: b :: c :: s =>
    match markedBase? b with
    | some base => (base, c :: s, true)
    | none => (8, b :: c :: s, false)
  | 0x30 :: s => (8, s, false)
  | s => (10, s, false)

/-- The value of digits after digits of value `n`. Reading stops at the first
value above the range of unsigned words. -/
def value (base n : Nat) : Text → Except Integer.Flaw Nat
  | [] => .ok n
  | b :: s =>
    if b == 0x5F then value base n s
    else
      match digit? b with
      | none => .error .malformed
      | some d =>
        if d < base then
          if n * base + d < 2 ^ 64 then value base (n * base + d) s else .error .outOfRange
        else .error .malformed

/-- The word that digits with a sign or without denote in a base. -/
def readIn (base : Nat) (s : Text) : Except Integer.Flaw Int64 := do
  let digits := if s.head? == some 0x2D || s.head? == some 0x2B then s.drop 1 else s
  if digits.isEmpty || digits.any (· == 0x5F) then throw .malformed
  let n ← value base 0 digits
  Integer.ofValue (if s.head? == some 0x2D then -n else n)

/-- Whether every underscore stands between digits. `before` tells whether a digit
or a mark comes before the text. -/
def isTidy (before : Bool) : Text → Bool
  | [] => true
  | b :: s =>
    if b == 0x5F then before && !s.isEmpty && isTidy false s else isTidy true s

/-- The value of a numeral without a sign. -/
def magnitude (s : Text) : Except Integer.Flaw Nat := do
  if s.isEmpty then throw .malformed
  let (base, digits, hasMark) := marked s
  let n ← value base 0 digits
  if if hasMark then isTidy true digits else isTidy false s then return n else throw .malformed

/-- The word that a numeral denotes. -/
def read : Text → Except Integer.Flaw Int64
  | [] => .error .malformed
  | b :: s => do
    if b == 0x2D then Integer.ofValue (-(← magnitude s))
    else if b == 0x2B then Integer.ofValue (← magnitude s)
    else Integer.ofValue (← magnitude (b :: s))

end Numeral

end BlockLang
