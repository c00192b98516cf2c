import BlockLang.Token.Scan

/-!
# Integers

The integers of the language are signed 64-bit words. Arithmetic on them is
exact or refused, and a literal denotes its mathematical value if a word can
hold it.
-/

namespace BlockLang

namespace Integer

/-- What can be wrong with an integer literal. -/
inductive Flaw where
  | outOfRange
  | malformed
  deriving DecidableEq

/-- Two to the power 63: words are below this number and not below its negative. -/
def bound : Nat :=
  0x8000000000000000

/-- The value of decimal digits after digits of value `n`. Reading stops at the
first value above the range of unsigned words. -/
def digits (n : Nat) : Text → Except Flaw Nat
  | [] => .ok n
  | b :: s =>
    if Scan.isDigit b then
      let m := n * 10 + (b.toNat - 0x30)
      if m < 2 * bound then digits m s else .error .outOfRange
    else .error .malformed

/-- The value of at least one decimal digit. -/
def magnitude (s : Text) : Except Flaw Nat :=
  if s.isEmpty then .error .malformed else digits 0 s

/-- The word with a given value. -/
def ofValue (n : Int) : Except Flaw Int64 :=
  if -(bound : Int) ≤ n ∧ n < bound then .ok (Int64.ofInt n) else .error .outOfRange

/-- The word that a literal denotes: decimal digits after an optional sign. -/
def read : Text → Except Flaw Int64
  | [] => .error .malformed
  | b :: s => do
    if b == 0x2D then ofValue (-(← magnitude s))
    else if b == 0x2B then ofValue (← magnitude s)
    else ofValue (← magnitude (b :: s))

/-- The decimal form of a word. -/
def text (n : Int64) : Text :=
  Text.ofInt n.toInt

/-- The sum of two words, if it is a word. The tests themselves stay in range. -/
def add? (a b : Int64) : Option Int64 :=
  if (0 < b ∧ Int64.maxValue - b < a) ∨ (b < 0 ∧ a < Int64.minValue - b) then none
  else some (a + b)

/-- The difference of two words, if it is a word. The tests themselves stay in
range. -/
def sub? (a b : Int64) : Option Int64 :=
  if (b < 0 ∧ Int64.maxValue + b < a) ∨ (0 < b ∧ a < Int64.minValue + b) then none
  else some (a - b)

/-- The product of two words, if it is a word. A wrapped product is recognised
by dividing it again. -/
def mul? (a b : Int64) : Option Int64 :=
  if a = 0 ∨ b = 0 then some 0
  else
    let product := a * b
    if product / b ≠ a ∨ (a = -1 ∧ b = Int64.minValue) ∨ (b = -1 ∧ a = Int64.minValue) then none
    else some product

/-- The quotient of two words rounded toward zero, if it is a word and the
divisor is not zero. -/
def div? (a b : Int64) : Option Int64 :=
  if b = 0 ∨ (a = Int64.minValue ∧ b = -1) then none
  else some (a / b)

/-- The remainder that belongs to the quotient rounded toward zero. It has the
sign of the dividend. -/
def mod? (a b : Int64) : Option Int64 :=
  if b = 0 then none else some (a % b)

end Integer

end BlockLang
