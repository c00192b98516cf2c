import BlockLang.Config.Yaml.Node
import BlockLang.Decimal
import BlockLang.Numeral

/-!
# The meaning of values in a YAML text

A plain value may mean more than its text: null, a truth value or a number. Quoted
values are texts, unless they are said to be of another type.
-/

namespace BlockLang

namespace Yaml

/-- What a value means. Numbers that are not whole matter as the words that they are
cut off to, if there are such words. -/
inductive Meaning where
  | null
  | flag (b : Bool)
  | whole (n : Int)
  | fraction (word : Option Int)
  | text
  deriving DecidableEq

namespace Meaning

/-- The words with a meaning of their own. -/
def ofWord? (s : Text) : Option Meaning :=
  if [("" : Text), "~", "null", "Null", "NULL"].contains s then some null
  else if [("true" : Text), "True", "TRUE"].contains s then some (flag true)
  else if [("false" : Text), "False", "FALSE"].contains s then some (flag false)
  else if [("-.inf" : Text), "-.Inf", "-.INF"].contains s then
    some (fraction (some Decimal.leastWord))
  else if [(".inf" : Text), ".Inf", ".INF", "+.inf", "+.Inf", "+.INF", ".nan", ".NaN",
      ".NAN"].contains s then
    some (fraction none)
  else none

/-- Whether every underscore of a text stands between two decimal digits. `before`
tells whether a digit comes before the text. -/
def isTidy (before : Bool) : Text → Bool
  | [] => true
  | b :: s =>
    if b == 0x5F then before && s.head?.any Decimal.isDigit && isTidy false s
    else isTidy (Decimal.isDigit b) s

/-- The meaning of a text as a decimal fraction. -/
def ofDecimal? (s : Text) : Option Meaning := do
  let d ← Decimal.read? s
  let _ ← d.size?
  return fraction d.truncated?

/-- The meaning of a text as a whole number, which a signed or an unsigned word can
hold. -/
def ofNumeral? (s : Text) : Option Meaning :=
  match Numeral.read s with
  | .ok n => some (whole n.toInt)
  | .error _ =>
    match Numeral.magnitude s with
    | .ok n => some (whole n)
    | .error _ => none

/-- The meaning of a text in which a sign stands between the mark of a base and the
digits. -/
def ofMarked? (s : Text) : Option Meaning :=
  let base? : Option Nat :=
    match s with
    | 0x30 :: 0x62 :: _ => some 2
    | 0x30 :: 0x6F :: _ => some 8
    | _ => none
  match base? with
  | none => none
  | some base =>
    match Numeral.readIn base (s.drop 2) with
    | .ok n => some (whole n.toInt)
    | .error _ => none

/-- The meaning of a plain value. What begins with a point is a fraction, and what
begins with a digit or a sign is some number, if anything; there, underscores do
not matter. -/
def ofPlain (s : Text) : Meaning :=
  match ofWord? s with
  | some m => m
  | none =>
    let m :=
      match s with
      | [] => none
      | b :: _ =>
        if b == 0x2E then if isTidy false s then ofDecimal? (s.filter (· != 0x5F)) else none
        else if Decimal.isDigit b || b == 0x2B || b == 0x2D then
          let digits := s.filter (· != 0x5F)
          ofNumeral? digits <|> ofDecimal? digits <|> ofMarked? digits
        else none
    m.getD text

/-- A meaning as one of a given type. Words may be taken as fractions. -/
def cast? (tag : Text) : Meaning → Option Meaning
  | null => if tag == ("!!null" : Text) then some null else none
  | flag b => if tag == ("!!bool" : Text) then some (flag b) else none
  | whole n =>
    if tag == ("!!int" : Text) then some (whole n)
    else if tag == ("!!float" : Text) && n < Integer.bound then
      some (fraction (Decimal.truncated? ⟨n < 0, n.natAbs, 0⟩))
    else none
  | fraction w => if tag == ("!!float" : Text) then some (fraction w) else none
  | text => none

/-- The meaning of a value, which may be said to be of a type. -/
def of? (tag : Option Text) (s : Text) (plain : Bool) : Option Meaning :=
  match tag with
  | none => some (if plain then ofPlain s else text)
  | some tag => if tag == ("!!str" : Text) then some text else (ofPlain s).cast? tag

end Meaning

end Yaml

end BlockLang
