import BlockLang.Text.Utf8

/-!
# Encodings of a YAML text

A text may begin with a mark of its encoding. Without one it is in UTF-8.
-/

namespace BlockLang

namespace Yaml

/-- The two orders of the bytes of a 16-bit unit. -/
inductive ByteOrder where
  | lowFirst
  | highFirst
  deriving DecidableEq

/-- The unit of two bytes. -/
def ByteOrder.unit (order : ByteOrder) (a b : UInt8) : Nat :=
  match order with
  | lowFirst => a.toNat + 256 * b.toNat
  | highFirst => 256 * a.toNat + b.toNat

/-- Whether a unit is the first of two that make up one character. -/
def isLeading (n : Nat) : Bool :=
  0xD800 ≤ n && n < 0xDC00

/-- Whether a unit is the second of two that make up one character. -/
def isTrailing (n : Nat) : Bool :=
  0xDC00 ≤ n && n < 0xE000

/-- The characters of a text in 16-bit units. -/
def ofUnits? (order : ByteOrder) : Text → Option (List Char)
  | [] => some []
  | [_] => none
  | a :: b :: s =>
    let n := order.unit a b
    if isTrailing n then none
    else if isLeading n then
      match s with
      | c :: d :: s =>
        let m := order.unit c d
        if isTrailing m then
          (ofUnits? order s).map (Char.ofNat (0x10000 + (n - 0xD800) * 0x400 + (m - 0xDC00)) :: ·)
        else none
      | _ => none
    else (ofUnits? order s).map (Char.ofNat n :: ·)

/-- The characters of a file, if its bytes are well formed. -/
def decoded? (s : Text) : Option (List Char) :=
  match s with
  | 0xFF :: 0xFE :: s => ofUnits? .lowFirst s
  | 0xFE :: 0xFF :: s => ofUnits? .highFirst s
  | s =>
    let s := Text.dropStart [0xEF, 0xBB, 0xBF] s
    if Text.isUtf8 s then some (Text.chars s) else none

/-- Whether a character may stand in a file. -/
def isAllowed (c : Char) : Bool :=
  let n := c.toNat
  n == 0x09 || n == 0x0A || n == 0x0D || (0x20 ≤ n && n ≤ 0x7E) || n == 0x85 ||
    (0xA0 ≤ n && n ≤ 0xFFFD) || 0x10000 ≤ n

end Yaml

end BlockLang
