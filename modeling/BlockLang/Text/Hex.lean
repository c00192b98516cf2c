import BlockLang.Text.Utf8

/-!
# Hexadecimal digits

Escapes in quoted texts give the code point of a character in a fixed number of
hexadecimal digits.
-/

namespace BlockLang.Text

/-- The value of a hexadecimal digit. -/
def hexDigit? (c : Char) : Option Nat :=
  let n := c.toNat
  if 0x30 ≤ n && n ≤ 0x39 then some (n - 0x30)
  else if 0x41 ≤ n && n ≤ 0x46 then some (n - 0x37)
  else if 0x61 ≤ n && n ≤ 0x66 then some (n - 0x57)
  else none

/-- The character whose code point is written in `width` hexadecimal digits at the
front of a text. -/
def hexChar? (width : Nat) (s : List Char) : Option Char := do
  if s.length < width then failure
  let n ← (s.take width).foldlM (fun n c => (hexDigit? c).map (n * 16 + ·)) 0
  if n.isValidChar then some (Char.ofNat n) else none

end BlockLang.Text
