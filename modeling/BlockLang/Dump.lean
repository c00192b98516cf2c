import BlockLang.Integer
import BlockLang.Text.Quoted

/-!
# Structured dumps

A dump is written as indented JSON: two spaces for each level, the fields of an
object in the order given, every value on a line of its own. Control characters
and the two line separators of Unicode are escaped, all other characters stand
for themselves.
-/

namespace BlockLang

/-- A structured value. -/
inductive Dump where
  | null
  | boolean (b : Bool)
  | integer (n : Int)
  | string (s : Text)
  | array (items : List Dump)
  | object (fields : List (Text × Dump))

namespace Dump

/-- A character of a string. -/
def escapedChar (c : Char) : Text :=
  match c.toNat with
  | 0x22 => "\\\""
  | 0x5C => "\\\\"
  | 0x08 => "\\b"
  | 0x0C => "\\f"
  | 0x0A => "\\n"
  | 0x0D => "\\r"
  | 0x09 => "\\t"
  | n =>
    if n < 0x20 || n == 0x2028 || n == 0x2029 then "\\u" ++ Text.hex 4 n
    else String.utf8EncodeChar c

/-- A string between quotes. -/
def quoted (s : Text) : Text :=
  "\"" ++ s.chars.flatMap escapedChar ++ "\""

/-- The blanks at the start of a line. -/
def margin (level : Nat) : Text :=
  List.replicate (2 * level) 0x20

/-- Parts between brackets, each on a line of its own. -/
def bracketed (opening closing : Text) (level : Nat) (parts : List Text) : Text :=
  if parts.isEmpty then opening ++ closing
  else
    opening ++ "\n" ++ Text.join ",\n" (parts.map (margin (level + 1) ++ ·)) ++ "\n" ++
      margin level ++ closing

mutual

/-- A value at a level of indentation. -/
def render (level : Nat) : Dump → Text
  | null => "null"
  | boolean b => if b then "true" else "false"
  | integer n => Text.ofInt n
  | string s => quoted s
  | array items => bracketed "[" "]" level (renderItems (level + 1) items)
  | object fields => bracketed "\x7b" "\x7d" level (renderFields (level + 1) fields)

/-- The items of an array. -/
def renderItems (level : Nat) : List Dump → List Text
  | [] => []
  | item :: items => render level item :: renderItems level items

/-- The fields of an object. -/
def renderFields (level : Nat) : List (Text × Dump) → List Text
  | [] => []
  | (key, value) :: fields =>
    (quoted key ++ ": " ++ render level value) :: renderFields level fields

end

/-- A dump as a text that ends with a line feed. -/
def text (d : Dump) : Text :=
  d.render 0 ++ "\n"

end Dump

end BlockLang
