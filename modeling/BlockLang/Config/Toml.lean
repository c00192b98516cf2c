import BlockLang.Config
import BlockLang.Config.Toml.Registry
import BlockLang.Text.Quoted

/-!
# Settings in TOML

A file of settings in TOML has one setting on a line, a key and a value with an
equals sign between them. Settings may stand in tables, which have headers of
their own; the settings of the command do not. Keys are found whether or not
they are written in capitals.
-/

namespace BlockLang

namespace Toml

open Config

/-- A character of a key without regard to capitals. The long s and the sign of the
kelvin are letters too. -/
def folded (c : Char) : Char :=
  if c.toNat == 0x17F then 's' else if c.toNat == 0x212A then 'k' else c.toLower

/-- The setting that a key stands for. -/
def keyOf? (name : Text) : Option Key :=
  let folded := Text.ofChars ((Text.chars name).map folded)
  Key.all.find? (·.name == folded)

/-- The value that a setting takes from an entry. -/
def typed? (kind : ValueKind) (e : Entry) : Option Value :=
  match kind, e with
  | .flag, .leaf (.flag b) => some (.flag b)
  | .number, .leaf (.number n) => some (.number n)
  | .text, .leaf (.text s) => some (.text s)
  | _, _ => none

/-- A character of a key between quotes. -/
def shownChar (c : Char) : Text :=
  match c with
  | '\x22' => "\\\""
  | '\\' => "\\\\"
  | '\x08' => "\\b"
  | '\t' => "\\t"
  | '\n' => "\\n"
  | '\x0c' => "\\f"
  | '\r' => "\\r"
  | c => if c.toNat < 0x20 || c.toNat == 0x7F then "\\u" ++ Text.hex 4 c.toNat else Text.ofChars [c]

/-- A part of a key as messages show it. -/
def shownPart (s : Text) : Text :=
  let chars := Text.chars s
  if !s.isEmpty && chars.all isBare then s
  else "\"" ++ chars.flatMap shownChar ++ "\""

/-- A key as messages show it. -/
def shown (key : List Text) : Text :=
  Text.join "." (key.map shownPart)

/-- Whether a key is that of a setting. -/
def isKnown : List Text → Bool
  | [name] => (keyOf? name).isSome
  | _ => false

/-- The changes that definitions ask for. -/
def changes? (r : Registry) : Option (List (Key × Value)) :=
  (r.root.filterMap fun (name, e) => (keyOf? name).map (·, e)).mapM fun (key, e) =>
    (typed? key.kind e).map (key, ·)

/-- The changes that a file asks for. -/
def read (s : Text) : Except FormatError (List (Key × Value)) :=
  match (Statement.readAll? s).bind Registry.ofStatements? with
  | none => .error .malformed
  | some r =>
    match changes? r with
    | none => .error .malformed
    | some changes =>
      let unknown := r.order.filter (!isKnown ·)
      if unknown.isEmpty then .ok changes
      else .error (.unknownKeys (unknown.map shown))

end Toml

end BlockLang
