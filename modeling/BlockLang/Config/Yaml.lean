import BlockLang.Config
import BlockLang.Config.Yaml.Encoding
import BlockLang.Config.Yaml.Meaning

/-!
# Settings in YAML

A file of settings in YAML is a table of keys and values, usually with one setting
on a line and a colon between the key and the value. What a value means depends on
the kind of value that its key takes. A value that is left out, or null, leaves
the setting as it is.
-/

namespace BlockLang

namespace Yaml

open Config

/-- The truth value that a value stands for. Some texts stand for one as well. -/
def flag? (m : Meaning) (s : Text) : Option Bool :=
  match m with
  | .flag b => some b
  | .text =>
    if [("y" : Text), "Y", "yes", "Yes", "YES", "on", "On", "ON"].contains s then some true
    else if [("n" : Text), "N", "no", "No", "NO", "off", "Off", "OFF"].contains s then some false
    else none
  | _ => none

/-- The number that a value stands for. -/
def number? : Meaning → Option Int
  | .whole n => if n < Integer.bound then some n else none
  | .fraction word => word
  | _ => none

/-- What a value of a given kind is set to, if it is set. -/
def typed? (kind : ValueKind) : Node → Option (Option Value)
  | .scalar tag s plain => do
    let m ← Meaning.of? tag s plain
    if m == .null then return none
    match kind with
    | .flag => return some (.flag (← flag? m s))
    | .number => return some (.number (← number? m))
    | .text => return some (.text s)
  | .alias _ target => typed? kind target
  | _ => none

/-- The text of a key. Null is no key, and what is set for it does not matter. -/
def keyText? : Node → Option (Option Text)
  | .scalar tag s plain => do
    let m ← Meaning.of? tag s plain
    return if m == .null then none else some s
  | .alias _ target => keyText? target
  | _ => none

/-- What distinguishes a key from others of its table. -/
def identity : Node → Nat × Text
  | .scalar _ s _ => (0, s)
  | .alias name _ => (1, name)
  | .list _ => (2, [])
  | .table _ => (3, [])

/-- The settings of fields, and what they are set to. -/
def settings? (fields : List (Node × Node)) : Option (List (Key × Option Value)) := do
  let settings ← fields.mapM fun (k, v) => do
    match ← keyText? k with
    | none => return none
    | some s =>
      let key ← Key.all.find? (·.name == s)
      return some (key, ← typed? key.kind v)
  return settings.filterMap id

/-- The changes that a tree asks for. -/
def changes? : Node → Option (List (Key × Value))
  | .scalar tag s plain => do
    if (← Meaning.of? tag s plain) == .null then return [] else failure
  | .table fields => do
    if !(fields.map fun (k, _) => identity k).Nodup then failure
    let settings ← settings? fields
    if !(settings.map Prod.fst).Nodup then failure
    return settings.filterMap fun (key, v) => v.map (key, ·)
  | _ => none

/-- The changes that a file asks for. -/
def read? (s : Text) : Option (List (Key × Value)) := do
  let chars ← decoded? s
  if !chars.all isAllowed then failure
  match ← Node.read? chars with
  | some node => changes? node
  | none => return []

end Yaml

end BlockLang
