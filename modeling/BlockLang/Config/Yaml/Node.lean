import BlockLang.Config.Yaml.Token

/-!
# Trees of a YAML text

The tokens of a document make up a tree of values, lists and tables. A value can be
given a name and stand in other places under it.
-/

namespace BlockLang

namespace Yaml

/-- A tree. Of a name that stands for another tree the name matters too. -/
inductive Node where
  | scalar (tag : Option Text) (text : Text) (plain : Bool)
  | list (items : List Node)
  | table (fields : List (Node × Node))
  | alias (name : Text) (target : Node)

namespace Node

/-- A value that is left out. -/
def absent : Node :=
  scalar none [] true

/-- How far a document has been read: the number of the next token, and the names
that have been given. -/
structure Progress where
  scanner : Scanner
  position : Nat
  names : List (Text × Node)

/-- Reading a part of a document. -/
abbrev Reader := StateT Progress Option

/-- The next token. -/
def peek : Reader Token := do
  let p ← get
  let s ← p.scanner.upTo? p.position (p.scanner.cursor.rest.length + 8)
  set { p with scanner := s }
  s.tokens[p.position]?

/-- Takes the next token. -/
def take : Reader Unit :=
  modify fun p => { p with position := p.position + 1 }

/-- Takes the next token if it is a given one, and tells whether it was. -/
def takeIf (t : Token) : Reader Bool := do
  if (← peek) == t then
    take
    return true
  else return false

/-- What is said about a value in front of it: its name and the name of its type. -/
structure Properties where
  name : Option Text
  tag : Option Text

/-- Takes the properties in front of a value, in either order. -/
def properties : Reader Properties := do
  match ← peek with
  | .anchor name =>
    take
    match ← peek with
    | .tag tag =>
      take
      return ⟨some name, some tag⟩
    | _ => return ⟨some name, none⟩
  | .tag tag =>
    take
    match ← peek with
    | .anchor name =>
      take
      return ⟨some name, some tag⟩
    | _ => return ⟨none, some tag⟩
  | _ => return ⟨none, none⟩

/-- A value that has been read. The type that is no type is as good as none. -/
def named (ps : Properties) (node : Node) : Reader Node := do
  let node :=
    match node with
    | scalar _ text plain => scalar (ps.tag.filter (· != ("!" : Text))) text plain
    | node => node
  match ps.name with
  | some name => modify fun p => { p with names := (name, node) :: p.names }
  | none => pure ()
  return node

mutual

/-- A node, which is nested at most `fuel` deep. Inside brackets there are no blocks,
and only as a value of a table may a list do without an indentation of its own. -/
def node (inBlock asValue : Bool) : Nat → Reader Node
  | 0 => failure
  | fuel + 1 => do
    match ← peek with
    | .alias name =>
      take
      match (← get).names.lookup name with
      | some target => return .alias name target
      | none => failure
    | _ => do
      let ps ← properties
      let node ← content inBlock asValue ps fuel
      named ps node

/-- What comes after the properties of a node. -/
def content (inBlock asValue : Bool) (ps : Properties) : Nat → Reader Node
  | 0 => failure
  | fuel + 1 => do
    match ← peek with
    | .scalar text plain =>
      take
      return scalar none text plain
    | .flowListStart =>
      take
      return list (← flowItems true fuel)
    | .flowTableStart =>
      take
      return table (← flowFields true fuel)
    | t =>
      if asValue && t == .item then return list (← looseItems fuel)
      else if inBlock && t == .listStart then
        take
        return list (← items fuel)
      else if inBlock && t == .tableStart then
        take
        return table (← fields fuel)
      else if ps.name.isSome || ps.tag.isSome then return absent
      else failure

/-- A node, unless one of the tokens comes next that may follow an absent one. -/
def nodeUnless (ends : List Token) (inBlock asValue : Bool) : Nat → Reader Node
  | 0 => failure
  | fuel + 1 => do
    if ends.contains (← peek) then return absent else node inBlock asValue fuel

/-- The items of a list up to its end. -/
def items : Nat → Reader (List Node)
  | 0 => failure
  | fuel + 1 => do
    if ← takeIf .item then
      let first ← nodeUnless [.item, .blockEnd] true false fuel
      return first :: (← items fuel)
    else if ← takeIf .blockEnd then return []
    else failure

/-- The items of a list that has no indentation of its own. -/
def looseItems : Nat → Reader (List Node)
  | 0 => failure
  | fuel + 1 => do
    if ← takeIf .item then
      let first ← nodeUnless [.item, .key, .value, .blockEnd] true false fuel
      return first :: (← looseItems fuel)
    else return []

/-- The fields of a table up to its end. -/
def fields : Nat → Reader (List (Node × Node))
  | 0 => failure
  | fuel + 1 => do
    if ← takeIf .key then
      let key ← nodeUnless [.key, .value, .blockEnd] true true fuel
      let value ← fieldValue [.key, .value, .blockEnd] true fuel
      return (key, value) :: (← fields fuel)
    else if ← takeIf .blockEnd then return []
    else failure

/-- The value of a field, which may be left out together with its colon. -/
def fieldValue (ends : List Token) (inBlock : Bool) : Nat → Reader Node
  | 0 => failure
  | fuel + 1 => do
    if ← takeIf .value then nodeUnless ends inBlock inBlock fuel else return absent

/-- The items of a list in brackets. An item may be a field, which is a table then. -/
def flowItems (isFirst : Bool) : Nat → Reader (List Node)
  | 0 => failure
  | fuel + 1 => do
    if ← takeIf .flowListEnd then return []
    if !isFirst && !(← takeIf .comma) then failure
    if ← takeIf .flowListEnd then return []
    if ← takeIf .key then
      let t ← peek
      let key ←
        if [.value, .comma, .flowListEnd].contains t then do
          take
          pure absent
        else node false false fuel
      let value ← fieldValue [.comma, .flowListEnd] false fuel
      return table [(key, value)] :: (← flowItems false fuel)
    else
      let first ← node false false fuel
      return first :: (← flowItems false fuel)

/-- The fields of a table in brackets. A field may be a key alone. -/
def flowFields (isFirst : Bool) : Nat → Reader (List (Node × Node))
  | 0 => failure
  | fuel + 1 => do
    if ← takeIf .flowTableEnd then return []
    if !isFirst && !(← takeIf .comma) then failure
    if ← takeIf .flowTableEnd then return []
    if ← takeIf .key then
      let key ← nodeUnless [.value, .comma, .flowTableEnd] false false fuel
      let value ← fieldValue [.comma, .flowTableEnd] false fuel
      return (key, value) :: (← flowFields false fuel)
    else
      let key ← node false false fuel
      return (key, absent) :: (← flowFields false fuel)

end

/-- Takes the version in front of a document, and tells whether there is one. -/
def version : Reader Bool := do
  match ← peek with
  | .version major minor =>
    if major != 1 || minor != 1 then failure
    take
    return true
  | _ => return false

/-- Whether a token may follow a document that is left empty. -/
def endsDocument : Token → Bool
  | .version _ _ | .documentStart | .documentEnd | .streamEnd => true
  | _ => false

/-- The tree of the first document of a text, if there is a document. Only the token
after the document is looked at. -/
def document (fuel : Nat) : Reader (Option Node) := do
  if (← peek) == .streamEnd then return none
  let hasVersion ← version
  let hasStart ← takeIf .documentStart
  if hasVersion && !hasStart then failure
  let node ← if hasStart && endsDocument (← peek) then pure absent else node true false fuel
  let _ ← peek
  return some node

/-- The tree of the first document of a text. -/
def read? (s : List Char) : Option (Option Node) :=
  (document (4 * s.length + 16)).run' ⟨Scanner.start s, 0, []⟩

end Node

end Yaml

end BlockLang
