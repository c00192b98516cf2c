import BlockLang.Config.Toml.Statement

/-!
# What a TOML text defines

The statements of a text define keys one after the other. A key is defined once,
except that a table which came about only because other keys are in it may still be
given a header or further keys.
-/

namespace BlockLang

namespace Toml

/-- What a key stands for: a value, a table, or tables of the same name, the last of
which is the current one. -/
inductive Entry where
  | leaf (value : Datum)
  | table (entries : List (Text × Entry))
  | tables (items : List (List (Text × Entry)))

/-- The entries of a table. -/
abbrev Entries := List (Text × Entry)

namespace Entries

/-- The entries with one of them set. -/
def set (name : Text) (e : Entry) : Entries → Entries
  | [] => [(name, e)]
  | (n, old) :: es => if n == name then (n, e) :: es else (n, old) :: set name e es

end Entries

/-- The table that an entry stands for, if it stands for one. -/
def Entry.current? : Entry → Option Entries
  | leaf _ => none
  | table es => some es
  | tables items => items.getLast?

/-- An entry with its current table changed. -/
def Entry.withCurrent (es : Entries) : Entry → Entry
  | leaf v => leaf v
  | table _ => table es
  | tables items => tables (items.dropLast ++ [es])

/-- The keys that have been defined in order, what they stand for, the keys of tables
that came about on their own, and the keys of lists. -/
structure Registry where
  root : Entries
  order : List (List Text)
  implied : List (List Text)
  lists : List (List Text)

namespace Registry

/-- Nothing defined. -/
def empty : Registry :=
  ⟨[], [], [], []⟩

/-- The table at a path. -/
def tableAt? : List Text → Entries → Option Entries
  | [], es => some es
  | name :: path, es => do tableAt? path (← (← es.lookup name).current?)

/-- Entries with the table at a path changed. -/
def withTableAt (new : Entries) : List Text → Entries → Entries
  | [], _ => new
  | name :: path, es =>
    match es.lookup name with
    | none => es
    | some e => Entries.set name (e.withCurrent (withTableAt new path (e.current?.getD []))) es

/-- With the entry of a name in the table at a path. -/
def put? (path : List Text) (name : Text) (e : Entry) (r : Registry) : Option Registry := do
  let es ← tableAt? path r.root
  return { r with root := withTableAt (Entries.set name e es) path r.root }

/-- With a key that came about on its own. -/
def imply (key : List Text) (r : Registry) : Registry :=
  { r with implied := key :: r.implied }

/-- With a key that did not come about on its own. -/
def explain (key : List Text) (r : Registry) : Registry :=
  { r with implied := r.implied.filter (· != key) }

/-- With a key that is known to be that of a list or not. -/
def note (key : List Text) (isList : Bool) (r : Registry) : Registry :=
  let others := r.lists.filter (· != key)
  { r with lists := if isList then key :: others else others }

/-- With a key next in order. -/
def append (key : List Text) (r : Registry) : Registry :=
  { r with order := r.order ++ [key] }

/-- With the definition of a name in the table at a path. What has come about on its
own is kept, unless it is a list, which takes the place of its items. -/
def define? (path : List Text) (name : Text) (e : Entry) (r : Registry) : Option Registry := do
  let es ← tableAt? path r.root
  let key := path ++ [name]
  if (es.lookup name).isNone then r.put? path name e
  else if !r.implied.contains key then failure
  else if r.lists.contains key then (r.explain key).put? path name e
  else return r.explain key

/-- With a table at every path to a key, from the table at the path `before` on. -/
def enter? (before : List Text) : List Text → Registry → Option Registry
  | [], r => some r
  | name :: path, r => do
    let here := before ++ [name]
    let es ← tableAt? before r.root
    let r ←
      match es.lookup name with
      | none => (r.imply here).put? before name (.table [])
      | some e => if e.current?.isSome then some r else none
    enter? here path r

/-- With a table at a key, or with one more table there if it is repeatable. -/
def openTable? (key : List Text) (repeatable : Bool) (r : Registry) : Option Registry := do
  let path := key.dropLast
  let name := key.getLast?.getD []
  let r ← r.enter? [] path
  if repeatable then
    match (← tableAt? path r.root).lookup name with
    | none => r.put? path name (.tables [[]])
    | some (.tables items) => r.put? path name (.tables (items ++ [[]]))
    | some _ => failure
  else r.define? path name (.table [])

/-- With a table at every key that is a part of a dotted key below a path. -/
def openParts? (path : List Text) : List Text → Registry → Option Registry
  | [], r => some r
  | name :: parts, r => do
    let here := path ++ [name]
    openParts? here parts (← (r.imply here).openTable? here false)

mutual

/-- With the tables that come with the value of a key. -/
def visit? (key : List Text) (inList : Bool) : Datum → Registry → Option Registry
  | .list items, r => visitItems? key items (r.note key true)
  | .table fields, r => do visitFields? key fields (← (r.imply key).openTable? key inList)
  | _, r => some r

/-- With the tables that come with the items of a list. -/
def visitItems? (key : List Text) : List Datum → Registry → Option Registry
  | [], r => some r
  | item :: items, r => do visitItems? key items (← visit? key true item r)

/-- With the fields of a table at a path. -/
def visitFields? (path : List Text) : List (List Text × Datum) → Registry → Option Registry
  | [], r => some r
  | (key, v) :: fields, r => do
    let r ← r.openParts? path key.dropLast
    let full := path ++ key
    let r ← visit? full false v (r.append full)
    let isList := match v with | .list _ => true | _ => false
    let r ← r.define? full.dropLast (full.getLast?.getD []) (.leaf v)
    visitFields? path fields (r.note full isList)

end

/-- With the definitions of statements in the table at a path. -/
def visitAll? (path : List Text) : List Statement → Registry → Option Registry
  | [], r => some r
  | .header key repeatable :: rest, r => do
    let r ← r.openTable? key repeatable
    visitAll? key rest ((r.note key false).append key)
  | .setting key v :: rest, r => do visitAll? path rest (← visitFields? path [(key, v)] r)

/-- What statements define. -/
def ofStatements? (statements : List Statement) : Option Registry :=
  visitAll? [] statements empty

end Registry

end Toml

end BlockLang
