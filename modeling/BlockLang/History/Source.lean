import BlockLang.Text.Quoted

/-!
# Where a history is kept

A history is kept in a database. The text that names the database begins with
the kind of the database; a text that names no kind is the path of a file.
-/

namespace BlockLang

/-- The kinds of databases. -/
inductive DatabaseKind where
  | sqlite
  | mysql
  | postgres
  deriving DecidableEq

namespace DatabaseKind

/-- The name of a kind of database. -/
def name : DatabaseKind → Text
  | sqlite => "sqlite3"
  | mysql => "mysql"
  | postgres => "postgres"

/-- The kind of database with a given name. -/
def ofName? (name : Text) : Option DatabaseKind :=
  [sqlite, mysql, postgres].find? (·.name == name)

/-- The type of the column that numbers the rows. -/
def idType : DatabaseKind → Text
  | sqlite => "INTEGER PRIMARY KEY AUTOINCREMENT"
  | mysql => "BIGINT AUTO_INCREMENT PRIMARY KEY"
  | postgres => "BIGSERIAL PRIMARY KEY"

/-- The type of a column of long texts. -/
def textType : DatabaseKind → Text
  | mysql => "LONGTEXT"
  | sqlite | postgres => "TEXT"

/-- The command that makes the table of runs. -/
def schema (kind : DatabaseKind) : Text :=
  "CREATE TABLE IF NOT EXISTS runs (\n" ++
    "\tid " ++ kind.idType ++ ",\n" ++
    "\tcreated_at BIGINT NOT NULL,\n" ++
    "\tsource " ++ kind.textType ++ " NOT NULL,\n" ++
    "\tresult " ++ kind.textType ++ ",\n" ++
    "\terror_class VARCHAR(64),\n" ++
    "\terror_message " ++ kind.textType ++ ",\n" ++
    "\tlexical_scoping INTEGER NOT NULL,\n" ++
    "\ttrace INTEGER NOT NULL,\n" ++
    "\tduration_us BIGINT NOT NULL\n)"

/-- A query with numbered parameters instead of question marks, of which `n`
came before. -/
def numbered (n : Nat) : List Char → Text
  | [] => []
  | c :: cs =>
    if c == '?' then "$" ++ Text.ofNat (n + 1) ++ numbered (n + 1) cs
    else String.utf8EncodeChar c ++ numbered n cs

/-- A query in the dialect of a database. One kind numbers its parameters. -/
def rebind (kind : DatabaseKind) (query : Text) : Text :=
  match kind with
  | postgres => numbered 0 query.chars
  | sqlite | mysql => query

end DatabaseKind

/-- A database: its kind and where it is. -/
structure HistorySource where
  kind : DatabaseKind
  location : Text
  deriving DecidableEq

namespace HistorySource

/-- Why a text names no database. -/
inductive Flaw where
  | empty
  | unknownKind (name : Text)

/-- The message about a text that names no database. -/
def Flaw.message : Flaw → Text
  | empty => "empty history DSN"
  | unknownKind name => "unsupported history DSN scheme in " ++ name.quoted

/-- The beginnings that name a kind, and whether they belong to the location. -/
def beginnings : List (Text × DatabaseKind × Bool) :=
  [("sqlite3://", .sqlite, false), ("sqlite://", .sqlite, false), ("mysql://", .mysql, false),
   ("postgres://", .postgres, true), ("postgresql://", .postgres, true)]

/-- The database that a text names. -/
def read (name : Text) : Except Flaw HistorySource :=
  if name.isEmpty then .error .empty
  else
    match beginnings.find? (·.1.isPrefixOf name) with
    | some (start, kind, kept) => .ok ⟨kind, if kept then name else name.drop start.length⟩
    | none =>
      if Text.contains "://" name then .error (.unknownKind name) else .ok ⟨.sqlite, name⟩

/-- The part of a location that is the path of a file. It is empty for a database
in memory. -/
def file (s : HistorySource) : Text :=
  let path := (Text.dropStart "file:" s.location).takeWhile (· != 0x3F)
  if path == (":memory:" : Text) then [] else path

end HistorySource

end BlockLang
