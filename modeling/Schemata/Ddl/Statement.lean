import Schemata.Notice
import Schemata.Sql.Quote

/-! # Statements that create tables

The statements that a conversion writes, as data, and their text in either dialect.  What a column
or a key clause says can be asked of the data; `CreateTable.text` and `CommentOn.text` only spell it
out. -/

namespace Schemata.Ddl

open Schemata.Sql

/-! ### Spelling -/

/-- How a dialect writes the parts of a statement. -/
structure Spelling where
  /-- An identifier. -/
  name : String → String
  /-- A list of identifiers. -/
  names : List String → String
  /-- A string literal. -/
  literal : String → String
  /-- The words before the names of a unique constraint. -/
  unique : String

/-- MySQL quotes every identifier. -/
def mysqlSpelling : Spelling :=
  ⟨quoteMysql, namesForMysql, literalForMysql, "UNIQUE KEY"⟩

/-- PostgreSQL quotes an identifier where it has to. -/
def postgresSpelling : Spelling :=
  ⟨nameForPostgres, namesForPostgres, literalForPostgres, "UNIQUE"⟩

/-- The spelling of a dialect. -/
def spellingOf : Dialect → Spelling
  | .mysql => mysqlSpelling
  | .postgresql => postgresSpelling

/-! ### Columns -/

/-- What follows the type of a column. -/
inductive ColumnClause
  | notNull
  | primaryKey
  | autoIncrement
  | defaultTo (text : String)
  | comment (text : String)
  /-- The value is one of these. -/
  | memberOf (members : List String)
deriving DecidableEq, Repr

/-- The declaration of a column. -/
structure ColumnLine where
  name : String
  /-- The type with its parameters. -/
  type : String
  clauses : List ColumnClause
deriving DecidableEq, Repr

/-- A clause of the column `name`. -/
def ColumnClause.text (spelling : Spelling) (name : String) : ColumnClause → String
  | notNull => "NOT NULL"
  | primaryKey => "PRIMARY KEY"
  | autoIncrement => "AUTO_INCREMENT"
  | defaultTo value => "DEFAULT " ++ value
  | comment value => "COMMENT " ++ spelling.literal value
  | memberOf members =>
    "CHECK (" ++ spelling.name name ++ " IN (" ++
      ", ".intercalate (members.map spelling.literal) ++ "))"

/-- The text of a declaration: name, type and clauses, with a space between each two. -/
def ColumnLine.text (spelling : Spelling) (line : ColumnLine) : String :=
  " ".intercalate
    (spelling.name line.name :: line.type :: line.clauses.map (·.text spelling line.name))

/-! ### Tables -/

/-- An element of the body of a table. -/
inductive TableElement
  | column (line : ColumnLine)
  | primaryKey (names : List String)
  | unique (names : List String)
  | key (name : String)
deriving DecidableEq, Repr

/-- The text of an element. -/
def TableElement.text (spelling : Spelling) : TableElement → String
  | column line => line.text spelling
  | primaryKey names => "PRIMARY KEY (" ++ spelling.names names ++ ")"
  | unique names => spelling.unique ++ " (" ++ spelling.names names ++ ")"
  | key name => "KEY (" ++ spelling.name name ++ ")"

/-- Whether an element declares a primary key. -/
def TableElement.declaresPrimaryKey : TableElement → Bool
  | column line => line.clauses.contains .primaryKey
  | primaryKey _ => true
  | _ => false

/-- A statement that creates a table. -/
structure CreateTable where
  name : String
  elements : List TableElement
  /-- Whether the storage engine and the character set are given. -/
  engine : Bool := false
  comment : Option String := none
deriving DecidableEq, Repr

namespace CreateTable

/-- The options after the body. -/
def options (spelling : Spelling) (t : CreateTable) : String :=
  (if t.engine then " ENGINE=InnoDB DEFAULT CHARSET=utf8mb4" else "") ++
    match t.comment with
    | some comment => " COMMENT=" ++ spelling.literal comment
    | none => ""

/-- The text of a statement, with one element to a line. -/
def text (spelling : Spelling) (t : CreateTable) : String :=
  "CREATE TABLE " ++ spelling.name t.name ++ " (\n" ++
    ",\n".intercalate (t.elements.map ("    " ++ ·.text spelling)) ++ "\n)" ++
    t.options spelling ++ ";"

end CreateTable

/-! ### Comments -/

/-- A statement that gives a comment to a table, or to one of its columns. -/
structure CommentOn where
  table : String
  column : Option String := none
  comment : String
deriving DecidableEq, Repr

/-- The text of a statement, in which every identifier is quoted. -/
def CommentOn.text (c : CommentOn) : String :=
  let object :=
    match c.column with
    | none => "TABLE " ++ quotePostgres c.table
    | some column => "COLUMN " ++ quotePostgres c.table ++ "." ++ quotePostgres column
  "COMMENT ON " ++ object ++ " IS " ++ literalForPostgres c.comment ++ ";"

/-! ### Conversions -/

/-- What becomes of a table in another dialect. -/
structure Conversion where
  create : CreateTable
  comments : List CommentOn := []
  notices : List Notice
deriving DecidableEq, Repr

/-- The statements of a conversion, one after the other. -/
def Conversion.text (spelling : Spelling) (c : Conversion) : String :=
  "\n".intercalate (c.create.text spelling :: c.comments.map CommentOn.text)

/-- What is written in addition to the columns and keys. -/
structure Options where
  /-- The storage engine and the character set of MySQL. -/
  tableOptions : Bool := true
  /-- The comment statements of PostgreSQL. -/
  commentStatements : Bool := true
deriving DecidableEq, Repr

/-- The type that a column is given, and what follows for its other clauses. -/
structure ChosenType where
  text : String
  /-- The database numbers the column. -/
  numbered : Bool := false
  /-- The column holds truth values. -/
  boolean : Bool := false
deriving DecidableEq, Repr

/-- The clauses for a default, or the notice that it is dropped. -/
def defaultClauses : Option (Except Notice String) → List ColumnClause
  | some (.ok text) => [.defaultTo text]
  | _ => []

/-- The notice on a default that is dropped. -/
def defaultNotices : Option (Except Notice String) → List Notice
  | some (.error notice) => [notice]
  | _ => []

end Schemata.Ddl
