import Schemata.SqlType.Name
import Schemata.Table

/-! # Conversion of types

Every type of one dialect that has a counterpart in the other, with what becomes of its
parameters.  A type is known to a dialect when it has a counterpart. -/

namespace Schemata.SqlType

/-- What becomes of the parameters of a converted type. -/
inductive ParamRule
  /-- They are kept. -/
  | keep
  /-- They are kept; a type without parameters is given these. -/
  | keepOr (params : String)
  /-- They are dropped. -/
  | drop
deriving DecidableEq, Repr

/-- The counterpart of a type. -/
structure Counterpart where
  /-- The name in upper case, with its parameters if they are fixed. -/
  name : String
  params : ParamRule := .drop
  /-- Whether the type is numbered by the database. -/
  autoIncrement : Bool := false
deriving DecidableEq, Repr

namespace Counterpart

/-- A type that takes no parameters over. -/
def fixed (name : String) : Counterpart := { name }

/-- A type that keeps the parameters. -/
def keeping (name : String) : Counterpart := { name, params := .keep }

/-- A type that keeps the parameters and is given some if it has none. -/
def keepingOr (name params : String) : Counterpart := { name, params := .keepOr params }

/-- A type that is numbered by the database. -/
def numbered (name : String) : Counterpart := { name, autoIncrement := true }

/-- The type as it is written for a column. -/
def render (t : Counterpart) (c : Column) : String :=
  match t.params, c.typeParams with
  | .keep, some params => t.name ++ params
  | .keepOr _, some params => t.name ++ params
  | .keepOr params, none => t.name ++ "(" ++ params ++ ")"
  | _, _ => t.name

/-- The name in lower case without parameters. -/
def baseName (t : Counterpart) : String :=
  Text.asciiLower (Text.trim (String.ofList (t.name.toList.takeWhile (· ≠ '('))))

end Counterpart

/-- The types of MySQL and their counterparts in PostgreSQL.  Display widths of integers are
dropped, and an unsigned integer becomes the next wider type. -/
def mysqlTypes : List (String × Counterpart) :=
  [("tinyint", .fixed "SMALLINT"), ("smallint", .fixed "SMALLINT"),
    ("mediumint", .fixed "INTEGER"), ("int", .fixed "INTEGER"), ("integer", .fixed "INTEGER"),
    ("bigint", .fixed "BIGINT"), ("tinyint unsigned", .fixed "SMALLINT"),
    ("smallint unsigned", .fixed "INTEGER"), ("mediumint unsigned", .fixed "INTEGER"),
    ("int unsigned", .fixed "BIGINT"), ("integer unsigned", .fixed "BIGINT"),
    ("bigint unsigned", .fixed "NUMERIC(20)"), ("serial", .numbered "BIGSERIAL"),
    ("decimal", .keeping "NUMERIC"), ("numeric", .keeping "NUMERIC"),
    ("dec", .keeping "NUMERIC"), ("fixed", .keeping "NUMERIC"), ("float", .fixed "REAL"),
    ("double", .fixed "DOUBLE PRECISION"), ("double precision", .fixed "DOUBLE PRECISION"),
    ("real", .fixed "DOUBLE PRECISION"), ("bit", .keeping "BIT"), ("bool", .fixed "BOOLEAN"),
    ("boolean", .fixed "BOOLEAN"), ("char", .keeping "CHAR"),
    ("varchar", .keepingOr "VARCHAR" "255"), ("tinytext", .fixed "TEXT"),
    ("text", .fixed "TEXT"), ("mediumtext", .fixed "TEXT"), ("longtext", .fixed "TEXT"),
    ("enum", .fixed "VARCHAR"), ("set", .fixed "TEXT"), ("binary", .fixed "BYTEA"),
    ("varbinary", .fixed "BYTEA"), ("tinyblob", .fixed "BYTEA"), ("blob", .fixed "BYTEA"),
    ("mediumblob", .fixed "BYTEA"), ("longblob", .fixed "BYTEA"), ("date", .fixed "DATE"),
    ("time", .keeping "TIME"), ("datetime", .keeping "TIMESTAMP"),
    ("timestamp", .keeping "TIMESTAMP"), ("year", .fixed "SMALLINT"), ("json", .fixed "JSONB")]

/-- The types of PostgreSQL and their counterparts in MySQL. -/
def postgresTypes : List (String × Counterpart) :=
  [("smallint", .fixed "SMALLINT"), ("int2", .fixed "SMALLINT"), ("integer", .fixed "INT"),
    ("int", .fixed "INT"), ("int4", .fixed "INT"), ("bigint", .fixed "BIGINT"),
    ("int8", .fixed "BIGINT"), ("smallserial", .numbered "SMALLINT"),
    ("serial2", .numbered "SMALLINT"), ("serial", .numbered "INT"), ("serial4", .numbered "INT"),
    ("bigserial", .numbered "BIGINT"), ("serial8", .numbered "BIGINT"),
    ("numeric", .keeping "DECIMAL"), ("decimal", .keeping "DECIMAL"), ("real", .fixed "FLOAT"),
    ("float4", .fixed "FLOAT"), ("double precision", .fixed "DOUBLE"),
    ("float8", .fixed "DOUBLE"), ("float", .fixed "DOUBLE"), ("money", .fixed "DECIMAL(19,2)"),
    ("boolean", .fixed "TINYINT(1)"), ("bool", .fixed "TINYINT(1)"),
    ("varchar", .keepingOr "VARCHAR" "255"), ("char", .keeping "CHAR"),
    ("bpchar", .keeping "CHAR"), ("text", .fixed "LONGTEXT"), ("citext", .fixed "LONGTEXT"),
    ("xml", .fixed "LONGTEXT"), ("tsvector", .fixed "LONGTEXT"), ("uuid", .fixed "CHAR(36)"),
    ("inet", .fixed "VARCHAR(45)"), ("cidr", .fixed "VARCHAR(45)"),
    ("macaddr", .fixed "VARCHAR(17)"), ("interval", .fixed "VARCHAR(64)"),
    ("date", .fixed "DATE"), ("time", .keeping "TIME"), ("timetz", .keeping "TIME"),
    ("timestamp", .keeping "DATETIME"), ("timestamptz", .keeping "TIMESTAMP"),
    ("bytea", .fixed "LONGBLOB"), ("bit", .keeping "BIT"), ("varbit", .keeping "BIT"),
    ("json", .fixed "JSON"), ("jsonb", .fixed "JSON")]

/-- The types of a dialect and their counterparts in the other. -/
def typesOf : Dialect → List (String × Counterpart)
  | .mysql => mysqlTypes
  | .postgresql => postgresTypes

/-- Whether a dialect knows a type or the element type of an array. -/
def isKnown (d : Dialect) (rawType : String) : Bool :=
  ((typesOf d).lookup (element rawType)).isSome

/-- The counterpart of the type of a column.  In MySQL an unsigned column is looked up as such
first. -/
def counterpart (source : Dialect) (c : Column) : Option Counterpart :=
  let base := element c.rawType
  match source with
  | .postgresql => postgresTypes.lookup base
  | .mysql =>
    if c.unsigned then mysqlTypes.lookup (base ++ " unsigned") <|> mysqlTypes.lookup base
    else mysqlTypes.lookup base

end Schemata.SqlType
