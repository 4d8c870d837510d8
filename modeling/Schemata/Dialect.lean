import Schemata.Choice
import Schemata.Text.Basic
import Schemata.Text.Blank

/-! # Dialects and directions

The two dialects of SQL that are read and written, and the two directions of conversion between
them.  Names are recognised without regard to ASCII case and to blanks around them. -/

namespace Schemata

open Schemata.Text

/-- A dialect of SQL. -/
inductive Dialect
  | mysql
  | postgresql
deriving DecidableEq, Repr

namespace Dialect

/-- The name of a dialect. -/
def name : Dialect → String
  | mysql => "mysql"
  | postgresql => "postgresql"

/-- The dialect that the other one is converted to. -/
def other : Dialect → Dialect
  | mysql => postgresql
  | postgresql => mysql

/-- The names by which a dialect is known. -/
def known : List (String × Dialect) :=
  [("mysql", mysql), ("mariadb", mysql), ("postgresql", postgresql), ("postgres", postgresql),
    ("pg", postgresql)]

/-- The dialect of a name. -/
def ofName (s : String) : Except UnsupportedChoice Dialect :=
  match known.lookup (asciiLower (trim s)) with
  | some d => .ok d
  | none => .error ⟨.dialect, s, [mysql.name, postgresql.name]⟩

end Dialect

/-- A direction of conversion. -/
inductive Direction
  | pgToMysql
  | mysqlToPg
deriving DecidableEq, Repr

namespace Direction

/-- Both directions. -/
def all : List Direction := [pgToMysql, mysqlToPg]

/-- The name of a direction. -/
def name : Direction → String
  | pgToMysql => "pg2mysql"
  | mysqlToPg => "mysql2pg"

/-- The dialect that is read. -/
def source : Direction → Dialect
  | pgToMysql => .postgresql
  | mysqlToPg => .mysql

/-- The dialect that is written. -/
def target (d : Direction) : Dialect := d.source.other

/-- The direction out of a dialect. -/
def outOf : Dialect → Direction
  | .mysql => mysqlToPg
  | .postgresql => pgToMysql

/-- The direction of a name. -/
def ofName (s : String) : Except UnsupportedChoice Direction :=
  match all.find? (·.name == asciiLower (trim s)) with
  | some d => .ok d
  | none => .error ⟨.direction, s, all.map name⟩

/-- A conversion as messages write it. -/
def arrow (source target : Dialect) : String := source.name ++ " -> " ++ target.name

/-- The direction between two dialects, which have to differ. -/
def between (source target : Dialect) : Except UnsupportedChoice Direction :=
  if target = source.other then .ok (outOf source)
  else .error ⟨.conversion, arrow source target, all.map fun d => arrow d.source d.target⟩

end Direction

end Schemata
