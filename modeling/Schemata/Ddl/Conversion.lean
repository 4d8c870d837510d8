import Schemata.Ddl.Mysql
import Schemata.Ddl.Postgres
import Schemata.Sql.Script

/-! # Conversion of tables and scripts

`convert` writes a table in the other dialect and `hops` passes a script back and forth between the
dialects. -/

namespace Schemata.Ddl

open Schemata.Sql

/-- The text of a converted table, with the notices. -/
structure Converted where
  sql : String
  notices : List Notice
deriving DecidableEq, Repr

/-- The warnings of a converted table. -/
def Converted.warnings (c : Converted) : List String := c.notices.map Notice.message

/-- A table in a dialect. -/
def conversion (target : Dialect) (options : Options) (t : Table) : Conversion :=
  match target with
  | .mysql => Mysql.convert options t
  | .postgresql => Postgres.convert options t

/-- The notice on a table that was not read in the dialect that the direction starts from. -/
def mismatchNotices (direction : Direction) (t : Table) : List Notice :=
  if t.dialect = direction.source then [] else [.dialectMismatch t.name t.dialect direction]

/-- A table in the dialect that the direction leads to. -/
def convert (direction : Direction) (options : Options) (t : Table) : Converted :=
  let c := conversion direction.target options t
  { sql := c.text (spellingOf direction.target)
    notices := mismatchNotices direction t ++ c.notices }

/-- One conversion of a whole script. -/
structure Hop where
  direction : Direction
  tables : List Table
  converted : List Converted
deriving DecidableEq, Repr

/-- The script that a conversion gives. -/
def Hop.script (h : Hop) : String := "\n".intercalate (h.converted.map (·.sql))

/-- The conversion of a script out of its dialect. -/
def hop (dialect : Dialect) (options : Options) (script : String) : Except ParseError Hop :=
  (parseAll dialect script).map fun tables =>
    let direction := Direction.outOf dialect
    { direction, tables, converted := tables.map (convert direction options) }

/-- A script converted `n` times, each time out of the dialect that the last conversion led to.  The
list ends with the first text that cannot be read. -/
def hops (options : Options) : Nat → Dialect → String → List (Except ParseError Hop)
  | 0, _, _ => []
  | n + 1, dialect, script =>
    match hop dialect options script with
    | .error e => [.error e]
    | .ok h => .ok h :: hops options n dialect.other h.script

end Schemata.Ddl
