import Schemata.Ddl.Statement
import Schemata.Sql.Default
import Schemata.SqlType.Conversion
import Schemata.SqlType.Family
import Schemata.Text.LetterCase

/-! # Tables of PostgreSQL in MySQL

`Mysql.convert` writes a table for MySQL.  Serial types become integers with `AUTO_INCREMENT`, truth
values become `TINYINT(1)`, arrays become JSON documents, and comments stand in the declarations.  A
numbered column has to be a key, so one is added where the table has none. -/

namespace Schemata.Ddl.Mysql

open Schemata.Sql Schemata.SqlType Schemata.Text

/-! ### Types -/

/-- The type of a column. -/
def chosenType (c : Column) : ChosenType :=
  if 0 < dimensions c.rawType then { text := "JSON" }
  else
    match counterpart .postgresql c with
    | some t =>
      { text := t.render c
        numbered := t.autoIncrement || c.autoIncrement
        boolean := t.render c == "TINYINT(1)" }
    | none =>
      { text := upper (element c.rawType) ++ c.typeParams.getD "", numbered := c.autoIncrement }

/-- The notices on the type of a column. -/
def typeNotices (c : Column) : List Notice :=
  if 0 < dimensions c.rawType then [.arrayToJson c.name (upper c.rawType)]
  else if (counterpart .postgresql c).isSome then []
  else [.copiedType c.name (upper (element c.rawType))]

/-! ### Defaults -/

/-- A truth value as a number. -/
def bit (b : Bool) : String := if b then "1" else "0"

/-- A default for a column of the type `t`.  Calls of functions other than that for the current time
are not portable. -/
def defaultText (c : Column) (t : ChosenType) (value : DefaultValue) : Except Notice String :=
  match if t.boolean then value.asBool else none with
  | some b => .ok (bit b)
  | none =>
    match value with
    | .null => .ok "NULL"
    | .bool b => .ok (bit b)
    | .number text => .ok text
    | .string s => .ok (literalForMysql s)
    | .currentTimestamp precision => .ok (currentTimestampText precision)
    | .currentDate =>
      .ok (if Family.ofColumn c = some .date then "(CURRENT_DATE)" else "CURRENT_TIMESTAMP")
    | .function text => .error (.droppedFunction c.name text)
    | .expression text => .ok text

/-- The default of a column, which one that is numbered does not have. -/
def default? (c : Column) (t : ChosenType) : Option (Except Notice String) :=
  if t.numbered then none
  else c.defaultValue.map fun text => defaultText c t (.ofText .postgresql text)

/-! ### Columns -/

/-- The declaration of a column. -/
def columnLine (t : Table) (c : Column) : ColumnLine :=
  let type := chosenType c
  { name := c.name
    type := type.text
    clauses :=
      (if c.notNull || type.numbered then [.notNull] else []) ++
        (if type.numbered then [.autoIncrement] else []) ++
        defaultClauses (default? c type) ++
        ((t.commentFor c).map ColumnClause.comment).toList }

/-! ### Keys -/

/-- The keys of a table apart from the unique ones. -/
structure Keys where
  primary : List String
  secondary : List String := []
deriving DecidableEq, Repr

/-- The key that has to be added for a column: one that is numbered is part of the primary key or
comes first in a unique one. -/
def Keys.needed (keys : Keys) (t : Table) (c : Column) : Option AddedKey :=
  if !(chosenType c).numbered || keys.primary.contains c.name then none
  else if keys.primary.isEmpty then some .primary
  else if t.uniqueKeys.any (·.head? == some c.name) then none
  else some .secondary

/-- The keys with the one that is needed for a column. -/
def Keys.provide (keys : Keys) (t : Table) (c : Column) : Keys :=
  match keys.needed t c with
  | none => keys
  | some .primary => { keys with primary := keys.primary ++ [c.name] }
  | some .secondary => { keys with secondary := keys.secondary ++ [c.name] }

/-- The keys of a table, with those that its numbered columns need. -/
def keysOf (t : Table) : Keys :=
  t.columns.foldl (fun keys c => keys.provide t c) { primary := t.distinctPrimaryKeys }

/-- The elements that declare the keys.  A unique constraint on the columns of the primary key is
left out. -/
def keyElements (t : Table) : List TableElement :=
  let keys := keysOf t
  (if keys.primary.isEmpty then [] else [.primaryKey keys.primary]) ++
    (t.uniqueKeys.filter (· != keys.primary)).map TableElement.unique ++
    keys.secondary.map TableElement.key

/-! ### Tables -/

/-- The notices on a column in a table that has these keys so far. -/
def columnNotices (t : Table) (keys : Keys) (c : Column) : List Notice :=
  typeNotices c ++ ((keys.needed t c).map (Notice.addedKey c.name)).toList ++
    defaultNotices (default? c (chosenType c))

/-- The notices on the columns in order, each in a table that has the keys of those before it. -/
def noticesFrom (t : Table) (keys : Keys) : List Column → List Notice
  | [] => []
  | c :: rest => columnNotices t keys c ++ noticesFrom t (keys.provide t c) rest

/-- A table in MySQL. -/
def convert (options : Options) (t : Table) : Conversion where
  create :=
    { name := t.name
      elements := t.columns.map (.column <| columnLine t ·) ++ keyElements t
      engine := options.tableOptions
      comment := t.comment }
  notices := noticesFrom t { primary := t.distinctPrimaryKeys } t.columns

end Schemata.Ddl.Mysql
