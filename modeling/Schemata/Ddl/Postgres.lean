import Schemata.Ddl.Statement
import Schemata.Sql.Default
import Schemata.SqlType.Conversion
import Schemata.SqlType.Family
import Schemata.Text.LetterCase

/-! # Tables of MySQL in PostgreSQL

`Postgres.convert` writes a table for PostgreSQL.  Columns with `AUTO_INCREMENT` get a serial type,
`TINYINT(1)` becomes `BOOLEAN`, an enumeration becomes text of bounded length with a check, and
comments become statements of their own. -/

namespace Schemata.Ddl.Postgres

open Schemata.Sql Schemata.SqlType Schemata.Text

/-! ### Types -/

/-- The length of the longest member, but at least one. -/
def memberWidth (members : List String) : Nat :=
  (members.map String.length).foldl max 1

/-- The type of the values of a column, whether they are numbered or not. -/
def valueType (c : Column) : String :=
  if c.rawType == "enum" then "VARCHAR(" ++ toString (memberWidth c.members) ++ ")"
  else if c.rawType == "set" then "TEXT"
  else
    match counterpart .mysql c with
    | some t => t.render c
    | none => upper c.rawType ++ c.typeParams.getD ""

/-- The notices on the type of the values. -/
def valueTypeNotices (c : Column) : List Notice :=
  if c.rawType == "enum" then []
  else if c.rawType == "set" then [.setToText c.name]
  else if (counterpart .mysql c).isSome then []
  else [.copiedType c.name (upper c.rawType)]

/-- The serial type of an integer type. -/
def serialOf (type : String) : Option String :=
  [("BIGINT", "BIGSERIAL"), ("NUMERIC(20)", "BIGSERIAL"), ("BIGSERIAL", "BIGSERIAL"),
    ("SMALLINT", "SMALLSERIAL"), ("INTEGER", "SERIAL")].lookup type

/-- The type of a column. -/
def chosenType (c : Column) : ChosenType :=
  if c.isTinyIntBool then { text := "BOOLEAN", boolean := true }
  else if !c.autoIncrement then { text := valueType c, boolean := valueType c == "BOOLEAN" }
  else
    match serialOf (valueType c) with
    | some serial => { text := serial, numbered := true }
    | none => { text := valueType c }

/-- The notices on the type of a column. -/
def typeNotices (c : Column) : List Notice :=
  if c.isTinyIntBool then []
  else if c.autoIncrement && (serialOf (valueType c)).isNone then
    valueTypeNotices c ++ [.droppedNumbering c.name (valueType c)]
  else valueTypeNotices c

/-! ### Defaults -/

/-- A truth value as a keyword. -/
def truth (b : Bool) : String := if b then "TRUE" else "FALSE"

/-- A default for a column of the type `t`.  The date zero is no date. -/
def defaultText (c : Column) (t : ChosenType) (value : DefaultValue) : Except Notice String :=
  match if t.boolean then value.asBool else none with
  | some b => .ok (truth b)
  | none =>
    match value with
    | .null => .ok "NULL"
    | .bool b => .ok (truth b)
    | .number text => .ok text
    | .string s =>
      if (Family.ofColumn c).any Family.isTemporal && isZeroDate s then
        .error (.droppedZeroDate c.name s)
      else .ok (literalForPostgres s)
    | .currentTimestamp precision => .ok (currentTimestampText precision)
    | .currentDate => .ok "CURRENT_DATE"
    | .function text => .ok text
    | .expression text => .ok text

/-- The default of a column, which one of a serial type does not have. -/
def default? (c : Column) (t : ChosenType) : Option (Except Notice String) :=
  if t.numbered then none
  else c.defaultValue.map fun text => defaultText c t (.ofText .mysql text)

/-! ### Keys -/

/-- The name of the one column of the primary key if the database numbers it; such a key is declared
with the column. -/
def inlineKey (t : Table) : Option String :=
  match t.distinctPrimaryKeys with
  | [only] => ((t.column? only).filter (·.autoIncrement)).map (·.name)
  | _ => none

/-- The elements that declare the other keys.  A unique constraint on the columns of the primary key
is left out. -/
def keyElements (t : Table) : List TableElement :=
  let primary := t.distinctPrimaryKeys.filter (fun name => some name != inlineKey t)
  (if primary.isEmpty then [] else [.primaryKey primary]) ++
    (t.uniqueKeys.filter (· != t.distinctPrimaryKeys)).map TableElement.unique

/-! ### Columns -/

/-- The clause that says whether nulls are refused, or that the column is the primary key. -/
def keyClauses (t : Table) (c : Column) (type : ChosenType) : List ColumnClause :=
  if inlineKey t = some c.name then [.primaryKey]
  else if c.notNull && !type.numbered then [.notNull]
  else []

/-- The clause that keeps a column to the members of an enumeration. -/
def memberClauses (c : Column) : List ColumnClause :=
  if c.rawType == "enum" && !c.members.isEmpty then [.memberOf c.members] else []

/-- The declaration of a column. -/
def columnLine (t : Table) (c : Column) : ColumnLine :=
  let type := chosenType c
  { name := c.name
    type := type.text
    clauses := keyClauses t c type ++ defaultClauses (default? c type) ++ memberClauses c }

/-- The notices on a column. -/
def columnNotices (c : Column) : List Notice :=
  typeNotices c ++ defaultNotices (default? c (chosenType c))

/-! ### Tables -/

/-- The statements for the comments of a table and its columns. -/
def comments (t : Table) : List CommentOn :=
  (t.comment.map fun text => { table := t.name, comment := text }).toList ++
    t.columns.filterMap fun c =>
      (t.commentFor c).map fun text => { table := t.name, column := some c.name, comment := text }

/-- A table in PostgreSQL. -/
def convert (options : Options) (t : Table) : Conversion where
  create :=
    { name := t.name
      elements := t.columns.map (.column <| columnLine t ·) ++ keyElements t }
  comments := if options.commentStatements then comments t else []
  notices := t.columns.flatMap columnNotices

end Schemata.Ddl.Postgres
