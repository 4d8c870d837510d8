import Schemata.Dialect

/-! # Tables

A table as one `CREATE TABLE` statement describes it, in a form that is the same for both dialects.
Columns keep the order of their declaration.  Type parameters and defaults are kept as the text of
the source. -/

namespace Schemata

/-- A column of a table. -/
structure Column where
  name : String
  /-- The canonical type name, with one `[]` for every array dimension. -/
  rawType : String
  /-- The first type parameter. -/
  length : Option String := none
  /-- The second type parameter. -/
  precision : Option String := none
  unsigned : Bool := false
  notNull : Bool := false
  autoIncrement : Bool := false
  /-- The text of the default expression. -/
  defaultValue : Option String := none
  comment : Option String := none
  /-- The members of an enumeration or set type. -/
  members : List String := []
deriving DecidableEq, Repr

namespace Column

/-- A column with the given type parameters. -/
def withParams (c : Column) (length precision : Option String) : Column :=
  { c with length, precision }

/-- A column that refuses nulls. -/
def required (c : Column) : Column := { c with notNull := true }

/-- A column numbered by the database; it refuses nulls as well. -/
def numbered (c : Column) : Column := { c with autoIncrement := true, notNull := true }

/-- A column with the given default. -/
def withDefault (c : Column) (text : String) : Column := { c with defaultValue := some text }

/-- A column with the given comment. -/
def withComment (c : Column) (text : String) : Column := { c with comment := some text }

/-- The type parameters between parentheses. -/
def typeParams (c : Column) : Option String :=
  match c.length, c.precision with
  | some l, some p => some ("(" ++ l ++ "," ++ p ++ ")")
  | some l, none => some ("(" ++ l ++ ")")
  | none, _ => none

/-- Whether the column is a `TINYINT(1)`, which by convention holds a truth value. -/
def isTinyIntBool (c : Column) : Bool := c.rawType == "tinyint" && c.length == some "1"

end Column

/-- A table. -/
structure Table where
  /-- The dialect of the source. -/
  dialect : Dialect
  name : String
  columns : List Column := []
  /-- The names in the primary key, from column and table constraints; a name may occur twice. -/
  primaryKeys : List String := []
  /-- The names in each unique constraint. -/
  uniqueKeys : List (List String) := []
  /-- The names in each index. -/
  indexes : List (List String) := []
  /-- The table comment, empty if there is none. -/
  tableComment : String := ""
  /-- Comments that stand apart from the column declarations, sorted by column name. -/
  columnComments : List (String × String) := []
  /-- What was left out of the description, in words. -/
  warnings : List String := []
deriving DecidableEq, Repr

namespace Table

/-- The first column of a name. -/
def column? (t : Table) (name : String) : Option Column := t.columns.find? (·.name == name)

/-- Whether a name is part of the primary key. -/
def isPrimaryKey (t : Table) (name : String) : Bool := t.primaryKeys.contains name

/-- The names in the primary key, each once. -/
def distinctPrimaryKeys (t : Table) : List String := t.primaryKeys.eraseDups

/-- Whether a unique constraint consists of this name alone. -/
def isUniqueAlone (t : Table) (name : String) : Bool := t.uniqueKeys.contains [name]

/-- Whether a column may be null: it is not declared otherwise and not part of the primary key. -/
def isOptional (t : Table) (c : Column) : Bool := !c.notNull && !t.isPrimaryKey c.name

/-- A comment that says something. -/
def spoken (text : String) : Option String := if text.isEmpty then none else some text

/-- The comment of a column: the one in its declaration, else the one that stands apart. -/
def commentFor (t : Table) (c : Column) : Option String :=
  (c.comment <|> t.columnComments.lookup c.name).bind spoken

/-- The comment of a table. -/
def comment (t : Table) : Option String := spoken t.tableComment

end Table

/-- Sets the value of a key in a list sorted by keys. -/
def putSorted (key value : String) : List (String × String) → List (String × String)
  | [] => [(key, value)]
  | (k, v) :: rest =>
    if key < k then (key, value) :: (k, v) :: rest
    else if key = k then (key, value) :: rest
    else (k, v) :: putSorted key value rest

/-- Removes a key. -/
def eraseKey (key : String) (entries : List (String × String)) : List (String × String) :=
  entries.filter (·.1 != key)

end Schemata
