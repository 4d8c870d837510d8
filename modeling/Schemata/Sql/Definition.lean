import Schemata.Sql.Attribute
import Schemata.Sql.ColumnType
import Schemata.SqlType.Conversion
import Schemata.Text.LetterCase

/-! # Definitions

The body of a `CREATE TABLE` statement is a list of definitions: columns, keys, indexes and other
constraints.  `Definition.ofTokens` says what a definition is, and `Table.add` what it adds to a
table.  A definition that is not understood adds a warning with its text. -/

namespace Schemata.Sql

open Schemata.Text

/-- What a definition declares. -/
inductive Definition
  /-- A column, with the constraints of its own. -/
  | column (column : Column) (primary unique : Bool) (notices : List Notice)
  | primaryKey (names : List String)
  | unique (names : List String)
  | index (names : List String)
  | skipped (notice : Notice)
deriving DecidableEq, Repr

/-! ### Columns -/

/-- A column under declaration: what its attributes have said so far. -/
structure Declaration where
  column : Column
  primary : Bool := false
  unique : Bool := false
  notices : List Notice := []

namespace Declaration

/-- A declaration with one more attribute. -/
def add (d : Declaration) : Attribute → Declaration
  | .notNull => { d with column := { d.column with notNull := true } }
  | .nullable => { d with column := { d.column with notNull := false } }
  | .defaultTo text => { d with column := { d.column with defaultValue := some text } }
  | .nextValue => { d with column := { d.column with autoIncrement := true, defaultValue := none } }
  | .primaryKey => { d with primary := true }
  | .unique => { d with unique := true }
  | .autoIncrement => { d with column := { d.column with autoIncrement := true } }
  | .unsigned => { d with column := { d.column with unsigned := true } }
  | .comment text => { d with column := { d.column with comment := some text } }
  | .dropped clause => { d with notices := d.notices ++ [.dropped d.column.name clause] }
  | .passedOver => d

/-- A column that is numbered by the database, by an attribute or by its type, refuses nulls. -/
def settle (rules : Rules) (c : Column) : Column :=
  if c.autoIncrement || rules.isNumbered c.rawType then c.numbered else c

/-- The notice on a type that the dialect does not know. -/
def typeNotices (rules : Rules) (c : Column) : List Notice :=
  if SqlType.isKnown rules.dialect c.rawType then [] else [.keptType c.name (upper c.rawType)]

end Declaration

/-- A column declaration; nothing where a name or a type is missing. -/
def columnDefinition? (rules : Rules) (source : List Char) (tokens : List Token) :
    Option Definition :=
  match tokens with
  | [] => none
  | t :: r =>
    match t.ident? with
    | none => none
    | some name =>
      if name.isEmpty then none
      else
        (columnOfType? rules source name r).map fun (c, rest) =>
          let d := (attributes rules source rest).foldl Declaration.add { column := c }
          let c := Declaration.settle rules d.column
          .column c d.primary d.unique (d.notices ++ Declaration.typeNotices rules c)

/-! ### Keys and constraints -/

/-- The names listed in the first parentheses: the identifier at the front of each part. -/
def keyNames? (tokens : List Token) : Option (List String) :=
  match parenGroup? (tokens.dropWhile (·.kind ≠ .lparen)) with
  | none => none
  | some (group, _) =>
    match (splitDefinitions group).filterMap (·.head?.bind Token.ident?) with
    | [] => none
    | names => some names

/-- A key with its names, or the notice that none are listed. -/
def keyed (key : List String → Definition) (what : SkippedDefinition) (text : String)
    (tokens : List Token) : Definition :=
  match keyNames? tokens with
  | some names => key names
  | none => .skipped (.skipped what text)

/-- The words that start an index. -/
def indexWords : List String := ["index", "key", "fulltext", "spatial"]

/-- Whether an index is defined here. -/
def startsIndex (rules : Rules) (tokens : List Token) : Bool :=
  rules.tableIndexes && startsWithOneOf indexWords tokens

/-- A constraint or an index of the table. -/
def tableConstraint (rules : Rules) (text : String) (tokens : List Token) : Definition :=
  match afterWords ["primary", "key"] tokens, afterWords ["unique"] tokens with
  | some rest, _ => keyed .primaryKey .primaryKey text rest
  | none, some rest => keyed .unique .unique text rest
  | none, none =>
    if startsIndex rules tokens then keyed .index .index text tokens
    else .skipped (.skipped .constraint text)

/-- Whether the definition at the front is a constraint or an index and not a column. -/
def startsTableConstraint (rules : Rules) (tokens : List Token) : Bool :=
  match tokens with
  | [] => false
  | t :: r =>
    if t.isOneOf ["primary", "foreign"] then startsWithOneOf ["key"] r
    else if t.isOneOf ["unique", "check", "like"] then true
    else if t.isKeyword "exclude" then
      startsWithOneOf ["using"] r || r.head?.any (·.kind == .lparen)
    else startsIndex rules tokens

/-- The words that start a constraint after `CONSTRAINT` when it has no name. -/
def constraintBodyWords : List String := ["primary", "unique", "foreign", "check", "exclude"]

/-- What a definition declares. -/
def Definition.ofTokens (rules : Rules) (source : List Char) (tokens : List Token) : Definition :=
  let text := sourceText source tokens
  match afterWords ["constraint"] tokens with
  | some r =>
    tableConstraint rules text (if startsWithOneOf constraintBodyWords r then r else r.drop 1)
  | none =>
    if startsTableConstraint rules tokens then tableConstraint rules text tokens
    else (columnDefinition? rules source tokens).getD (.skipped (.skipped .column text))

end Schemata.Sql

namespace Schemata.Table

open Schemata.Sql

/-- A table with one more definition. -/
def add (t : Table) : Definition → Table
  | .column c primary unique notices =>
    { t with
      columns := t.columns ++ [c]
      primaryKeys := if primary then t.primaryKeys ++ [c.name] else t.primaryKeys
      uniqueKeys := if unique then t.uniqueKeys ++ [[c.name]] else t.uniqueKeys
      warnings := t.warnings ++ notices.map Notice.message }
  | .primaryKey names => { t with primaryKeys := t.primaryKeys ++ names }
  | .unique names => { t with uniqueKeys := t.uniqueKeys ++ [names] }
  | .index names => { t with indexes := t.indexes ++ [names] }
  | .skipped notice => { t with warnings := t.warnings ++ [notice.message] }

/-- A name in the spelling of the column that it stands for: that of a column spelled the same, else
that of the first one that differs in ASCII case only. -/
def declaredName (columns : List Column) (name : String) : String :=
  if columns.any (·.name == name) then name
  else
    match columns.find? (fun c => Text.sameWord c.name name) with
    | some c => c.name
    | none => name

/-- A table whose keys name the columns as they are declared. -/
def resolveNames (t : Table) : Table :=
  let resolve := declaredName t.columns
  { t with
    primaryKeys := t.primaryKeys.map resolve
    uniqueKeys := t.uniqueKeys.map (·.map resolve)
    indexes := t.indexes.map (·.map resolve) }

end Schemata.Table
