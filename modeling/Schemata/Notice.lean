import Schemata.Dialect

/-! # Notices

What reading and writing a table left out or changed.  A notice is a cause; `Notice.message` puts it
into words. -/

namespace Schemata

/-- A clause of a column declaration that a table does not describe. -/
inductive DroppedClause
  | generated
  | references
  | onUpdate
  | check
deriving DecidableEq, Repr

/-- What happened to a clause. -/
def DroppedClause.message : DroppedClause → String
  | generated => "generated column expression was dropped"
  | references => "REFERENCES clause is not supported and was dropped"
  | onUpdate => "ON UPDATE clause was dropped"
  | check => "CHECK constraint was dropped"

/-- A definition that a table does not describe. -/
inductive SkippedDefinition
  | column
  | primaryKey
  | unique
  | index
  | constraint
deriving DecidableEq, Repr

/-- What was skipped. -/
def SkippedDefinition.message : SkippedDefinition → String
  | column => "Skipped unparseable column definition"
  | primaryKey => "Skipped primary key without a column list"
  | unique => "Skipped unique constraint without a column list"
  | index => "Skipped index without a column list"
  | constraint => "Skipped unsupported constraint definition"

/-- A key that a numbered column was given. -/
inductive AddedKey
  | primary
  | secondary
deriving DecidableEq, Repr

/-- The clause that declares an added key. -/
def AddedKey.clause : AddedKey → String
  | primary => "PRIMARY KEY"
  | secondary => "KEY"

/-- A loss or a change worth telling.  Types are given in upper case. -/
inductive Notice
  | skipped (what : SkippedDefinition) (text : String)
  | dropped (column : String) (clause : DroppedClause)
  | keptType (column type : String)
  | noColumns (table : String)
  | commentOnUnknownTable (table : String)
  | commentOnUnknownColumn (table column : String)
  | otherTables (count : Nat) (used : String)
  | dialectMismatch (table : String) (parsed : Dialect) (direction : Direction)
  | addedKey (column : String) (key : AddedKey)
  | arrayToJson (column type : String)
  | copiedType (column type : String)
  | droppedFunction (column expression : String)
  | setToText (column : String)
  | droppedNumbering (column type : String)
  | droppedZeroDate (column value : String)
  | fallbackType (column type used : String)
  | compositeKey (table typeName : String)
deriving DecidableEq, Repr

namespace Notice

/-- A remark on a column. -/
def onColumn (column remark : String) : String := "Column '" ++ column ++ "': " ++ remark

/-- A type without a counterpart. -/
def unrecognized (column type : String) : String :=
  "Unrecognized type '" ++ type ++ "' on column '" ++ column ++ "'"

/-- The words of a notice. -/
def message : Notice → String
  | skipped what text => what.message ++ ": " ++ text
  | dropped column clause => onColumn column clause.message
  | keptType column type => unrecognized column type ++ " is kept verbatim"
  | noColumns table => "Table '" ++ table ++ "' has no columns"
  | commentOnUnknownTable table => "COMMENT ON for unknown table '" ++ table ++ "' was ignored"
  | commentOnUnknownColumn table column =>
    "COMMENT ON for unknown column '" ++ table ++ "." ++ column ++ "' was ignored"
  | otherTables count used =>
    "Input contains " ++ toString count ++ " CREATE TABLE statements; only '" ++ used ++
      "' was used"
  | dialectMismatch table parsed direction =>
    "Table '" ++ table ++ "' was parsed as " ++ parsed.name ++ " but converted with " ++
      direction.name
  | addedKey column key =>
    onColumn column
      ("AUTO_INCREMENT requires a key; added " ++ key.clause ++ " (" ++ column ++ ")")
  | arrayToJson column type =>
    onColumn column ("array type " ++ type ++ " was converted to JSON")
  | copiedType column type => unrecognized column type ++ " was copied verbatim"
  | droppedFunction column expression =>
    onColumn column
      ("default expression " ++ expression ++ " is not portable to MySQL and was dropped")
  | setToText column =>
    onColumn column "SET type was converted to TEXT; allowed members are not enforced"
  | droppedNumbering column type =>
    onColumn column
      ("AUTO_INCREMENT on type " ++ type ++ " has no SERIAL equivalent and was dropped")
  | droppedZeroDate column value =>
    onColumn column
      ("zero-date default '" ++ value ++ "' is not valid in PostgreSQL and was dropped")
  | fallbackType column type used => unrecognized column type ++ "; using " ++ used
  | compositeKey table typeName =>
    "Table '" ++ table ++ "' has a composite primary key; add an @IdClass or @EmbeddedId to " ++
      typeName

end Notice

end Schemata
