import Schemata.Json
import Schemata.Report.Paint
import Schemata.Table
import Schemata.Text.Blank

/-! # Descriptions of tables

What a script says about its tables, as a summary and as a document. -/

namespace Schemata.Report

/-! ### Summary -/

/-- What is said of a column. -/
def columnWords (t : Table) (c : Column) : List String :=
  [c.name, c.rawType ++ c.typeParams.getD ""] ++
    (if c.unsigned then ["unsigned"] else []) ++
    (if c.notNull then ["not null"] else []) ++
    (if c.autoIncrement then ["auto increment"] else []) ++
    (c.defaultValue.map ("default " ++ ·)).toList ++
    (if c.members.isEmpty then [] else ["values [" ++ ", ".intercalate c.members ++ "]"]) ++
    ((t.commentFor c).map ("-- " ++ ·)).toList

/-- A key and the names in it. -/
def keyLine (kind : String) (names : List String) : String :=
  "  " ++ kind ++ ": " ++ ", ".intercalate names

/-- The lines of the summary of a table. -/
def summaryLines (paint : Paint) (t : Table) : List String :=
  [paint.bold "Table:" ++ " " ++ paint.bold t.name ++ " (" ++ t.dialect.name ++ ")"] ++
    (t.comment.map ("  Comment: " ++ ·)).toList ++
    ["  Columns:"] ++
    t.columns.map (fun c => "    " ++ " ".intercalate (columnWords t c)) ++
    (if t.primaryKeys.isEmpty then [] else [keyLine "Primary key" t.distinctPrimaryKeys]) ++
    t.uniqueKeys.map (keyLine "Unique") ++
    t.indexes.map (keyLine "Index") ++
    t.warnings.map fun warning => "  " ++ paint.warningSign ++ " " ++ paint.yellow warning

/-- The summary of a table. -/
def summary (paint : Paint) (t : Table) : String :=
  String.join ((summaryLines paint t).map (· ++ "\n"))

/-- The summaries of tables, with an empty line between each two. -/
def summaries (paint : Paint) (tables : List Table) : String :=
  Text.trimEnd ("\n".intercalate (tables.map (summary paint)))

/-! ### Documents -/

/-- The document that describes a column. -/
def columnJson (c : Column) : Json :=
  .obj
    ([("name", .str c.name), ("rawType", .str c.rawType), ("length", .optional c.length),
      ("precision", .optional c.precision), ("unsigned", .bool c.unsigned),
      ("notNull", .bool c.notNull), ("autoIncrement", .bool c.autoIncrement),
      ("defaultValue", .optional c.defaultValue), ("comment", .optional c.comment)] ++
      if c.members.isEmpty then [] else [("enumValues", .strings c.members)])

/-- The document that describes a table. -/
def tableJson (t : Table) : Json :=
  .obj
    [("dialect", .str t.dialect.name), ("tableName", .str t.name),
      ("columns", .arr (t.columns.map columnJson)), ("primaryKeys", .strings t.primaryKeys),
      ("uniqueKeys", .arr (t.uniqueKeys.map .strings)),
      ("indexes", .arr (t.indexes.map .strings)), ("tableComment", .str t.tableComment),
      ("columnComments", .obj (t.columnComments.map fun (name, text) => (name, .str text))),
      ("warnings", .strings t.warnings)]

/-- The document that describes tables. -/
def tablesJson (tables : List Table) : Json := .obj [("tables", .arr (tables.map tableJson))]

end Schemata.Report
