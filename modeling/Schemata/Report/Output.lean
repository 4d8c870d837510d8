import Schemata.Ddl.Conversion
import Schemata.Entity.Generation
import Schemata.Json
import Schemata.Report.Paint

/-! # Reports on written tables

What converting a script and generating entities from it give: a text for each table, with the
warnings of reading and of writing it. -/

namespace Schemata.Report

open Schemata.Sql

/-- What was written for a table. -/
structure Output where
  table : String
  text : String
  warnings : List String
deriving DecidableEq, Repr

namespace Output

/-- The document for a table, in which the text has the given name. -/
def json (textName : String) (output : Output) : Json :=
  .obj [("table", .str output.table), (textName, .str output.text),
    ("warnings", .strings output.warnings)]

/-- A warning about a table. -/
def warningText (paint : Paint) (table warning : String) : String :=
  paint.warningSign ++ " " ++ paint.bold ("[" ++ table ++ "]") ++ " " ++ paint.yellow warning

/-- The warnings about a table, one to a line. -/
def warningsText (paint : Paint) (output : Output) : String :=
  String.join (output.warnings.map fun warning => warningText paint output.table warning ++ "\n")

end Output

/-- Texts with an empty line between each two. -/
def paragraphs (texts : List String) : String := "\n\n".intercalate texts

/-! ### Conversions -/

/-- The tables of a script in the other dialect. -/
structure ConversionReport where
  direction : Direction
  outputs : List Output
deriving DecidableEq, Repr

namespace ConversionReport

/-- Converts the tables of a script. -/
def ofScript (direction : Direction) (options : Ddl.Options) (script : String) :
    Except ParseError ConversionReport :=
  (parseAll direction.source script).map fun tables =>
    { direction
      outputs := tables.map fun t =>
        let converted := Ddl.convert direction options t
        ⟨t.name, converted.sql, t.warnings ++ converted.warnings⟩ }

/-- The statements. -/
def text (report : ConversionReport) : String := paragraphs (report.outputs.map (·.text))

/-- The report as a document. -/
def json (report : ConversionReport) : Json :=
  .obj [("direction", .str report.direction.name),
    ("tables", .arr (report.outputs.map (Output.json "sql")))]

end ConversionReport

/-! ### Entities -/

/-- The entities for the tables of a script. -/
structure EntityReport where
  target : Target
  outputs : List Output
deriving DecidableEq, Repr

namespace EntityReport

/-- Writes entities for the tables of a script. -/
def ofScript (dialect : Dialect) (target : Target) (options : Entity.Options) (script : String) :
    Except ParseError EntityReport :=
  (parseAll dialect script).map fun tables =>
    { target
      outputs := tables.map fun t =>
        let entity := Entity.generate target options t
        ⟨t.name, entity.code, t.warnings ++ entity.warnings⟩ }

/-- The source texts. -/
def text (report : EntityReport) : String :=
  paragraphs (report.outputs.map fun output => Text.trimEnd output.text)

/-- The report as a document. -/
def json (report : EntityReport) : Json :=
  .obj [("target", .str report.target.name),
    ("entities", .arr (report.outputs.map (Output.json "code")))]

end EntityReport

end Schemata.Report
