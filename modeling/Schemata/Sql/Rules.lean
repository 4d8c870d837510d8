import Schemata.Dialect

/-! # Lexical and grammatical rules of the dialects

The differences between the dialects that matter for reading a script, as data.  Reading is defined
once, for any such record. -/

namespace Schemata.Sql

open Schemata.Text

/-- The rules by which a dialect is read. -/
structure Rules where
  dialect : Dialect
  /-- The characters that enclose a quoted identifier. -/
  identifierQuotes : List Char
  /-- A `#` starts a comment. -/
  hashComments : Bool
  /-- Block comments nest. -/
  nestedComments : Bool
  /-- A backslash escapes the next character of a string literal. -/
  backslashEscapes : Bool
  /-- An `E` before a string literal turns backslash escapes on. -/
  escapeLiterals : Bool
  /-- String literals may stand between two `$tag$` marks. -/
  dollarQuotes : Bool
  /-- Comments are given by statements of their own. -/
  commentStatements : Bool
  /-- A table may define indexes. -/
  tableIndexes : Bool
  /-- The words that end a type, apart from those that start a constraint. -/
  typeEndWords : List String
  /-- The types that are numbered by the database. -/
  numberedTypes : List String

/-- The words that start a column constraint, in either dialect. -/
def constraintWords : List String :=
  ["not", "null", "default", "primary", "unique", "references", "check", "constraint", "collate",
    "generated"]

/-- The rules of MySQL. -/
def mysqlRules : Rules where
  dialect := .mysql
  identifierQuotes := ['\x60', '"']
  hashComments := true
  nestedComments := false
  backslashEscapes := true
  escapeLiterals := false
  dollarQuotes := false
  commentStatements := false
  tableIndexes := true
  typeEndWords :=
    ["unsigned", "signed", "zerofill", "binary", "auto_increment", "comment", "character",
      "charset", "on", "key", "as", "invisible", "visible", "storage", "column_format", "srid"]
  numberedTypes := ["serial"]

/-- The rules of PostgreSQL. -/
def postgresRules : Rules where
  dialect := .postgresql
  identifierQuotes := ['"']
  hashComments := false
  nestedComments := true
  backslashEscapes := false
  escapeLiterals := true
  dollarQuotes := true
  commentStatements := true
  tableIndexes := false
  typeEndWords := ["storage", "compression"]
  numberedTypes := ["serial", "serial4", "bigserial", "serial8", "smallserial", "serial2"]

/-- The rules of a dialect. -/
def rulesOf : Dialect → Rules
  | .mysql => mysqlRules
  | .postgresql => postgresRules

namespace Rules

/-- Whether a character encloses quoted identifiers. -/
def isIdentifierQuote (r : Rules) (c : Char) : Bool := r.identifierQuotes.contains c

/-- Whether a word ends a type after its first word. -/
def endsType (r : Rules) (word : String) : Bool :=
  constraintWords.contains (asciiLower word) || r.typeEndWords.contains (asciiLower word)

/-- Whether a canonical type name stands for a type that is numbered by the database. -/
def isNumbered (r : Rules) (rawType : String) : Bool := r.numberedTypes.contains rawType

end Rules

/-- Whether a word starts a column constraint.  Such a word is no type. -/
def startsConstraint (word : String) : Bool := constraintWords.contains (asciiLower word)

end Schemata.Sql
