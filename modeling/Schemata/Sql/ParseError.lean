import Schemata.Sql.Lexer

/-! # Errors of a script

A script that cannot be read is refused as a whole, with the cause and its place. -/

namespace Schemata.Sql

open Schemata.Text

/-- Why the body of a table is missing or open. -/
inductive BodyFault
  | noBody
  | openBody
deriving DecidableEq, Repr

/-- Why a script is refused. -/
inductive ParseFault
  | missingCreateTable
  | unbalancedBody (fault : BodyFault) (table : String)
  | missingTableName
  | lexical (fault : LexFault)
deriving DecidableEq, Repr

namespace ParseFault

/-- The name of the kind of fault. -/
def kind : ParseFault → String
  | missingCreateTable => "MissingCreateTable"
  | unbalancedBody _ _ => "UnbalancedBody"
  | missingTableName => "MissingTableName"
  | lexical _ => "Lexical"

/-- The words for a fault. -/
def message : ParseFault → String
  | missingCreateTable =>
    "Input must be a valid CREATE TABLE statement: " ++
      "no CREATE TABLE clause with a parenthesized column list was found"
  | unbalancedBody fault table =>
    "Input must be a valid CREATE TABLE statement with a balanced column definition body: " ++
      match fault with
      | .noBody => "expected '(' after table name '" ++ table ++ "'"
      | .openBody => "unclosed '(' in definition of table '" ++ table ++ "'"
  | missingTableName =>
    "Unable to extract the table name from the CREATE TABLE header: " ++
      "expected a table name after CREATE TABLE"
  | lexical fault => "Lexical error: " ++ fault.message

end ParseFault

/-- A fault and its place. -/
structure ParseError where
  fault : ParseFault
  location : Location
deriving DecidableEq, Repr

namespace ParseError

/-- A fault at a byte offset of the source. -/
def atOffset (source : List Char) (offset : Nat) (fault : ParseFault) : ParseError :=
  ⟨fault, .ofOffset source offset⟩

/-- A lexical error of the source. -/
def ofLexError (source : List Char) (e : LexError) : ParseError :=
  atOffset source e.offset (.lexical e.fault)

/-- The words for a fault and its place. -/
def message (e : ParseError) : String := e.fault.message ++ e.location.text

end ParseError

end Schemata.Sql
