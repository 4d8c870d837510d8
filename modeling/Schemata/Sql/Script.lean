import Schemata.Sql.Statement

/-! # Scripts

`parseAll` reads a script and gives the tables that it creates, in order; `parse` gives the first.
A script that creates no table is refused, and so is one with a `CREATE TABLE` statement that has no
name or no closed body. -/

namespace Schemata.Sql

open Schemata.Text

/-- The error of a script without a table. -/
def missingCreateTable (source : List Char) (offset : Nat) : ParseError :=
  .atOffset source offset .missingCreateTable

/-- The error of a script with a lexical error.  It counts as one only after the start of a table;
otherwise the text is not taken for a script of tables at all. -/
def refuse (rules : Rules) (source : List Char) (e : LexError) : ParseError :=
  match tokenize rules (takeBytes e.offset source) with
  | .ok tokens =>
    if hasCreateTable tokens then .ofLexError source e else missingCreateTable source 0
  | .error _ => missingCreateTable source 0

/-- The tables that the statements create. -/
def tablesOf (rules : Rules) (source : List Char) (script : List (List Token)) :
    Except ParseError (List Table) :=
  match script with
  | [] => .ok []
  | statement :: rest =>
    match afterCreateTable statement with
    | none => tablesOf rules source rest
    | some afterTable =>
      match createTable rules source statement afterTable with
      | .error e => .error e
      | .ok table => (tablesOf rules source rest).map (table :: ·)

/-- The comments that the statements give. -/
def commentsOf (rules : Rules) (script : List (List Token)) : List Comment :=
  if rules.commentStatements then script.filterMap Comment.ofTokens? else []

/-- The tables of the tokens of a source, with their comments. -/
def tablesOfTokens (rules : Rules) (source : List Char) (tokens : List Token) :
    Except ParseError (List Table) :=
  let script := statements tokens
  match tablesOf rules source script with
  | .error e => .error e
  | .ok [] => .error (missingCreateTable source (offsetIn [] tokens))
  | .ok tables => .ok ((commentsOf rules script).foldl (fun ts c => c.applyAmong ts) tables)

/-- The tables that a script creates. -/
def parseAll (dialect : Dialect) (script : String) : Except ParseError (List Table) :=
  let rules := rulesOf dialect
  let source := script.toList
  match tokenize rules source with
  | .ok tokens => tablesOfTokens rules source tokens
  | .error e => .error (refuse rules source e)

/-- The first table that a script creates, with a warning if there are more. -/
def parse (dialect : Dialect) (script : String) : Except ParseError Table :=
  match parseAll dialect script with
  | .error e => .error e
  | .ok [] => .error (missingCreateTable script.toList 0)
  | .ok [table] => .ok table
  | .ok (table :: rest) =>
    let notice := Notice.otherTables (rest.length + 1) table.name
    .ok { table with warnings := table.warnings ++ [notice.message] }

/-- The texts of the definitions in the body of a table. -/
def definitionTexts (rules : Rules) (body : List Char) : Except LexError (List String) :=
  (tokenize rules body).map fun tokens => (splitDefinitions tokens).map (sourceText body)

end Schemata.Sql
