import Schemata.Sql.Definition
import Schemata.Sql.ParseError

/-! # Statements

A script is a list of statements that end with semicolons.  Two kinds of statement are read:
`CREATE TABLE`, which makes a table, and `COMMENT ON`, which gives a comment to a table or a column.
All others are passed over. -/

namespace Schemata.Sql

open Schemata.Text

/-- The statements of a script, which are not empty. -/
def statements (tokens : List Token) : List (List Token) :=
  (split tokens).filter (!·.isEmpty)
where
  /-- The parts between semicolons. -/
  split : List Token → List (List Token)
    | [] => [[]]
    | t :: r =>
      if t.kind = .semicolon then [] :: split r
      else
        match split r with
        | [] => [[t]]
        | part :: rest => (t :: part) :: rest

/-! ### Tables -/

/-- The words that may stand between `CREATE` and `TABLE`. -/
def tableModifiers : List String := ["temporary", "temp", "unlogged", "global", "local"]

/-- What follows `CREATE TABLE` if the tokens start with it. -/
def afterCreateTable (tokens : List Token) : Option (List Token) :=
  match afterWords ["create"] tokens with
  | some r => afterWords ["table"] (r.dropWhile (·.isOneOf tableModifiers))
  | none => none

/-- Whether a table is created somewhere in the tokens. -/
def hasCreateTable : List Token → Bool
  | [] => false
  | t :: r => (afterCreateTable (t :: r)).isSome || hasCreateTable r

/-- The offset of the first token, or of the end of the statement if there is none. -/
def offsetIn (statement tokens : List Token) : Nat :=
  match tokens.head?, statement.getLast? with
  | some t, _ => t.span.start
  | none, some last => last.span.stop
  | none, none => 0

/-- Skips an equals sign. -/
def skipEquals : List Token → List Token
  | [] => []
  | t :: r => if t.kind = .equals then r else t :: r

theorem skipEquals_suffix (tokens : List Token) : skipEquals tokens <:+ tokens := by
  unfold skipEquals
  split
  · exact List.suffix_refl _
  · split
    · exact List.suffix_cons _ _
    · exact List.suffix_refl _

/-- The last comment that the options of a table give, written `COMMENT 'text'` or
`COMMENT = 'text'`. -/
def optionComment (tokens : List Token) : Option String :=
  match tokens with
  | [] => none
  | t :: r =>
    if t.isKeyword "comment" then
      let value := skipEquals r
      optionComment (value.drop 1) <|> value.head?.bind Token.string?
    else optionComment r
termination_by tokens.length
decreasing_by
  · exact Nat.lt_succ_of_le ((List.drop_suffix _ _).trans (skipEquals_suffix r)).length_le
  · simp

/-- The table of a name that a list of definitions declares. -/
def tableOf (rules : Rules) (source : List Char) (name : String) (body : List Token) : Table :=
  let definitions := (splitDefinitions body).map (Definition.ofTokens rules source)
  let t := (definitions.foldl Table.add { dialect := rules.dialect, name }).resolveNames
  if t.columns.isEmpty then { t with warnings := t.warnings ++ [(Notice.noColumns name).message] }
  else t

/-- The table that a statement creates, given what follows `CREATE TABLE` in it. -/
def createTable (rules : Rules) (source : List Char) (statement afterTable : List Token) :
    Except ParseError Table :=
  let header := (afterWords ["if", "not", "exists"] afterTable).getD afterTable
  let (name, afterName) :=
    match qualifiedName? header with
    | some (names, rest) => (names.getLastD "", rest)
    | none => ("", header)
  if name.isEmpty then
    .error (.atOffset source (offsetIn statement header) .missingTableName)
  else
    let offset := offsetIn statement afterName
    match afterName with
    | [] => .error (.atOffset source offset (.unbalancedBody .noBody name))
    | t :: r =>
      if t.kind = .lparen then
        match closingFrom 1 r with
        | none => .error (.atOffset source offset (.unbalancedBody .openBody name))
        | some close =>
          let table := tableOf rules source name (r.take close)
          .ok { table with tableComment := (optionComment (r.drop (close + 1))).getD "" }
      else .error (.atOffset source offset (.unbalancedBody .noBody name))

/-! ### Comments -/

/-- What a comment is given to. -/
inductive CommentTarget
  | table (table : String)
  | column (table column : String)
deriving DecidableEq, Repr

/-- The name of the table. -/
def CommentTarget.tableName : CommentTarget → String
  | table name => name
  | column name _ => name

/-- A comment given by a statement of its own; no text removes the comment. -/
structure Comment where
  target : CommentTarget
  text : Option String
deriving DecidableEq, Repr

/-- The text that a comment statement gives: a string or `NULL`. -/
def commentText? (t : Token) : Option (Option String) :=
  match t.kind with
  | .stringLit value => some (some value)
  | _ => if t.isKeyword "null" then some none else none

/-- The target that the parts of a qualified name stand for.  A column needs the name of its table
before its own. -/
def commentTarget? (isTable : Bool) (names : List String) : Option CommentTarget :=
  match isTable, names.reverse with
  | true, table :: _ => some (.table table)
  | false, column :: table :: _ => some (.column table column)
  | _, _ => none

/-- The comment that a statement gives if it is well formed. -/
def Comment.ofTokens? (statement : List Token) : Option Comment := do
  let r ← afterWords ["comment", "on"] statement
  let (isTable, afterKind) ←
    match afterWords ["table"] r with
    | some s => some (true, s)
    | none => (afterWords ["column"] r).map (false, ·)
  let (names, afterName) ← qualifiedName? afterKind
  let value ← afterWords ["is"] afterName
  let text ← value.head?.bind commentText?
  let target ← commentTarget? isTable names
  pure ⟨target, text⟩

/-- A table with a comment that is given to it or to one of its columns, whose name may differ in
ASCII case. -/
def Comment.applyTo (comment : Comment) (t : Table) : Table :=
  match comment.target with
  | .table _ => { t with tableComment := comment.text.getD "" }
  | .column table column =>
    match t.columns.find? (fun c => sameWord c.name column) with
    | none =>
      { t with
        warnings := t.warnings ++ [(Notice.commentOnUnknownColumn table column).message] }
    | some c =>
      { t with
        columnComments :=
          match comment.text with
          | some text => putSorted c.name text t.columnComments
          | none => eraseKey c.name t.columnComments }

/-- The tables after a comment: the first one of the name is changed, and if there is none the first
table of all is told. -/
def Comment.applyAmong (comment : Comment) (tables : List Table) : List Table :=
  let table := comment.target.tableName
  match tables.findIdx? (fun t => sameWord t.name table) with
  | some i => tables.modify i comment.applyTo
  | none =>
    tables.modify 0 fun t =>
      { t with warnings := t.warnings ++ [(Notice.commentOnUnknownTable table).message] }

end Schemata.Sql
