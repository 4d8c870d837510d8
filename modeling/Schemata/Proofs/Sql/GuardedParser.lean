import Schemata.Proofs.Sql.GuardedDefinitions
import Schemata.Proofs.Sql.Outcomes

/-! # Reading scripts by cuts

The readers of statements and scripts again, as programs that reach the tokens of a statement, the tables
and the text of a source by cuts and places only and give nothing where one of these is not possible.  The
tokens of a source are placed in it, so every cut is possible and each program gives what the reader of the
same name gives.  That is the main result: no cut that reading needs ever fails, and reading gives tables or
an error for every script (`reads_by_cuts`). -/

namespace Schemata.Sql.Guarded

open Schemata.Text

variable {d : Dialect} {rules : Rules} {source : List Char} {ts statement after : List Token}

/-! ### Statements that create tables -/

/-- The table of a name that a list of definitions declares. -/
def tableOf (rules : Rules) (source : List Char) (name : String) (body : List Token) : Option Table := do
  let parts ← splitDefinitions body
  let definitions ← parts.mapM (ofTokens rules source)
  let t := (definitions.foldl Table.add { dialect := rules.dialect, name }).resolveNames
  if t.columns.isEmpty then
    some { t with warnings := t.warnings ++ [(Notice.noColumns name).message] }
  else some t

/-- The table of a name whose body opens at a place of the statement. -/
def tableAt (rules : Rules) (source : List Char) (statement : List Token) (name : String) (opening : Nat) :
    Option (Except ParseError Table) :=
  match matchingParen statement opening with
  | none => do
    let paren ← statement[opening]?
    failAt source paren.span.start (.unbalancedBody .openBody name)
  | some close => do
    let body ← cutList? statement (opening + 1) close
    let table ← tableOf rules source name body
    let options ← cutList? statement (close + 1) statement.length
    some (.ok { table with tableComment := (optionComment options).getD "" })

/-- The table that a statement creates, given what follows `CREATE TABLE` in it. -/
def createTable (rules : Rules) (source : List Char) (statement afterTable : List Token) :
    Option (Except ParseError Table) :=
  let header := (afterWords ["if", "not", "exists"] afterTable).getD afterTable
  let (name, afterName) :=
    match qualifiedName? header with
    | some (names, rest) => (names.getLastD "", rest)
    | none => ("", header)
  if name.isEmpty then failAt source (offsetIn statement header) .missingTableName
  else if afterName.head?.any (·.kind == .lparen) then
    tableAt rules source statement name (statement.length - afterName.length)
  else failAt source (offsetIn statement afterName) (.unbalancedBody .noBody name)

/-- Whether a table is created somewhere in the tokens `r`, which stand in all tokens from place `i` on. -/
def createsFrom (tokens : List Token) (i : Nat) : List Token → Option Bool
  | [] => some false
  | t :: r =>
    if t.isKeyword "create" then do
      let rest ← cutList? tokens (i + 1) tokens.length
      if (afterWords ["table"] (rest.dropWhile (·.isOneOf tableModifiers))).isSome then some true
      else createsFrom tokens (i + 1) r
    else createsFrom tokens (i + 1) r

/-- Whether a table is created somewhere in the tokens. -/
def hasCreateTable (tokens : List Token) : Option Bool := createsFrom tokens 0 tokens

theorem tableOf_eq (rules : Rules) (h : Placed source ts) (name : String) :
    tableOf rules source name ts = some (Sql.tableOf rules source name ts) := by
  have hparts : (Sql.splitDefinitions ts).mapM (ofTokens rules source) =
      some ((Sql.splitDefinitions ts).map (Definition.ofTokens rules source)) :=
    mapM_eq_some fun part hpart => ofTokens_eq rules (h.part hpart)
  simp only [tableOf, Sql.tableOf, splitDefinitions_eq, hparts, Option.bind_eq_bind, Option.bind_some]
  split <;> rfl

/-- A body that opens after the start of a statement is found by its place. -/
theorem tableAt_eq (rules : Rules) {t : Token} {before r : List Token}
    (h : Placed source (before ++ t :: r)) (ht : t.kind = .lparen) (name : String) :
    tableAt rules source (before ++ t :: r) name before.length =
      some (match closingFrom 1 r with
        | none => .error (.atOffset source t.span.start (.unbalancedBody .openBody name))
        | some close =>
          .ok { Sql.tableOf rules source name (r.take close) with
            tableComment := (optionComment (r.drop (close + 1))).getD "" }) := by
  rw [tableAt, matchingParen_append ht]
  cases hclose : closingFrom 1 r with
  | none => simp [failAt_eq]
  | some close =>
      obtain ⟨hgroup, hrest⟩ := cutList?_group t hclose
      have hbody : Placed source (r.take close) :=
        h.sublist (((List.take_sublist close r).trans (List.sublist_cons_self t r)).trans
          (List.sublist_append_right before _))
      have hall : (before ++ t :: r).length = before.length + (t :: r).length := List.length_append
      simp only [Option.map_some, hall, Nat.add_assoc before.length, cutList?_add, hgroup, hrest,
        tableOf_eq rules hbody, Option.bind_eq_bind, Option.bind_some]

/-- **What a statement creates is read without failure.** -/
theorem createTable_eq (rules : Rules) (h : Placed source statement) (hafter : after <:+ statement) :
    createTable rules source statement after = some (Sql.createTable rules source statement after) := by
  have hheader : (afterWords ["if", "not", "exists"] after).getD after <:+ statement :=
    (afterWords_getD_suffix (List.suffix_refl after)).trans hafter
  unfold createTable Sql.createTable
  dsimp only
  generalize (afterWords ["if", "not", "exists"] after).getD after = header at hheader
  cases hread : qualifiedName? header with
  | none => exact failAt_eq _ _ _
  | some read =>
      obtain ⟨names, afterName⟩ := read
      dsimp only
      split
      · exact failAt_eq _ _ _
      · cases afterName with
        | nil => exact failAt_eq _ _ _
        | cons t r =>
            by_cases ht : t.kind = .lparen
            · obtain ⟨before, rfl⟩ := (qualifiedName?_suffix hread).trans hheader
              have hopening : (before ++ t :: r).length - (t :: r).length = before.length := by simp
              rw [hopening, tableAt_eq rules h ht, List.head?_cons, Option.any_some, if_pos (by simp [ht])]
              dsimp only
              rw [if_pos ht]
              rfl
            · rw [List.head?_cons, Option.any_some, if_neg (by simp [ht]), failAt_eq]
              dsimp only
              rw [if_neg ht]

theorem createsFrom_eq (before r : List Token) :
    createsFrom (before ++ r) before.length r = some (Sql.hasCreateTable r) := by
  induction r generalizing before with
  | nil => rfl
  | cons t r ih =>
      have hrest : cutList? (before ++ t :: r) (before.length + 1) (before ++ t :: r).length = some r := by
        rw [List.length_append, cutList?_add, cutList?_drop (by simp)]
        rfl
      have hnext := ih (before ++ [t])
      simp only [List.append_assoc, List.singleton_append, List.length_append, List.length_singleton] at hnext
      unfold createsFrom Sql.hasCreateTable afterCreateTable
      by_cases ht : t.isKeyword "create"
      · simp only [hrest, hnext, ht, afterWords, if_true, Option.bind_eq_bind, Option.bind_some]
        split <;> simp_all
      · simp [ht, hnext, afterWords]

theorem hasCreateTable_eq (tokens : List Token) :
    hasCreateTable tokens = some (Sql.hasCreateTable tokens) :=
  createsFrom_eq [] tokens

/-! ### Tables and comments -/

/-- The tables that the statements create. -/
def tablesOf (rules : Rules) (source : List Char) :
    List (List Token) → Option (Except ParseError (List Table))
  | [] => some (.ok [])
  | statement :: rest =>
    match afterCreateTable statement with
    | none => tablesOf rules source rest
    | some afterTable => do
      match ← createTable rules source statement afterTable with
      | .error e => some (.error e)
      | .ok table => (tablesOf rules source rest).map (·.map (table :: ·))

/-- The tables after a comment; the one that is changed is reached by its place. -/
def applyAmong (comment : Comment) (tables : List Table) : Option (List Table) :=
  match tables.findIdx? (fun t => sameWord t.name comment.target.tableName) with
  | some i => tables[i]?.map fun t => tables.set i (comment.applyTo t)
  | none => some (comment.applyAmong tables)

/-- The tables of the tokens of a source, with their comments. -/
def tablesOfTokens (rules : Rules) (source : List Char) (tokens : List Token) :
    Option (Except ParseError (List Table)) := do
  let script := statements tokens
  match ← tablesOf rules source script with
  | .error e => some (.error e)
  | .ok [] => failAt source (offsetIn [] tokens) .missingCreateTable
  | .ok tables => ((commentsOf rules script).foldlM (fun ts c => applyAmong c ts) tables).map .ok

/-- **The statements of placed tokens are read without failure.** -/
theorem tablesOf_eq (rules : Rules) {script : List (List Token)}
    (h : ∀ statement ∈ script, Placed source statement) :
    tablesOf rules source script = some (Sql.tablesOf rules source script) := by
  induction script with
  | nil => rfl
  | cons statement script ih =>
      obtain ⟨hstatement, hscript⟩ := List.forall_mem_cons.1 h
      unfold tablesOf Sql.tablesOf
      cases hafter : afterCreateTable statement with
      | none => exact ih hscript
      | some after =>
          dsimp only
          rw [createTable_eq rules hstatement (afterCreateTable_suffix hafter), ih hscript]
          cases Sql.createTable rules source statement after <;> rfl

/-- A comment changes a table whose place was found. -/
theorem applyAmong_eq (comment : Comment) (tables : List Table) :
    applyAmong comment tables = some (comment.applyAmong tables) := by
  unfold applyAmong
  split
  · rename_i i hfound
    obtain ⟨hlt, -, -⟩ := List.findIdx?_eq_some_iff_getElem.1 hfound
    simp only [Comment.applyAmong, hfound, List.getElem?_eq_getElem hlt, Option.map_some,
      List.modify_eq_set_getElem?]
    rfl
  · rfl

theorem foldlM_applyAmong (comments : List Comment) (tables : List Table) :
    comments.foldlM (fun ts c => applyAmong c ts) tables =
      some (comments.foldl (fun ts c => c.applyAmong ts) tables) := by
  induction comments generalizing tables with
  | nil => rfl
  | cons comment comments ih =>
      rw [List.foldlM_cons, applyAmong_eq, List.foldl_cons]
      exact ih _

theorem tablesOfTokens_eq (rules : Rules) (h : Placed source ts) :
    tablesOfTokens rules source ts = some (Sql.tablesOfTokens rules source ts) := by
  have hscript : ∀ statement ∈ statements ts, Placed source statement :=
    fun statement hmem => h.sublist (infix_of_mem_statements hmem).sublist
  simp only [tablesOfTokens, Sql.tablesOfTokens, tablesOf_eq rules hscript, Option.bind_eq_bind,
    Option.bind_some, foldlM_applyAmong]
  cases Sql.tablesOf rules source (statements ts) with
  | error e => rfl
  | ok tables =>
      cases tables with
      | nil => exact failAt_eq _ _ _
      | cons t rest => rfl

/-! ### Scripts -/

/-- Whether a table is created in what stands before an offset; not if the offset is no boundary or what
stands before it cannot be read. -/
def createTablePrecedes (rules : Rules) (source : List Char) (offset : Nat) : Option Bool :=
  match upTo? offset source with
  | none => some false
  | some before => do
    match ← tokenize rules before with
    | .ok tokens => hasCreateTable tokens
    | .error _ => some false

/-- The tables that a script creates. -/
def parseAll (dialect : Dialect) (script : String) : Option (Except ParseError (List Table)) := do
  let rules := rulesOf dialect
  let source := script.toList
  match ← tokenize rules source with
  | .ok tokens => tablesOfTokens rules source tokens
  | .error e => do
    let precedes ← createTablePrecedes rules source e.location.offset
    if precedes then some (.error e) else failAt source 0 .missingCreateTable

/-- The first table that a script creates, with a warning if there are more. -/
def parse (dialect : Dialect) (script : String) : Option (Except ParseError Table) := do
  match ← parseAll dialect script with
  | .error e => some (.error e)
  | .ok [] => failAt script.toList 0 .missingCreateTable
  | .ok [table] => some (.ok table)
  | .ok (table :: rest) =>
    let notice := Notice.otherTables (rest.length + 1) table.name
    some (.ok { table with warnings := table.warnings ++ [notice.message] })

/-- The texts of the definitions in the body of a table. -/
def definitionTexts (rules : Rules) (body : List Char) : Option (Except ParseError (List String)) := do
  match ← tokenize rules body with
  | .ok tokens => do
    let parts ← splitDefinitions tokens
    let texts ← parts.mapM (sourceText body)
    some (.ok texts)
  | .error e => some (.error e)

/-- What is read before a lexical fault. -/
theorem createTablePrecedes_eq {e : LexError} (h : Sql.tokenize (rulesOf d) source = .error e) :
    ∃ before, Sql.tokenize (rulesOf d) (takeBytes e.offset source) = .ok before ∧
      createTablePrecedes (rulesOf d) source (ParseError.ofLexError source e).location.offset =
        some (Sql.hasCreateTable before) := by
  obtain ⟨hboundary, -, before, hbefore⟩ := tokenize_before_fault h
  refine ⟨before, hbefore, ?_⟩
  have hplace : (ParseError.ofLexError source e).location.offset = e.offset := offset_atOffset hboundary _
  obtain ⟨front, rest, rfl, he⟩ := hboundary
  rw [he, takeBytes_append] at hbefore
  rw [hplace, he, createTablePrecedes, upTo?_append]
  simp [tokenize_eq, hbefore, Except.mapError, hasCreateTable_eq]

/-- **A script is read without failure.** -/
theorem parseAll_eq (d : Dialect) (script : String) : parseAll d script = some (Sql.parseAll d script) := by
  unfold parseAll Sql.parseAll
  simp only [tokenize_eq, Option.bind_eq_bind, Option.bind_some]
  cases hread : Sql.tokenize (rulesOf d) script.toList with
  | ok tokens => exact tablesOfTokens_eq _ (placed_of_tokenize hread)
  | error e =>
      obtain ⟨before, hbefore, hprecedes⟩ := createTablePrecedes_eq hread
      simp only [Except.mapError, hprecedes, refuse, hbefore, Option.bind_some]
      split
      · rfl
      · exact failAt_eq _ _ _

theorem parse_eq (d : Dialect) (script : String) : parse d script = some (Sql.parse d script) := by
  unfold parse Sql.parse
  simp only [parseAll_eq, Option.bind_eq_bind, Option.bind_some]
  cases Sql.parseAll d script with
  | error e => rfl
  | ok tables =>
      cases tables with
      | nil => exact failAt_eq _ _ _
      | cons t rest => cases rest <;> rfl

theorem definitionTexts_eq (rules : Rules) (body : List Char) :
    definitionTexts rules body = some ((Sql.definitionTexts rules body).mapError (.ofLexError body)) := by
  unfold definitionTexts Sql.definitionTexts
  simp only [tokenize_eq, Option.bind_eq_bind, Option.bind_some]
  cases hread : Sql.tokenize rules body with
  | error e => rfl
  | ok tokens =>
      have hplaced := placed_of_tokenize hread
      have htexts : (Sql.splitDefinitions tokens).mapM (sourceText body) =
          some ((Sql.splitDefinitions tokens).map (Sql.sourceText body)) :=
        mapM_eq_some fun part hpart => sourceText_eq (hplaced.part hpart)
      simp only [Except.mapError, splitDefinitions_eq, htexts, Option.bind_some]
      rfl

/-- Every cut that reading a text needs is possible, that is, its offsets are boundaries of characters in
order (`isSome_cut?`): reading the text by cuts gives a value, which is the one of the reader of the same
name. -/
structure ReadsByCuts (d : Dialect) (script : String) : Prop where
  /-- An error is located by cuts, wherever it is, and at a boundary of characters. -/
  located : ∀ offset, locate? script.toList offset = some (.ofOffset script.toList offset) ∧
    IsBoundary script.toList (Location.ofOffset script.toList offset).offset
  tokens : tokenize (rulesOf d) script.toList =
    some ((Sql.tokenize (rulesOf d) script.toList).mapError (.ofLexError script.toList))
  /-- The tokens stand one after the other at boundaries of characters. -/
  placed : ∀ ts, Sql.tokenize (rulesOf d) script.toList = .ok ts → Placed script.toList ts
  texts : definitionTexts (rulesOf d) script.toList =
    some ((Sql.definitionTexts (rulesOf d) script.toList).mapError (.ofLexError script.toList))
  tables : parseAll d script = some (Sql.parseAll d script)
  table : parse d script = some (Sql.parse d script)

/-- **Reading never fails at a cut**, whatever the dialect and the text. -/
theorem reads_by_cuts (d : Dialect) (script : String) : ReadsByCuts d script where
  located offset := by
    refine ⟨locate?_eq _ _, ?_⟩
    obtain ⟨rest, hrest⟩ := takeBytes_prefix offset script.toList
    exact ⟨_, rest, hrest.symm, rfl⟩
  tokens := tokenize_eq _ _
  placed _ h := placed_of_tokenize h
  texts := definitionTexts_eq _ _
  tables := parseAll_eq d script
  table := parse_eq d script

end Schemata.Sql.Guarded
