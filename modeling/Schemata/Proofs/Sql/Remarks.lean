import Mathlib.Data.List.Induction
import Schemata.Proofs.Sql.Additions
import Schemata.Proofs.Sql.Comments
import Schemata.Proofs.Sql.Outcomes

/-! # Which comments a table keeps

A statement `COMMENT ON` gives a comment to a table or to a column (`GivesComment`).  It goes to the
first table of the script, and there to the first column, whose name is the given one up to the case of
ASCII letters (`firstAlike`).  That is the one named exactly unless one that is alike stands before it
(`firstAlike_eq_meant_iff`).  After all statements, a table and each of its columns have the text of the
last comment that went to them (`remarked_of_parseAll`). -/

namespace Schemata.Sql

open Schemata.Text

variable {ts rest statement : List Token} {names columns : List String} {name : String}
  {comment : Comment} {comments : List Comment} {created t : Table} {i : Nat}

/-! ### Statements that give comments -/

/-- The statements `COMMENT ON TABLE name IS text` and `COMMENT ON COLUMN name IS text`, whose text is a
string or `NULL`.  The name of a table may be qualified, and that of a column has to be. -/
inductive GivesComment : List Token → Comment → Prop
  | table {comment on table is value : Token} {header rest : List Token} {qualifiers : List String}
      {name : String} {text : Option String} (hcomment : comment.isKeyword "comment")
      (hon : on.isKeyword "on") (htable : table.isKeyword "table")
      (hname : Qualifies header (qualifiers ++ [name]) (is :: value :: rest))
      (his : is.isKeyword "is") (hvalue : commentText? value = some text) :
      GivesComment (comment :: on :: table :: header) ⟨.table name, text⟩
  | column {comment on column is value : Token} {header rest : List Token} {qualifiers : List String}
      {table name : String} {text : Option String} (hcomment : comment.isKeyword "comment")
      (hon : on.isKeyword "on") (hcolumn : column.isKeyword "column")
      (hname : Qualifies header (qualifiers ++ [table, name]) (is :: value :: rest))
      (his : is.isKeyword "is") (hvalue : commentText? value = some text) :
      GivesComment (comment :: on :: column :: header) ⟨.column table name, text⟩

theorem afterWords_cons {word : String} {words : List String} :
    afterWords (word :: words) ts = some rest ↔
      ∃ t r, ts = t :: r ∧ t.isKeyword word ∧ afterWords words r = some rest := by
  cases ts with
  | nil => simp [afterWords]
  | cons t ts =>
      rw [afterWords]
      split
      · rename_i ht
        simp [ht]
      · rename_i ht
        simp only [List.cons.injEq]
        constructor
        · simp
        · rintro ⟨_, _, ⟨rfl, rfl⟩, hu, -⟩
          exact absurd hu ht

theorem commentTarget?_table {target : CommentTarget} :
    commentTarget? true names = some target ↔
      ∃ qualifiers name, names = qualifiers ++ [name] ∧ target = .table name := by
  rcases names.eq_nil_or_concat with rfl | ⟨qualifiers, name, rfl⟩
  · simp [commentTarget?]
  · simp [commentTarget?, eq_comm]

theorem commentTarget?_column {target : CommentTarget} :
    commentTarget? false names = some target ↔
      ∃ qualifiers table name, names = qualifiers ++ [table, name] ∧ target = .column table name := by
  constructor
  · intro h
    rcases names.eq_nil_or_concat with rfl | ⟨tables, name, rfl⟩
    · simp [commentTarget?] at h
    · rcases tables.eq_nil_or_concat with rfl | ⟨qualifiers, table, rfl⟩
      · simp [commentTarget?] at h
      · exact ⟨qualifiers, table, name, by simp, by simpa [commentTarget?, eq_comm] using h⟩
  · rintro ⟨qualifiers, table, name, rfl, rfl⟩
    simp [commentTarget?]

/-- The comment on an object, given what follows the word for its kind: its name, `IS` and the text. -/
def commentOn? (isTable : Bool) (header : List Token) : Option Comment :=
  (qualifiedName? header).bind fun (names, afterName) =>
    (afterWords ["is"] afterName).bind fun value =>
      (value.head?.bind commentText?).bind fun text =>
        (commentTarget? isTable names).bind fun target => some ⟨target, text⟩

theorem commentOn?_eq_some {isTable : Bool} {header : List Token} :
    commentOn? isTable header = some comment ↔
      ∃ names is value rest, Qualifies header names (is :: value :: rest) ∧ is.isKeyword "is" ∧
        commentText? value = some comment.text ∧ commentTarget? isTable names = some comment.target := by
  simp only [commentOn?, Option.bind_eq_some_iff, Option.some.injEq, Prod.exists, afterWords_singleton,
    qualifiedName?_eq_some, List.head?_eq_some_iff]
  constructor
  · rintro ⟨names, _, hname, _, ⟨is, rfl, his⟩, text, ⟨value, ⟨rest, rfl⟩, htext⟩, target, htarget, rfl⟩
    exact ⟨names, is, value, rest, hname, his, htext, htarget⟩
  · rintro ⟨names, is, value, rest, hname, his, htext, htarget⟩
    exact ⟨names, _, hname, _, ⟨is, rfl, his⟩, _, ⟨value, ⟨rest, rfl⟩, htext⟩, _, htarget, rfl⟩

theorem ofTokens?_eq (statement : List Token) :
    Comment.ofTokens? statement = (afterWords ["comment", "on"] statement).bind fun r =>
      match afterWords ["table"] r with
      | some header => commentOn? true header
      | none => (afterWords ["column"] r).bind (commentOn? false) := by
  unfold Comment.ofTokens?
  congr 1
  funext r
  cases afterWords ["table"] r with
  | some header => rfl
  | none => cases afterWords ["column"] r <;> rfl

theorem afterWords_table {t : Token} (h : t.isKeyword "column") (r : List Token) :
    afterWords ["table"] (t :: r) = none := by
  have hno : ¬t.isKeyword "table" := by
    simp only [Token.isKeyword, beq_iff_eq] at h
    simp [Token.isKeyword, h]
  rw [afterWords, if_neg hno]

/-- **The comment of a statement** is the one that it gives. -/
theorem ofTokens?_eq_some : Comment.ofTokens? statement = some comment ↔ GivesComment statement comment := by
  rw [ofTokens?_eq]
  constructor
  · intro h
    obtain ⟨r, hr, hobject⟩ := Option.bind_eq_some_iff.1 h
    obtain ⟨word, _, rfl, hword, hr⟩ := afterWords_cons.1 hr
    obtain ⟨on, rfl, hon⟩ := afterWords_singleton.1 hr
    obtain ⟨target, text⟩ := comment
    split at hobject
    · rename_i header hkind
      obtain ⟨table, rfl, htable⟩ := afterWords_singleton.1 hkind
      obtain ⟨names, is, value, rest, hname, his, htext, htarget⟩ := commentOn?_eq_some.1 hobject
      obtain ⟨qualifiers, name, rfl, rfl⟩ := commentTarget?_table.1 htarget
      exact .table hword hon htable hname his htext
    · obtain ⟨header, hkind, hcolumnObject⟩ := Option.bind_eq_some_iff.1 hobject
      obtain ⟨column, rfl, hcolumn⟩ := afterWords_singleton.1 hkind
      obtain ⟨names, is, value, rest, hname, his, htext, htarget⟩ := commentOn?_eq_some.1 hcolumnObject
      obtain ⟨qualifiers, table, name, rfl, rfl⟩ := commentTarget?_column.1 htarget
      exact .column hword hon hcolumn hname his htext
  · have words : ∀ {word on : Token} {r : List Token}, word.isKeyword "comment" → on.isKeyword "on" →
        afterWords ["comment", "on"] (word :: on :: r) = some r := fun hword hon =>
      afterWords_cons.2 ⟨_, _, rfl, hword, afterWords_singleton.2 ⟨_, rfl, hon⟩⟩
    rintro (⟨hword, hon, htable, hname, his, htext⟩ | ⟨hword, hon, hcolumn, hname, his, htext⟩)
    · rw [words hword hon, Option.bind_some, afterWords_singleton.2 ⟨_, rfl, htable⟩]
      exact commentOn?_eq_some.2
        ⟨_, _, _, _, hname, his, htext, commentTarget?_table.2 ⟨_, _, rfl, rfl⟩⟩
    · rw [words hword hon, Option.bind_some, afterWords_table hcolumn,
        afterWords_singleton.2 ⟨_, rfl, hcolumn⟩]
      exact commentOn?_eq_some.2
        ⟨_, _, _, _, hname, his, htext, commentTarget?_column.2 ⟨_, _, _, rfl, rfl⟩⟩

/-! ### The object of a comment -/

/-- The place of the first of the names that is the given one up to the case of ASCII letters. -/
def firstAlike (names : List String) (name : String) : Option Nat := names.findIdx? (sameWord · name)

/-- The place of the name itself, and that of the first one alike only where the name is not there. -/
def meant (names : List String) (name : String) : Option Nat :=
  (names.findIdx? (· == name)).or (firstAlike names name)

/-- **The first name alike is the one that is meant** unless it stands before the name itself. -/
theorem firstAlike_eq_meant_iff :
    firstAlike names name = meant names name ↔
      ∀ before after, names = before ++ name :: after → name ∉ before →
        ∀ other ∈ before, sameWord other name = false := by
  have exact : ∀ {before after}, name ∉ before →
      meant (before ++ name :: after) name = some before.length := by
    intro before after hbefore
    have hnone : before.findIdx? (· == name) = none := by
      rw [List.findIdx?_eq_none_iff]
      intro other hother
      simpa using fun he : other = name => hbefore (he ▸ hother)
    simp [meant, List.findIdx?_append, hnone, List.findIdx?_cons]
  have alike : ∀ before after, firstAlike (before ++ name :: after) name = some before.length ↔
      ∀ other ∈ before, sameWord other name = false := by
    intro before after
    rw [firstAlike, List.findIdx?_append, List.findIdx?_cons, sameWord_self]
    cases hfind : before.findIdx? (sameWord · name) with
    | none => simpa using List.findIdx?_eq_none_iff.1 hfind
    | some j =>
        obtain ⟨hj, hsame, -⟩ := List.findIdx?_eq_some_iff_getElem.1 hfind
        have hne : j ≠ before.length := Nat.ne_of_lt hj
        simp only [Option.some_or, Option.some.injEq, hne, false_iff, not_forall]
        exact ⟨before[j], List.getElem_mem hj, by simp [hsame]⟩
  constructor
  · rintro h before after rfl hbefore
    rwa [exact hbefore, alike] at h
  · intro h
    by_cases hmem : name ∈ names
    · obtain ⟨before, after, rfl, hbefore⟩ := List.eq_append_cons_of_mem hmem
      rw [exact hbefore, alike]
      exact h before after rfl hbefore
    · have hnone : names.findIdx? (· == name) = none := by
        rw [List.findIdx?_eq_none_iff]
        intro other hother
        simpa using fun he : other = name => hmem (he ▸ hother)
      rw [meant, hnone, Option.none_or]

/-- The text that a comment gives to the table at place `i`; no text removes the one before. -/
def Comment.tableText? (names : List String) (i : Nat) (c : Comment) : Option (Option String) :=
  match c.target with
  | .table table => if firstAlike names table = some i then some c.text else none
  | .column _ _ => none

/-- The text that a comment gives to the columns of the name `key` in the table at place `i`. -/
def Comment.columnText? (names : List String) (i : Nat) (columns : List String) (key : String)
    (c : Comment) : Option (Option String) :=
  match c.target with
  | .table _ => none
  | .column table column =>
    if firstAlike names table = some i ∧ (firstAlike columns column).bind (columns[·]?) = some key then
      some c.text
    else none

/-! ### What is kept -/

/-- The table at place `i` after comments: it has the last text that was given to it, and so has each of
its columns.  A text that was removed is empty for a table and absent for a column. -/
structure KeepsLast (names : List String) (i : Nat) (comments : List Comment) (created t : Table) :
    Prop where
  commented : Commented created t
  table : t.tableComment =
    ((comments.filterMap (·.tableText? names i)).getLast?.map (·.getD "")).getD created.tableComment
  columns : ∀ key, t.columnComments.lookup key =
    (comments.filterMap (·.columnText? names i (created.columns.map (·.name)) key)).getLast?.join

theorem getLast?_filterMap_concat {α β : Type} (f : α → Option β) (l : List α) (a : α) :
    ((l ++ [a]).filterMap f).getLast? = (f a).or (l.filterMap f).getLast? := by
  cases h : f a <;> simp [List.filterMap_append, h]

theorem keepsLast_nil (h : created.columnComments = []) : KeepsLast names i [] created created :=
  ⟨commented_refl created, rfl, fun key => by rw [h]; rfl⟩

/-- A comment on another table changes nothing. -/
theorem KeepsLast.other (h : KeepsLast names i comments created t)
    (hother : firstAlike names comment.target.tableName ≠ some i) :
    KeepsLast names i (comments ++ [comment]) created t := by
  obtain ⟨target, text⟩ := comment
  have htable : Comment.tableText? names i ⟨target, text⟩ = none := by
    cases target with
    | table table => exact if_neg hother
    | column table column => rfl
  have hcolumn : ∀ key, Comment.columnText? names i (created.columns.map (·.name)) key ⟨target, text⟩ =
      none := by
    intro key
    cases target with
    | table table => rfl
    | column table column => exact if_neg fun hboth => hother hboth.1
  refine ⟨h.commented, ?_, fun key => ?_⟩
  · rw [getLast?_filterMap_concat, htable, Option.none_or]
    exact h.table
  · rw [getLast?_filterMap_concat, hcolumn, Option.none_or]
    exact h.columns key

/-- A warning changes no comment. -/
theorem KeepsLast.warned (h : KeepsLast names i comments created t) (notice : Notice) :
    KeepsLast names i comments created (t.warned notice) :=
  ⟨h.commented.warned notice, h.table, h.columns⟩

theorem lookup_eraseKey (key name : String) (entries : List (String × String)) :
    (eraseKey key entries).lookup name = if name = key then none else entries.lookup name := by
  induction entries with
  | nil => simp [eraseKey]
  | cons e entries ih =>
      obtain ⟨k, v⟩ := e
      unfold eraseKey at ih ⊢
      rw [List.filter_cons, lookup_entry]
      by_cases hk : k = key
      · rw [if_neg (by simp [hk]), ih, hk]
        split <;> rfl
      · rw [if_pos (by simpa using hk), lookup_entry, ih]
        by_cases hname : name = k
        · rw [if_pos hname, if_pos hname, if_neg fun he => hk (hname ▸ he)]
        · rw [if_neg hname, if_neg hname]

/-- A comment on a table gives it the text of the comment. -/
theorem tableComment_applyTo (hplace : firstAlike names comment.target.tableName = some i) (t : Table) :
    (comment.applyTo t).tableComment =
      ((comment.tableText? names i).map (·.getD "")).getD t.tableComment := by
  obtain ⟨target, text⟩ := comment
  cases target with
  | table table =>
      have hgives : Comment.tableText? names i ⟨.table table, text⟩ = some text := if_pos hplace
      rw [hgives]
      rfl
  | column table column =>
      unfold Comment.applyTo
      dsimp only
      split <;> rfl

/-- The column that a comment names is the first one of the name. -/
theorem columnText?_column {table column : String} {text : Option String}
    (hplace : firstAlike names table = some i) (columns : List Column) (key : String) :
    Comment.columnText? names i (columns.map (·.name)) key ⟨.column table column, text⟩ =
      if (columns.find? fun c => sameWord c.name column).map (·.name) = some key then some text
      else none := by
  have hfind : (firstAlike (columns.map (·.name)) column).bind ((columns.map (·.name))[·]?) =
      (columns.find? fun c => sameWord c.name column).map (·.name) := by
    rw [firstAlike, ← List.find?_eq_bind_findIdx?_getElem?, List.find?_map]
    rfl
  simp only [Comment.columnText?, hplace, hfind, true_and]

/-- A comment on a column gives it the text of the comment. -/
theorem lookup_applyTo (hplace : firstAlike names comment.target.tableName = some i) (t : Table)
    (key : String) :
    (comment.applyTo t).columnComments.lookup key =
      (comment.columnText? names i (t.columns.map (·.name)) key).getD (t.columnComments.lookup key) := by
  obtain ⟨target, text⟩ := comment
  cases target with
  | table table => rfl
  | column table column =>
      have htable : firstAlike names table = some i := hplace
      rw [columnText?_column htable]
      unfold Comment.applyTo
      dsimp only
      cases t.columns.find? fun c => sameWord c.name column with
      | none => rfl
      | some c =>
          cases text with
          | none =>
              simp only [lookup_eraseKey, Option.map_some, Option.some.injEq, @eq_comm _ key]
              split <;> rfl
          | some text =>
              simp only [lookup_putSorted, Option.map_some, Option.some.injEq, @eq_comm _ key]
              split <;> rfl

/-- A comment on the table or on one of its columns is kept. -/
theorem KeepsLast.applyTo (h : KeepsLast names i comments created t)
    (hplace : firstAlike names comment.target.tableName = some i) :
    KeepsLast names i (comments ++ [comment]) created (comment.applyTo t) := by
  have hcolumns : t.columns = created.columns := by
    rw [h.commented.same]
  refine ⟨h.commented.applyTo _, ?_, fun key => ?_⟩
  · rw [tableComment_applyTo hplace, h.table, getLast?_filterMap_concat]
    cases comment.tableText? names i <;> rfl
  · rw [lookup_applyTo hplace, hcolumns, h.columns key, getLast?_filterMap_concat]
    cases comment.columnText? names i (created.columns.map (·.name)) key <;> rfl

/-- **Comments on tables**: each table has the last texts that were given to it and to its columns. -/
theorem keepsLast_foldl {made : List Table} (hmade : ∀ t ∈ made, t.columnComments = [])
    (comments : List Comment) {created t : Table} (hcreated : made[i]? = some created)
    (ht : (comments.foldl (fun ts c => c.applyAmong ts) made)[i]? = some t) :
    KeepsLast (made.map (·.name)) i comments created t := by
  induction comments using List.reverseRecOn generalizing t with
  | nil =>
      obtain rfl : created = t := by simpa [hcreated] using ht
      exact keepsLast_nil (hmade created (List.mem_of_getElem? hcreated))
  | append_singleton comments comment ih =>
      rw [List.foldl_append, List.foldl_cons, List.foldl_nil] at ht
      have hnames := names_applyAmong comments made
      generalize comments.foldl (fun ts c => c.applyAmong ts) made = before at ht ih hnames
      have hplace : before.findIdx? (fun t => sameWord t.name comment.target.tableName) =
          firstAlike (made.map (·.name)) comment.target.tableName := by
        rw [firstAlike, ← hnames, List.findIdx?_map]
        rfl
      unfold Comment.applyAmong at ht
      dsimp only at ht
      rw [hplace] at ht
      cases hfirst : firstAlike (made.map (·.name)) comment.target.tableName with
      | none =>
          have hkeeps : ∀ {u}, before[i]? = some u →
              KeepsLast (made.map (·.name)) i (comments ++ [comment]) created u := fun hu =>
            (ih hu).other (by simp [hfirst])
          rw [hfirst, List.getElem?_modify] at ht
          obtain ⟨u, hu, rfl⟩ := Option.map_eq_some_iff.1 ht
          split
          · exact (hkeeps hu).warned (.commentOnUnknownTable _)
          · exact hkeeps hu
      | some j =>
          rw [hfirst, List.getElem?_modify] at ht
          obtain ⟨u, hu, rfl⟩ := Option.map_eq_some_iff.1 ht
          split
          · rename_i hj
            exact (ih hu).applyTo (hj ▸ hfirst)
          · rename_i hj
            exact (ih hu).other (by simpa [hfirst] using hj)

/-- A body says nothing about comments that stand apart. -/
theorem columnComments_tableOf (rules : Rules) (source : List Char) (name : String) (body : List Token) :
    (tableOf rules source name body).columnComments = [] := by
  have hbody := (extends_foldl_add rules source (splitDefinitions body)
    { dialect := rules.dialect, name }).1.columnComments
  unfold tableOf
  dsimp only
  split <;> exact hbody

/-- The tables of a script after its comments. -/
structure Remarked (source : List Char) (tokens : List Token) (made : List Table)
    (comments : List Comment) (tables : List Table) : Prop where
  /-- The tables are made by the statements that create one, wherever the comments stand. -/
  formed : List.Forall₂ (FormsTable postgresRules source) ((statements tokens).filter (CreatesTable ·)) made
  /-- The comments are those that the statements give, in their order. -/
  given : comments = (statements tokens).filterMap Comment.ofTokens?
  all : tables.length = made.length
  kept : ∀ i created t, made[i]? = some created → tables[i]? = some t →
    KeepsLast (made.map (·.name)) i comments created t

/-- **Comments go to the first object of a like name, and the last one is kept.**  That object is the one
that is meant exactly if none that is alike stands before the one of the name itself. -/
theorem remarked_of_parseAll {script : String} {tables : List Table}
    (h : parseAll .postgresql script = .ok tables) :
    (∃ tokens made comments, tokenize postgresRules script.toList = .ok tokens ∧
      Remarked script.toList tokens made comments tables) ∧
    (∀ statement comment, Comment.ofTokens? statement = some comment ↔ GivesComment statement comment) ∧
    ∀ names name, firstAlike names name = meant names name ↔
      ∀ before after, names = before ++ name :: after → name ∉ before →
        ∀ other ∈ before, sameWord other name = false := by
  refine ⟨?_, fun _ _ => ofTokens?_eq_some, fun _ _ => firstAlike_eq_meant_iff⟩
  obtain ⟨tokens, htokens, hread⟩ := tokens_of_parseAll h
  rcases tablesOf_cases (rulesOf .postgresql) script.toList (statements tokens) with
    ⟨_, _, _, _, _, -, -, -, herror⟩ | ⟨-, made, hok, hforms⟩
  · simp [tablesOfTokens, herror] at hread
  · have htables : tables =
        ((statements tokens).filterMap Comment.ofTokens?).foldl (fun ts c => c.applyAmong ts) made := by
      cases made with
      | nil => simp [tablesOfTokens, hok] at hread
      | cons t ts =>
          simp only [tablesOfTokens, hok] at hread
          exact (Except.ok.inj hread).symm
    have hnames := names_applyAmong ((statements tokens).filterMap Comment.ofTokens?) made
    have huncommented : ∀ t ∈ made, t.columnComments = [] := by
      intro t ht
      obtain ⟨_, -, name, body, options, -, rfl⟩ := exists_of_forall₂ hforms t ht
      exact columnComments_tableOf _ _ name body
    refine ⟨tokens, made, _, htokens, hforms, rfl, ?_, fun i created t hcreated ht => ?_⟩
    · simpa [htables] using congrArg List.length hnames
    · rw [htables] at ht
      exact keepsLast_foldl huncommented _ hcreated ht

/-- A script with comments before and after the table, one of which is removed again. -/
def postScript : String :=
  "COMMENT ON TABLE Posts IS 'early'; CREATE TABLE posts (id int, body text);\n" ++
    "COMMENT ON COLUMN public.posts.id IS 'it''s the key'; COMMENT ON COLUMN posts.body IS 'text';\n" ++
    "COMMENT ON TABLE posts IS 'late'; COMMENT ON COLUMN posts.Body IS NULL"

/-- The table of the script. -/
def posts : Table :=
  { dialect := .postgresql
    name := "posts"
    columns := [{ name := "id", rawType := "int" }, { name := "body", rawType := "text" }]
    tableComment := "late"
    columnComments := [("id", "it's the key")] }

theorem remarked_posts :
    ∃ tables, parseAll .postgresql postScript = .ok tables ∧ posts ∈ tables ∧
      ∃ tokens made comments, tokenize postgresRules postScript.toList = .ok tokens ∧
        Remarked postScript.toList tokens made comments tables := by
  have hread : parseAll .postgresql postScript = .ok [posts] := by decide +kernel
  exact ⟨[posts], hread, by simp, (remarked_of_parseAll hread).1⟩

/-- A script with two tables whose names differ in case, and a comment on the second one. -/
def namesakeScript : String :=
  "CREATE TABLE users (a int); CREATE TABLE \"Users\" (a int); COMMENT ON TABLE \"Users\" IS 'x'"

/-- The comment is meant for the second table, and the first one has it. -/
theorem namesake_commented :
    meant ["users", "Users"] "Users" = some 1 ∧
      parseAll .postgresql namesakeScript = .ok
        [{ dialect := .postgresql, name := "users", columns := [{ name := "a", rawType := "int" }],
            tableComment := "x" },
          { dialect := .postgresql, name := "Users", columns := [{ name := "a", rawType := "int" }],
            tableComment := "" }] := by
  decide +kernel

end Schemata.Sql
