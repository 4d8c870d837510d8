import Mathlib.Data.List.Find
import Schemata.Proofs.Ddl.Counterparts
import Schemata.Proofs.Ddl.Tables
import Schemata.Proofs.Sql.TypeNames

/-! # Tables of PostgreSQL are kept in MySQL

A table that was read in PostgreSQL and is written for MySQL is read there as one table with the
same name, columns, comments and keys, where a numbered column is given the key that it needs
(`parseAll_pgToMysql`).  Its types have to be known, with digits for parameters, and no default may
be an expression that is copied. -/

namespace Schemata.Ddl.Mysql

open Schemata.Sql Schemata.SqlType Schemata.Text

variable {t : Table} {c : Column}

/-! ### Columns -/

/-- Whether a column stays numbered: an array does not. -/
def isNumbered (c : Column) : Bool := c.autoIncrement && dimensions c.rawType == 0

/-- The types with numbered counterparts are numbered. -/
theorem isNumbered_of_counterpart {key : String} {u : Counterpart} (h : (key, u) ∈ postgresTypes)
    (hu : u.autoIncrement) : postgresRules.isNumbered key := by
  have table : (postgresTypes.filter (·.2.autoIncrement)).map (·.1) =
      ["smallserial", "serial2", "serial", "serial4", "bigserial", "serial8"] := rfl
  have hmem : key ∈ (postgresTypes.filter (·.2.autoIncrement)).map (·.1) :=
    List.mem_map.2 ⟨_, List.mem_filter.2 ⟨h, hu⟩, rfl⟩
  rw [table] at hmem
  simp only [List.mem_cons, List.not_mem_nil, or_false] at hmem
  simp only [Rules.isNumbered, postgresRules, List.contains_eq_mem, List.mem_cons,
    List.not_mem_nil, or_false, decide_eq_true_eq]
  tauto

/-- The type that a column is given is numbered if the column is. -/
theorem numbered_chosenType (h : SettledColumn postgresRules c) :
    (chosenType c).numbered = isNumbered c := by
  unfold chosenType isNumbered
  by_cases hdim : 0 < dimensions c.rawType
  · rw [if_pos hdim]
    simp [Nat.ne_of_gt hdim]
  · have hzero : dimensions c.rawType = 0 := by omega
    rw [if_neg hdim, hzero]
    cases ht : counterpart .postgresql c with
    | none => simp
    | some u =>
        have hmem := mem_of_lookup (l := postgresTypes) ht
        have hauto : u.autoIncrement → c.autoIncrement := by
          intro hu
          have := isNumbered_of_counterpart hmem hu
          rw [element_eq_self h.tight hzero] at this
          exact h.numbered this
        show (u.autoIncrement || c.autoIncrement) = (c.autoIncrement && 0 == 0)
        cases hu : u.autoIncrement with
        | false => simp
        | true => simp [hauto hu]

/-- What is read from the declaration of a column, up to its outline. -/
def readColumn (t : Table) (raw : Column → String) (c : Column) : Column :=
  { name := c.name
    rawType := raw c
    notNull := c.notNull
    autoIncrement := isNumbered c
    comment := t.commentFor c }

/-- The attributes that a declaration in MySQL says, one after the other. -/
theorem foldl_add_mysql (required numbered : Bool) (comment : Option String) (name raw : String) :
    ((if required then [Attribute.notNull] else []) ++
        (if numbered then [Attribute.autoIncrement] else []) ++
        (comment.map Attribute.comment).toList).foldl Declaration.add
          { column := { name, rawType := raw } } =
      { column :=
          { name, rawType := raw, notNull := required, autoIncrement := numbered, comment } } := by
  cases required <;> cases numbered <;> cases comment <;> rfl

theorem attributes_columnLine (t : Table) (h : SettledColumn postgresRules c) :
    (columnLine t c).clauses.flatMap ColumnClause.attributes =
      (if c.notNull then [.notNull] else []) ++ (if isNumbered c then [.autoIncrement] else []) ++
        ((t.commentFor c).map Attribute.comment).toList := by
  have hrequired : (c.notNull || isNumbered c) = c.notNull := by
    cases hn : isNumbered c with
    | false => simp
    | true =>
        have := h.required (by simp_all [isNumbered])
        simp [this]
  have hcomment : (((t.commentFor c).map ColumnClause.comment).toList).flatMap ColumnClause.attributes =
      ((t.commentFor c).map Attribute.comment).toList := by
    cases t.commentFor c <;> rfl
  simp only [columnLine, List.flatMap_append, attributes_defaultClauses, hcomment,
    numbered_chosenType h, hrequired, List.append_nil]
  cases c.notNull <;> cases isNumbered c <;> rfl

theorem definition_columnLine {raw : Column → String} (t : Table) (h : SettledColumn postgresRules c)
    (hraw : isMysqlType (raw c)) :
    (columnLine t c).definition mysqlRules (raw c) =
      .column (readColumn t raw c) false false [] := by
  obtain ⟨hlookup, hnot⟩ : (mysqlTypes.lookup (raw c)).isSome = true ∧
      mysqlRules.isNumbered (raw c) = false := by
    simpa [isMysqlType] using hraw
  have hdeclaration : (columnLine t c).declaration (raw c) = { column := readColumn t raw c } := by
    rw [ColumnLine.declaration, attributes_columnLine t h]
    exact foldl_add_mysql _ _ _ _ _
  have hsettle : Declaration.settle mysqlRules (readColumn t raw c) = readColumn t raw c := by
    unfold Declaration.settle
    cases hn : isNumbered c with
    | false => simp [readColumn, hn, hnot]
    | true =>
        have := h.required (by simp_all [isNumbered])
        simp [readColumn, Column.numbered, hn, this]
  have htype : Declaration.typeNotices mysqlRules (readColumn t raw c) = [] := by
    rw [Declaration.typeNotices]
    exact if_pos (isKnown_of_lookup hlookup)
  simp only [ColumnLine.definition, hdeclaration, hsettle, htype, List.append_nil]

/-! ### Keys -/

/-- **What a column adds to the keys**: nothing if it is not numbered or a key already, else a primary
key where there is none and an index where there is one. -/
theorem provide_cases (keys : Keys) (t : Table) (c : Column) :
    (keys.provide t c = keys ∧ ((chosenType c).numbered → c.name ∈ keys.primary ∨
        keys.primary ≠ [] ∧ ∃ names ∈ t.uniqueKeys, names.head? = some c.name)) ∨
      (keys.primary = [] ∧ (chosenType c).numbered ∧
        keys.provide t c = { keys with primary := [c.name] }) ∨
      keys.primary ≠ [] ∧ c.name ∉ keys.primary ∧
        keys.provide t c = { keys with secondary := keys.secondary ++ [c.name] } := by
  unfold Keys.provide Keys.needed
  by_cases hkey : (chosenType c).numbered = true ∧ c.name ∉ keys.primary
  · obtain ⟨hnumbered, hname⟩ := hkey
    have hneeds : (!(chosenType c).numbered || keys.primary.contains c.name) = false := by
      simp [hnumbered, hname]
    rw [hneeds]
    cases hprimary : keys.primary with
    | nil => exact .inr (.inl ⟨rfl, hnumbered, rfl⟩)
    | cons name rest =>
        rw [← hprimary]
        cases hunique : t.uniqueKeys.any (·.head? == some c.name) with
        | true =>
            obtain ⟨names, hmem, hhead⟩ := List.any_eq_true.1 hunique
            refine .inl ⟨by simp [hprimary], fun _ => .inr ⟨by simp [hprimary], names, hmem, ?_⟩⟩
            simpa using hhead
        | false => exact .inr (.inr ⟨by simp [hprimary], hname, by simp [hprimary]⟩)
  · have hneeds : (!(chosenType c).numbered || keys.primary.contains c.name) = true := by
      simpa [or_iff_not_imp_left] using hkey
    rw [hneeds]
    refine .inl ⟨rfl, fun hnumbered => .inl ?_⟩
    simpa [hnumbered] using hkey

theorem primary_provide (keys : Keys) (c : Column) :
    (keys.provide t c).primary =
      if keys.primary.isEmpty && (chosenType c).numbered then [c.name] else keys.primary := by
  rcases provide_cases keys t c with ⟨hkept, hkey⟩ | ⟨hnone, hnumbered, hadded⟩ | ⟨hsome, -, hadded⟩
  · rw [hkept]
    cases hprimary : keys.primary with
    | nil =>
        have hnot : (chosenType c).numbered = false := by
          rw [hprimary] at hkey
          simpa using hkey
        simp [hnot]
    | cons name rest => rfl
  · simp [hadded, hnone, hnumbered]
  · simp [hadded, hsome]

/-- A primary key that is there is kept; otherwise the first numbered column is made one. -/
theorem primary_foldl_provide (cols : List Column) (keys : Keys) :
    (cols.foldl (fun keys c => keys.provide t c) keys).primary =
      if keys.primary.isEmpty then
        ((cols.find? fun c => (chosenType c).numbered).map (·.name)).toList
      else keys.primary := by
  induction cols generalizing keys with
  | nil => cases hkeys : keys.primary <;> simp [hkeys]
  | cons c cols ih =>
      rw [List.foldl_cons, ih, primary_provide, List.find?_cons]
      cases keys.primary with
      | nil => cases hc : (chosenType c).numbered <;> simp
      | cons name rest => simp

/-- The indexes that are added name columns outside the primary key. -/
theorem mem_secondary_foldl_provide {cols : List Column} {keys : Keys} {name : String}
    (h : name ∈ (cols.foldl (fun keys c => keys.provide t c) keys).secondary) :
    name ∈ keys.secondary ∨ name ∉ keys.primary ∧ ∃ c ∈ cols, c.name = name := by
  induction cols generalizing keys with
  | nil => exact .inl h
  | cons c cols ih =>
      have hlater : (∃ c' ∈ cols, c'.name = name) →
          ∃ c' ∈ c :: cols, c'.name = name := fun ⟨c', hc', hname⟩ => ⟨c', by simp [hc'], hname⟩
      rcases provide_cases keys t c with ⟨hstep, -⟩ | ⟨hnone, -, hstep⟩ | ⟨-, hnot, hstep⟩
      all_goals rw [List.foldl_cons, hstep] at h
      · rcases ih h with h | ⟨hout, hc⟩
        · exact .inl h
        · exact .inr ⟨hout, hlater hc⟩
      · rcases ih h with h | ⟨-, hc⟩
        · exact .inl h
        · exact .inr ⟨by simp [hnone], hlater hc⟩
      · rcases ih h with h | ⟨hout, hc⟩
        · rcases List.mem_append.1 h with h | h
          · exact .inl h
          · obtain rfl := List.mem_singleton.1 h
            exact .inr ⟨hnot, c, by simp, rfl⟩
        · exact .inr ⟨hout, hlater hc⟩

theorem primary_keysOf (t : Table) :
    (keysOf t).primary =
      if t.distinctPrimaryKeys.isEmpty then
        ((t.columns.find? fun c => (chosenType c).numbered).map (·.name)).toList
      else t.distinctPrimaryKeys :=
  primary_foldl_provide t.columns { primary := t.distinctPrimaryKeys }

/-- The keys name columns in their spelling. -/
theorem declared_primary (h : WellRead postgresRules t) :
    ∀ name ∈ (keysOf t).primary, Declared t.columns name := by
  rw [primary_keysOf]
  split
  · intro name hname
    cases hfind : t.columns.find? fun c => (chosenType c).numbered with
    | none => simp [hfind] at hname
    | some c =>
        obtain rfl : name = c.name := by simpa [hfind] using hname
        exact declared_of_mem (List.mem_of_find?_eq_some hfind)
  · intro name hname
    exact h.primary name (by simpa [Table.distinctPrimaryKeys] using hname)

theorem declared_secondary (t : Table) : ∀ name ∈ (keysOf t).secondary, Declared t.columns name := by
  intro name hname
  rcases mem_secondary_foldl_provide hname with hname | ⟨-, c, hc, rfl⟩
  · simp at hname
  · exact declared_of_mem hc

/-! ### Tables -/

/-- A table whose types are known, with digits for parameters, and whose defaults are no expressions
that would be copied. -/
structure Portable (t : Table) : Prop where
  known : ∀ c ∈ t.columns, isKnown .postgresql c.rawType
  params : ∀ c ∈ t.columns, DigitParams c
  defaults : ∀ c ∈ t.columns, ∀ text e, c.defaultValue = some text →
    DefaultValue.ofText .postgresql text ≠ .expression e

/-- A column of PostgreSQL and the column of MySQL that becomes of it. -/
structure KeptColumn (t : Table) (c c' : Column) : Prop where
  name : c'.name = c.name
  known : isKnown .mysql c'.rawType
  notNull : c'.notNull = c.notNull
  autoIncrement : c'.autoIncrement = isNumbered c
  comment : c'.comment = t.commentFor c

/-- A table of PostgreSQL and the table of MySQL that becomes of it. -/
structure Kept (t t' : Table) : Prop where
  name : t'.name = t.name
  columns : List.Forall₂ (KeptColumn t) t.columns t'.columns
  tableComment : t'.tableComment = t.tableComment
  primaryKeys : t'.primaryKeys =
    if t.distinctPrimaryKeys = [] then ((t.columns.find? isNumbered).map (·.name)).toList
    else t.distinctPrimaryKeys
  uniqueKeys : t'.uniqueKeys = t.uniqueKeys.filter (· != t'.primaryKeys)
  indexes : t'.indexes = (keysOf t).secondary.map ([·])
  warnings : t'.warnings = if t.columns = [] then [(Notice.noColumns t.name).message] else []

/-- The clauses of a declaration. -/
theorem mem_clauses {clause : ColumnClause} (h : clause ∈ (columnLine t c).clauses) :
    clause.word ∈ clauseWords .mysql ∧
      ∀ text, clause = .defaultTo text → default? c (chosenType c) = some (.ok text) := by
  simp only [columnLine, List.mem_append] at h
  rcases h with ((h | h) | h) | h
  · split at h
    · obtain rfl := List.mem_singleton.1 h
      exact ⟨by decide, by simp⟩
    · simp at h
  · split at h
    · obtain rfl := List.mem_singleton.1 h
      exact ⟨by decide, by simp⟩
    · simp at h
  · obtain ⟨text, rfl, hvalue⟩ := mem_defaultClauses h
    refine ⟨by simp [ColumnClause.word, clauseWords], fun text' he => ?_⟩
    rw [hvalue, ColumnClause.defaultTo.inj he]
  · obtain ⟨text, -, rfl⟩ := Option.map_eq_some_iff.1 (Option.mem_toList.1 h)
    exact ⟨by simp [ColumnClause.word, clauseWords], by simp⟩

/-- The declaration of a column is read with its name, its type and its comment. -/
theorem givesDefinition_columnLine {raw : Column → String} (h : SettledColumn postgresRules c)
    (hdefault : ∀ text e, c.defaultValue = some text →
      DefaultValue.ofText .postgresql text ≠ .expression e)
    (htype : GivesType .mysql (chosenType c).text (raw c)) (hraw : isMysqlType (raw c)) :
    GivesDefinition .mysql ((TableElement.column (columnLine t c)).text (spellingOf .mysql))
      (.column (readColumn t raw c) false false []) := by
  have hvalue : ∀ text, default? c (chosenType c) = some (.ok text) →
      ∃ ks, Gives .mysql text.toList ks ∧ ValueKinds ks := by
    intro text htext
    obtain ⟨-, source, hsource, hresult⟩ := mysql_default?_ok htext
    exact mysql_gives_default (fun e => hdefault source e hsource) hresult
  obtain ⟨ks, hks, hgives⟩ := exists_valueKinds
    (fun text (hmem : .defaultTo text ∈ (columnLine t c).clauses) => (mem_clauses hmem).2 text rfl)
    hvalue
  rw [← definition_columnLine t h hraw]
  exact givesDefinition_column (d := .mysql) h.named (.inl rfl) htype hks hgives
    fun clause hclause => (mem_clauses hclause).1

/-- The first numbered column is the same before and after the conversion. -/
theorem find?_numbered (h : WellRead postgresRules t) :
    (t.columns.find? fun c => (chosenType c).numbered) = t.columns.find? isNumbered := by
  exact List.find?_congr fun c hc => numbered_chosenType (h.columns c hc)

/-- What is read from the statement for a table, up to its comment, if `f` says what is read from the
declarations of its columns. -/
def readTable (t : Table) (f : Column → Column) : Table :=
  { dialect := .mysql
    name := t.name
    columns := t.columns.map f
    primaryKeys := (keysOf t).primary
    uniqueKeys := t.uniqueKeys.filter (· != (keysOf t).primary)
    indexes := (keysOf t).secondary.map ([·])
    warnings := if t.columns.isEmpty then [(Notice.noColumns t.name).message] else [] }

theorem tableOfDefinitions_convert (h : WellRead postgresRules t) {f : Column → Column}
    (hf : ∀ c, (f c).name = c.name) :
    tableOfDefinitions mysqlRules t.name
        (columnDefinitions f (fun _ => false) (fun _ => []) t.columns ++
          keyDefinitions (keysOf t).primary (t.uniqueKeys.filter (· != (keysOf t).primary))
            (keysOf t).secondary) =
      readTable t f := by
  have hnames : t.columns.map (·.name) = (t.columns.map f).map (·.name) := by
    rw [List.map_map]
    exact List.map_congr_left fun c _ => (hf c).symm
  rw [tableOfDefinitions_columns]
  · cases hc : t.columns <;> simp [readTable, hc, mysqlRules]
  · exact fun name hname => (declared_primary h name hname).congr hnames
  · intro names hmem name hname
    exact (h.unique names (List.mem_filter.1 hmem).1 name hname).congr hnames
  · exact fun name hname => (declared_secondary t name hname).congr hnames

/-- The elements for the keys of a table are read as keys. -/
theorem givesDefinition_keyElements (h : WellRead postgresRules t) :
    List.Forall₂ (fun e : TableElement => GivesDefinition .mysql (e.text (spellingOf .mysql)))
      (keyElements t)
      (keyDefinitions (keysOf t).primary (t.uniqueKeys.filter (· != (keysOf t).primary))
        (keysOf t).secondary) := by
  have hkeys := givesDefinition_keys .mysql (keysOf t).primary
    (t.uniqueKeys.filter (· != (keysOf t).primary))
    fun names hnames => h.groups names (List.mem_filter.1 hnames).1
  have hindexes : List.Forall₂
      (fun e : TableElement => GivesDefinition .mysql (e.text (spellingOf .mysql)))
      ((keysOf t).secondary.map TableElement.key)
      ((keysOf t).secondary.map fun name => Definition.index [name]) :=
    forall₂_map fun name _ => givesDefinition_key name
  exact List.rel_append hkeys hindexes

/-- The elements of the statement for a table are read as columns and keys. -/
theorem givesDefinition_elements (h : WellRead postgresRules t) (hp : Portable t)
    {raw : Column → String}
    (hraw : ∀ c ∈ t.columns, GivesType .mysql (chosenType c).text (raw c) ∧ isMysqlType (raw c)) :
    List.Forall₂ (fun e : TableElement => GivesDefinition .mysql (e.text (spellingOf .mysql)))
      (t.columns.map (TableElement.column <| columnLine t ·) ++ keyElements t)
      (columnDefinitions (readColumn t raw) (fun _ => false) (fun _ => []) t.columns ++
        keyDefinitions (keysOf t).primary (t.uniqueKeys.filter (· != (keysOf t).primary))
          (keysOf t).secondary) := by
  have hcolumns : List.Forall₂
      (fun e : TableElement => GivesDefinition .mysql (e.text (spellingOf .mysql)))
      (t.columns.map (TableElement.column <| columnLine t ·))
      (columnDefinitions (readColumn t raw) (fun _ => false) (fun _ => []) t.columns) :=
    forall₂_map fun c hc =>
      givesDefinition_columnLine (h.columns c hc) (hp.defaults c hc) (hraw c hc).1 (hraw c hc).2
  exact List.rel_append hcolumns (givesDefinition_keyElements h)

theorem keptColumn_of_outline {raw : Column → String} {c' : Column} (hraw : isMysqlType (raw c))
    (houtline : c'.outline = readColumn t raw c) : KeptColumn t c c' := by
  have htype : c'.rawType = raw c := (congrArg Column.rawType houtline :)
  have hname : c'.name = c.name := (congrArg Column.name houtline :)
  have hnull : c'.notNull = c.notNull := (congrArg Column.notNull houtline :)
  have hauto : c'.autoIncrement = isNumbered c := (congrArg Column.autoIncrement houtline :)
  have hcomment : c'.comment = t.commentFor c := (congrArg Column.comment houtline :)
  simp only [isMysqlType, Bool.and_eq_true] at hraw
  exact ⟨hname, htype ▸ isKnown_of_lookup hraw.1, hnull, hauto, hcomment⟩

/-- A table with the outline that is read from the statement is what becomes of the table. -/
theorem kept_of_outline (h : WellRead postgresRules t) {raw : Column → String}
    (hraw : ∀ c ∈ t.columns, isMysqlType (raw c)) {t₀ : Table}
    (houtline : t₀.outline = readTable t (readColumn t raw)) :
    Kept t { t₀ with tableComment := t.comment.getD "" } := by
  have hname : t₀.name = t.name := (congrArg Table.name houtline :)
  have hcolumns : t.columns.map (readColumn t raw) = t₀.columns.map Column.outline :=
    (congrArg Table.columns houtline).symm
  have hprimary : t₀.primaryKeys = (keysOf t).primary := (congrArg Table.primaryKeys houtline :)
  have hunique : t₀.uniqueKeys = t.uniqueKeys.filter (· != (keysOf t).primary) :=
    (congrArg Table.uniqueKeys houtline :)
  have hindexes : t₀.indexes = (keysOf t).secondary.map ([·]) := (congrArg Table.indexes houtline :)
  have hwarnings : t₀.warnings =
      if t.columns.isEmpty then [(Notice.noColumns t.name).message] else [] :=
    (congrArg Table.warnings houtline :)
  refine ⟨hname, ?_, getD_spoken t.tableComment, ?_, ?_, hindexes, ?_⟩
  · have hall := (List.forall₂_and_left _ _).2 ⟨hraw, forall₂_of_map_eq hcolumns⟩
    refine hall.imp fun c c' ⟨hc, he⟩ => ?_
    exact keptColumn_of_outline hc he.symm
  · show t₀.primaryKeys = _
    rw [hprimary, primary_keysOf, find?_numbered h]
    cases t.distinctPrimaryKeys <;> rfl
  · show t₀.uniqueKeys = t.uniqueKeys.filter (· != t₀.primaryKeys)
    rw [hunique, hprimary]
  · show t₀.warnings = _
    rw [hwarnings]
    cases t.columns <;> rfl

end Schemata.Ddl.Mysql

namespace Schemata.Ddl

open Schemata.Sql Schemata.SqlType Mysql

/-- **Tables of PostgreSQL are kept in MySQL**: what is written is read as one table of the same name
with the same columns, comments and keys. -/
theorem parseAll_pgToMysql {script : String} {tables : List Table}
    (hread : parseAll .postgresql script = .ok tables) {t : Table} (ht : t ∈ tables)
    (hp : Mysql.Portable t) (options : Options) :
    ∃ t', parseAll .mysql (convert .pgToMysql options t).sql = .ok [t'] ∧ Mysql.Kept t t' := by
  have h : WellRead postgresRules t := wellRead_of_parseAll hread t ht
  have htypes : ∀ c ∈ t.columns,
      ∃ raw, GivesType .mysql (chosenType c).text raw ∧ isMysqlType raw :=
    fun c hc => mysql_givesType (hp.known c hc) (hp.params c hc)
  choose! raw hraw using htypes
  obtain ⟨t₀, houtline, hparse⟩ := parseAll_conversion (d := .mysql)
    (c := Mysql.convert options t) h.named (.inr rfl) (givesDefinition_elements h hp hraw)
  have htable := houtline.trans (tableOfDefinitions_convert h fun _ => rfl)
  exact ⟨_, hparse, kept_of_outline h (fun c hc => (hraw c hc).2) htable⟩

/-- A script with a numbered column, a quoted default, a unique constraint and a comment. -/
def bookScript : String :=
  "CREATE TABLE books (id serial, title varchar(20) NOT NULL DEFAULT 'it''s', UNIQUE (title));" ++
    "COMMENT ON COLUMN books.title IS 'shown'"

/-- The table of this script. -/
def books : Table :=
  { dialect := .postgresql
    name := "books"
    columns :=
      [{ name := "id", rawType := "serial", notNull := true, autoIncrement := true },
        { name := "title", rawType := "varchar", length := some "20", notNull := true
          defaultValue := some "'it''s'" }]
    uniqueKeys := [["title"]]
    columnComments := [("title", "shown")] }

theorem portable_books : Mysql.Portable books := by
  have htext : DefaultValue.ofText .postgresql "'it''s'" = .string "it's" := by decide +kernel
  refine ⟨by decide +kernel, ?_, ?_⟩
  · intro c hc
    rcases List.mem_cons.1 hc with rfl | hc
    · exact ⟨by simp, by simp⟩
    · obtain rfl := List.mem_singleton.1 hc
      refine ⟨fun l hl => ?_, by simp⟩
      obtain rfl := Option.some.inj hl
      decide
  · intro c hc text e hd
    rcases List.mem_cons.1 hc with rfl | hc
    · simp at hd
    · obtain rfl := List.mem_singleton.1 hc
      obtain rfl := Option.some.inj hd
      simp [htext]

/-- The books are kept. -/
theorem books_pgToMysql : ∃ t', parseAll .mysql (convert .pgToMysql {} books).sql = .ok [t'] ∧
    Mysql.Kept books t' := by
  have hread : parseAll .postgresql bookScript = .ok [books] := by decide +kernel
  exact parseAll_pgToMysql hread (by simp) portable_books {}

end Schemata.Ddl
