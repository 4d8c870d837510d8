import Schemata.Proofs.Ddl.Counterparts
import Schemata.Proofs.Ddl.Tables
import Schemata.Proofs.Sql.Comments

/-! # Tables of MySQL are kept in PostgreSQL

A table that was read in MySQL and is written for PostgreSQL with its comments is read there as one
table with the same name, columns, comments and keys, whose columns may be null where they could
before (`parseAll_mysqlToPg`).  Its types have to be known, with digits for parameters, no default may
be an expression or the call of a function that is copied, and the names of its columns have to
differ without regard to case. -/

namespace Schemata.Ddl.Postgres

open Schemata.Sql Schemata.SqlType Schemata.Text

variable {t : Table} {c : Column}

/-! ### Columns -/

/-- Whether a column is the primary key by its own declaration. -/
def isInline (t : Table) (c : Column) : Bool := inlineKey t == some c.name

/-- Whether the members of an enumeration are checked. -/
def hasMembers (c : Column) : Bool := c.rawType == "enum" && !c.members.isEmpty

/-- What is read from the declaration of a column, up to its outline. -/
def readColumn (t : Table) (raw : Column → String) (c : Column) : Column :=
  { name := c.name
    rawType := raw c
    notNull := (chosenType c).numbered || (c.notNull && !isInline t c)
    autoIncrement := (chosenType c).numbered }

/-- The notices on what is read from the declaration of a column. -/
def readNotices (c : Column) : List Notice :=
  if hasMembers c then [.dropped c.name .check] else []

theorem attributes_columnLine (t : Table) (c : Column) :
    (columnLine t c).clauses.flatMap ColumnClause.attributes =
      (if isInline t c then [.primaryKey]
        else if c.notNull && !(chosenType c).numbered then [.notNull] else []) ++
        (if hasMembers c then [.dropped .check] else []) := by
  have hkey : (keyClauses t c (chosenType c)).flatMap ColumnClause.attributes =
      if isInline t c then [.primaryKey]
      else if c.notNull && !(chosenType c).numbered then [.notNull] else [] := by
    unfold keyClauses isInline
    by_cases hin : inlineKey t = some c.name
    · simp [hin, ColumnClause.attributes]
    · simp only [hin, if_false, beq_iff_eq]
      split <;> rfl
  have hmembers : (memberClauses c).flatMap ColumnClause.attributes =
      if hasMembers c then [.dropped .check] else [] := by
    unfold memberClauses hasMembers
    split <;> rfl
  simp only [columnLine, List.flatMap_append, attributes_defaultClauses, hkey, hmembers,
    List.append_nil]

/-- The attributes that a declaration in PostgreSQL gives, one after the other. -/
theorem foldl_add_postgres (key required check : Bool) (name raw : String) :
    ((if key then [Attribute.primaryKey] else if required then [.notNull] else []) ++
        (if check then [Attribute.dropped .check] else [])).foldl Declaration.add
          { column := { name, rawType := raw } } =
      { column := { name, rawType := raw, notNull := required && !key }
        primary := key
        notices := if check then [.dropped name .check] else [] } := by
  cases key <;> cases required <;> cases check <;> rfl

theorem definition_columnLine {raw : Column → String} (t : Table)
    (hraw : isPostgresType (chosenType c).numbered (raw c)) :
    (columnLine t c).definition postgresRules (raw c) =
      .column (readColumn t raw c) (isInline t c) false (readNotices c) := by
  obtain ⟨hknown, hnumbered⟩ : isKnown .postgresql (raw c) = true ∧
      postgresRules.isNumbered (raw c) = (chosenType c).numbered := by
    simpa [isPostgresType] using hraw
  have hdeclaration := foldl_add_postgres (isInline t c) (c.notNull && !(chosenType c).numbered)
    (hasMembers c) c.name (raw c)
  rw [← attributes_columnLine t c] at hdeclaration
  change (columnLine t c).declaration (raw c) = _ at hdeclaration
  have hsettle : Declaration.settle postgresRules
      { name := c.name, rawType := raw c
        notNull := c.notNull && !(chosenType c).numbered && !isInline t c } =
      readColumn t raw c := by
    unfold Declaration.settle readColumn
    rw [hnumbered]
    cases (chosenType c).numbered <;> simp [Column.numbered]
  have htype : Declaration.typeNotices postgresRules (readColumn t raw c) = [] := by
    rw [Declaration.typeNotices]
    exact if_pos hknown
  simp only [ColumnLine.definition, hdeclaration, hsettle, htype, List.append_nil]
  rfl

/-- The type that a column is given is numbered only if the column is. -/
theorem autoIncrement_of_numbered (h : (chosenType c).numbered) : c.autoIncrement := by
  unfold chosenType at h
  split at h
  · simp at h
  · split at h
    · simp at h
    · rename_i hauto
      simpa using hauto

/-- The clauses of a declaration. -/
theorem mem_clauses {clause : ColumnClause} (h : clause ∈ (columnLine t c).clauses) :
    clause.word ∈ clauseWords .postgresql ∧
      ∀ text, clause = .defaultTo text → default? c (chosenType c) = some (.ok text) := by
  simp only [columnLine, List.mem_append] at h
  rcases h with (h | h) | h
  · unfold keyClauses at h
    split at h
    · obtain rfl := List.mem_singleton.1 h
      exact ⟨by decide, by simp⟩
    · split at h
      · obtain rfl := List.mem_singleton.1 h
        exact ⟨by decide, by simp⟩
      · simp at h
  · obtain ⟨text, rfl, hvalue⟩ := mem_defaultClauses h
    refine ⟨by simp [ColumnClause.word, clauseWords], fun text' he => ?_⟩
    rw [hvalue, ColumnClause.defaultTo.inj he]
  · unfold memberClauses at h
    split at h
    · obtain rfl := List.mem_singleton.1 h
      exact ⟨by simp [ColumnClause.word, clauseWords], by simp⟩
    · simp at h

/-- The declaration of a column is read with its name and its type. -/
theorem givesDefinition_columnLine {raw : Column → String} (hname : c.name ≠ "")
    (hlike : c.name ≠ "like")
    (hdefault : ∀ text, c.defaultValue = some text →
      (∀ e, DefaultValue.ofText .mysql text ≠ .expression e) ∧
        ∀ f, DefaultValue.ofText .mysql text ≠ .function f)
    (htype : GivesType .postgresql (chosenType c).text (raw c))
    (hraw : isPostgresType (chosenType c).numbered (raw c)) :
    GivesDefinition .postgresql
      ((TableElement.column (columnLine t c)).text (spellingOf .postgresql))
      (.column (readColumn t raw c) (isInline t c) false (readNotices c)) := by
  have hvalue : ∀ text, default? c (chosenType c) = some (.ok text) →
      ∃ ks, Gives .postgresql text.toList ks ∧ ValueKinds ks := by
    intro text htext
    obtain ⟨-, source, hsource, hresult⟩ := postgres_default?_ok htext
    obtain ⟨hexpression, hfunction⟩ := hdefault source hsource
    exact postgres_gives_default hexpression hfunction hresult
  obtain ⟨ks, hks, hgives⟩ := exists_valueKinds
    (fun text (hmem : .defaultTo text ∈ (columnLine t c).clauses) => (mem_clauses hmem).2 text rfl)
    hvalue
  rw [← definition_columnLine t hraw]
  exact givesDefinition_column (d := .postgresql) hname (.inr hlike) htype hks hgives
    fun clause hclause => (mem_clauses hclause).1

/-! ### Keys -/

/-- The names in the primary key that are not declared with their column. -/
def remainingKeys (t : Table) : List String :=
  t.distinctPrimaryKeys.filter (fun name => some name != inlineKey t)

theorem inlineKey_eq_some {name : String} (h : inlineKey t = some name) :
    t.distinctPrimaryKeys = [name] ∧ ∃ c ∈ t.columns, c.name = name := by
  unfold inlineKey at h
  split at h
  · rename_i only hkeys
    obtain ⟨c, hc, rfl⟩ := Option.map_eq_some_iff.1 h
    obtain ⟨hfound, -⟩ := Option.filter_eq_some_iff.1 hc
    have hname : c.name = only := by simpa using List.find?_some hfound
    exact ⟨by rw [hkeys, hname], c, List.mem_of_find?_eq_some hfound, rfl⟩
  · simp at h

/-- The primary key is read as it was, from the columns or from its own element. -/
theorem primaryKeys_read (h : (t.columns.map (·.name)).Nodup) {f : Column → Column}
    (hf : ∀ c, (f c).name = c.name) :
    ((t.columns.filter (isInline t)).map fun c => (f c).name) ++ remainingKeys t =
      t.distinctPrimaryKeys := by
  simp only [hf]
  cases hkey : inlineKey t with
  | none =>
      have hnone : isInline t = fun _ => false := by
        funext c
        simp [isInline, hkey]
      have hsome : ∀ name : String, (some name != none) = true := fun _ => rfl
      simp [hnone, hsome, remainingKeys, hkey]
  | some name =>
      obtain ⟨hkeys, c, hc, hname⟩ := inlineKey_eq_some hkey
      have hinline : isInline t = (fun c => c.name == name) := by
        funext c
        rw [isInline, hkey, Option.some_beq_some]
        exact BEq.comm
      have hnames : (t.columns.filter (·.name == name)).map (·.name) = [name] := by
        have hmem : name ∈ t.columns.map (·.name) := hname ▸ List.mem_map_of_mem hc
        have := List.filter_beq (l := t.columns.map (·.name)) name
        rw [List.count_eq_one_of_mem h hmem, List.filter_map] at this
        exact this
      rw [hinline, hnames, remainingKeys, hkeys, hkey]
      simp

/-! ### Tables -/

/-- A table whose types are known, with digits for parameters, whose defaults are neither expressions
nor calls that would be copied, and whose columns have names that PostgreSQL tells apart. -/
structure Portable (t : Table) : Prop where
  known : ∀ c ∈ t.columns, (mysqlTypes.lookup c.rawType).isSome
  params : ∀ c ∈ t.columns, c.rawType ≠ "enum" → c.rawType ≠ "set" → DigitParams c
  defaults : ∀ c ∈ t.columns, ∀ text, c.defaultValue = some text →
    (∀ e, DefaultValue.ofText .mysql text ≠ .expression e) ∧
      ∀ f, DefaultValue.ofText .mysql text ≠ .function f
  distinct : ((t.columns.map (·.name)).map asciiLower).Nodup
  notLike : ∀ c ∈ t.columns, c.name ≠ "like"

/-- A column of MySQL and the column of PostgreSQL that becomes of it. -/
structure KeptColumn (t t' : Table) (c c' : Column) : Prop where
  name : c'.name = c.name
  known : isKnown .postgresql c'.rawType
  optional : t'.isOptional c' = t.isOptional c
  comment : t'.commentFor c' = t.commentFor c

/-- A table of MySQL and the table of PostgreSQL that becomes of it. -/
structure Kept (t t' : Table) : Prop where
  name : t'.name = t.name
  columns : List.Forall₂ (KeptColumn t t') t.columns t'.columns
  tableComment : t'.tableComment = t.tableComment
  primaryKeys : t'.primaryKeys = t.distinctPrimaryKeys
  uniqueKeys : t'.uniqueKeys = t.uniqueKeys.filter (· != t.distinctPrimaryKeys)
  warnings : t'.warnings =
    (t.columns.filter hasMembers).map (fun c => (Notice.dropped c.name .check).message) ++
      if t.columns = [] then [(Notice.noColumns t.name).message] else []

/-- A column whose type has a numbered counterpart is numbered. -/
theorem autoIncrement_of_counterpart {u : Counterpart} (h : SettledColumn mysqlRules c)
    (hknown : (mysqlTypes.lookup c.rawType).isSome) (hu : counterpart .mysql c = some u)
    (hauto : u.autoIncrement) : c.autoIncrement := by
  have table : (mysqlTypes.filter (·.2.autoIncrement)).map (·.1) = ["serial"] := rfl
  have hserial : ∀ {key}, (key, u) ∈ mysqlTypes → key = "serial" := by
    intro key hmem
    have : key ∈ (mysqlTypes.filter (·.2.autoIncrement)).map (·.1) :=
      List.mem_map.2 ⟨_, List.mem_filter.2 ⟨hmem, hauto⟩, rfl⟩
    rwa [table, List.mem_singleton] at this
  have hunsigned : ∀ base : String, base ++ " unsigned" ≠ "serial" := by
    intro base he
    have := congrArg (fun s : String => s.toList.getLast?) he
    have hsuffix : " unsigned".toList = " unsigne".toList ++ ['d'] := rfl
    have hlast : "serial".toList.getLast? = some 'l' := rfl
    simp only [String.toList_append] at this
    rw [hsuffix, hlast] at this
    simp at this
  have hraw : mysqlTypes.lookup c.rawType = some u → c.autoIncrement := by
    intro hu
    exact h.numbered (by rw [hserial (mem_of_lookup hu)]; decide)
  rcases lookup_of_counterpart hu with hl | hl
  · rw [element_of_known hknown] at hl
    exact hraw hl
  · exact absurd (hserial (mem_of_lookup hl)) (hunsigned _)

/-- The elements for the keys of a table are read as keys. -/
theorem givesDefinition_keyElements (h : WellRead mysqlRules t) :
    List.Forall₂ (fun e : TableElement => GivesDefinition .postgresql (e.text (spellingOf .postgresql)))
      (keyElements t)
      (keyDefinitions (remainingKeys t) (t.uniqueKeys.filter (· != t.distinctPrimaryKeys)) []) := by
  have hkeys := givesDefinition_keys .postgresql (remainingKeys t)
    (t.uniqueKeys.filter (· != t.distinctPrimaryKeys))
    fun names hnames => h.groups names (List.mem_filter.1 hnames).1
  rw [keyDefinitions, List.map_nil, List.append_nil]
  exact hkeys

/-- The elements of the statement for a table are read as columns and keys. -/
theorem givesDefinition_elements (h : WellRead mysqlRules t) (hp : Portable t)
    {raw : Column → String}
    (hraw : ∀ c ∈ t.columns, GivesType .postgresql (chosenType c).text (raw c) ∧
      isPostgresType (chosenType c).numbered (raw c)) :
    List.Forall₂ (fun e : TableElement => GivesDefinition .postgresql (e.text (spellingOf .postgresql)))
      (t.columns.map (TableElement.column <| columnLine t ·) ++ keyElements t)
      (columnDefinitions (readColumn t raw) (isInline t) readNotices t.columns ++
        keyDefinitions (remainingKeys t) (t.uniqueKeys.filter (· != t.distinctPrimaryKeys)) []) := by
  have hcolumns : List.Forall₂
      (fun e : TableElement => GivesDefinition .postgresql (e.text (spellingOf .postgresql)))
      (t.columns.map (TableElement.column <| columnLine t ·))
      (columnDefinitions (readColumn t raw) (isInline t) readNotices t.columns) :=
    forall₂_map fun c hc =>
      givesDefinition_columnLine (h.columns c hc).named (hp.notLike c hc) (hp.defaults c hc)
        (hraw c hc).1 (hraw c hc).2
  exact List.rel_append hcolumns (givesDefinition_keyElements h)

/-- What is read from the statement for a table, up to its comments, if `f` says what is read from the
declarations of its columns. -/
def readTable (t : Table) (f : Column → Column) : Table :=
  { dialect := .postgresql
    name := t.name
    columns := t.columns.map f
    primaryKeys := t.distinctPrimaryKeys
    uniqueKeys := t.uniqueKeys.filter (· != t.distinctPrimaryKeys)
    warnings := (t.columns.flatMap fun c => (readNotices c).map Notice.message) ++
      if t.columns.isEmpty then [(Notice.noColumns t.name).message] else [] }

theorem nodup_names (hdistinct : ((t.columns.map (·.name)).map asciiLower).Nodup) :
    (t.columns.map (·.name)).Nodup :=
  hdistinct.of_map _

theorem tableOfDefinitions_convert (h : WellRead mysqlRules t)
    (hdistinct : ((t.columns.map (·.name)).map asciiLower).Nodup) {f : Column → Column}
    (hf : ∀ c, (f c).name = c.name) :
    tableOfDefinitions postgresRules t.name
        (columnDefinitions f (isInline t) readNotices t.columns ++
          keyDefinitions (remainingKeys t) (t.uniqueKeys.filter (· != t.distinctPrimaryKeys)) []) =
      readTable t f := by
  have hnames : t.columns.map (·.name) = (t.columns.map f).map (·.name) := by
    rw [List.map_map]
    exact List.map_congr_left fun c _ => (hf c).symm
  rw [tableOfDefinitions_columns]
  · rw [primaryKeys_read (nodup_names hdistinct) hf]
    rfl
  · intro name hname
    have hmem : name ∈ t.primaryKeys := by
      simpa [Table.distinctPrimaryKeys] using (List.mem_filter.1 hname).1
    exact (h.primary name hmem).congr hnames
  · intro names hmem name hname
    exact (h.unique names (List.mem_filter.1 hmem).1 name hname).congr hnames
  · simp

/-! ### Comments -/

/-- The comments of the columns, by name. -/
def columnEntries (t : Table) : List (String × String) :=
  t.columns.filterMap fun c => (t.commentFor c).map (c.name, ·)

theorem read_comments (t : Table) :
    (comments t).map CommentOn.read =
      (t.comment.map fun text => Comment.mk (.table t.name) (some text)).toList ++
        (columnEntries t).map fun e => Comment.mk (.column t.name e.1) (some e.2) := by
  unfold comments columnEntries
  rw [List.map_append, List.map_filterMap, List.map_filterMap]
  congr 1
  · cases t.comment <;> rfl
  · congr 1
    funext c
    cases t.commentFor c <;> rfl

theorem commentFor_spoken (t : Table) (c : Column) :
    (t.commentFor c).bind Table.spoken = t.commentFor c := by
  have hspoken : ∀ text, (Table.spoken text).bind Table.spoken = Table.spoken text := by
    intro text
    unfold Table.spoken
    split
    · rfl
    · rename_i h
      exact if_neg h
  unfold Table.commentFor
  rw [Option.bind_assoc]
  congr 1
  funext text
  exact hspoken text

/-- The comments are given to the table that is read. -/
theorem foldl_comments {t₀ : Table} (hname : t₀.name = t.name)
    (hcolumns : t₀.columns.map (·.name) = t.columns.map (·.name))
    (hdistinct : ((t.columns.map (·.name)).map asciiLower).Nodup)
    (hnone : t₀.columnComments = []) :
    ((comments t).map CommentOn.read).foldl (fun ts c => c.applyAmong ts)
        [{ t₀ with tableComment := "" }] =
      [{ t₀ with
          tableComment := t.tableComment
          columnComments := (columnEntries t).foldl (fun es e => putSorted e.1 e.2 es) [] }] := by
  have htarget : ∀ comment ∈ (comments t).map CommentOn.read,
      comment.target.tableName = t₀.name := by
    rw [read_comments, hname]
    intro comment hmem
    rcases List.mem_append.1 hmem with hmem | hmem
    · obtain ⟨text, -, rfl⟩ := Option.map_eq_some_iff.1 (Option.mem_toList.1 hmem)
      rfl
    · obtain ⟨e, -, rfl⟩ := List.mem_map.1 hmem
      rfl
  rw [foldl_applyAmong (t := { t₀ with tableComment := "" }) htarget, read_comments,
    List.foldl_append]
  have htable : ((t.comment.map fun text => Comment.mk (.table t.name) (some text)).toList).foldl
      (fun t c => c.applyTo t) { t₀ with tableComment := "" } =
      { t₀ with tableComment := t.tableComment } := by
    unfold Table.comment Table.spoken
    split
    · rename_i hempty
      rw [String.isEmpty_iff.1 hempty]
      rfl
    · rfl
  have hentries : ∀ e ∈ columnEntries t, e.1 ∈ t₀.columns.map (·.name) := by
    intro e he
    obtain ⟨c, hc, hsome⟩ := List.mem_filterMap.1 he
    obtain ⟨text, -, rfl⟩ := Option.map_eq_some_iff.1 hsome
    rw [hcolumns]
    exact List.mem_map_of_mem hc
  have hfold := foldl_applyTo_columns (t := { t₀ with tableComment := t.tableComment })
    (columnEntries t) (hcolumns ▸ hdistinct) hentries
  rw [htable, ← hname]
  exact congrArg ([·]) (by rw [hfold, hnone])

/-! ### What becomes of a table -/

/-- A column may be null where it could before: its primary key, its type or its own clause says so. -/
theorem isOptional_read {t' : Table} {c' : Column} {raw : Column → String}
    (h : SettledColumn mysqlRules c) (hkeys : t'.primaryKeys = t.distinctPrimaryKeys)
    (houtline : c'.outline = readColumn t raw c) : t'.isOptional c' = t.isOptional c := by
  have hname : c'.name = c.name := (congrArg Column.name houtline :)
  have hnull : c'.notNull = ((chosenType c).numbered || (c.notNull && !isInline t c)) :=
    (congrArg Column.notNull houtline :)
  have hprimary : t'.isPrimaryKey c'.name = t.isPrimaryKey c.name := by
    rw [Table.isPrimaryKey, Table.isPrimaryKey, hkeys, hname, Table.distinctPrimaryKeys,
      Bool.eq_iff_iff]
    simp
  have hnumbered : (chosenType c).numbered = true → c.notNull = true :=
    fun hn => h.required (autoIncrement_of_numbered hn)
  unfold Table.isOptional
  rw [hprimary, hnull]
  cases hkey : t.isPrimaryKey c.name with
  | true => simp
  | false =>
      have hinline : isInline t c = false := by
        cases hin : isInline t c with
        | false => rfl
        | true =>
            obtain ⟨hall, -⟩ := inlineKey_eq_some (by simpa [isInline] using hin)
            have hmem : c.name ∈ t.primaryKeys := by
              have : c.name ∈ t.distinctPrimaryKeys := by simp [hall]
              simpa [Table.distinctPrimaryKeys] using this
            simp [Table.isPrimaryKey, hmem] at hkey
      rw [hinline]
      cases hn : (chosenType c).numbered with
      | false => simp
      | true => simp [hnumbered hn]

theorem flatMap_readNotices (columns : List Column) :
    (columns.flatMap fun c => (readNotices c).map Notice.message) =
      (columns.filter hasMembers).map fun c => (Notice.dropped c.name .check).message := by
  induction columns with
  | nil => rfl
  | cons c columns ih =>
      rw [List.flatMap_cons, ih, List.filter_cons, readNotices]
      split <;> rfl

/-- A table with the outline that is read from the statement, and with the comments that are given
to it, is what becomes of the table. -/
theorem kept_of_outline (h : WellRead mysqlRules t) (hp : Portable t) {raw : Column → String}
    (hraw : ∀ c ∈ t.columns, isPostgresType (chosenType c).numbered (raw c)) {t₀ : Table}
    (houtline : t₀.outline = readTable t (readColumn t raw)) :
    Kept t { t₀ with
      tableComment := t.tableComment
      columnComments := (columnEntries t).foldl (fun es e => putSorted e.1 e.2 es) [] } := by
  have hname : t₀.name = t.name := (congrArg Table.name houtline :)
  have hcolumns : t.columns.map (readColumn t raw) = t₀.columns.map Column.outline :=
    (congrArg Table.columns houtline :).symm
  have hprimary : t₀.primaryKeys = t.distinctPrimaryKeys := (congrArg Table.primaryKeys houtline :)
  have hunique : t₀.uniqueKeys = t.uniqueKeys.filter (· != t.distinctPrimaryKeys) :=
    (congrArg Table.uniqueKeys houtline :)
  have hwarnings : t₀.warnings = (t.columns.flatMap fun c => (readNotices c).map Notice.message) ++
      if t.columns.isEmpty then [(Notice.noColumns t.name).message] else [] :=
    (congrArg Table.warnings houtline :)
  refine ⟨hname, ?_, rfl, hprimary, hunique, ?_⟩
  · have hall := (List.forall₂_and_left _ _).2 ⟨fun c hc => hc, forall₂_of_map_eq hcolumns⟩
    refine hall.imp fun c c' ⟨hc, he⟩ => ?_
    have hcname : c'.name = c.name := (congrArg Column.name he.symm :)
    have hnone : c'.comment = none := (congrArg Column.comment he.symm :)
    have htype : c'.rawType = raw c := (congrArg Column.rawType he.symm :)
    have hknown := hraw c hc
    simp only [isPostgresType, Bool.and_eq_true] at hknown
    refine ⟨hcname, htype ▸ hknown.1, isOptional_read (h.columns c hc) hprimary he.symm, ?_⟩
    have hnodup : ((columnEntries t).map (·.1)).Nodup :=
      (nodup_names hp.distinct).sublist (sublist_names _ _)
    have hlookup := lookup_filterMap (fun c => t.commentFor c) (nodup_names hp.distinct) hc
    show (c'.comment <|> List.lookup c'.name _).bind Table.spoken = _
    rw [hnone, hcname, lookup_foldl_putSorted hnodup, columnEntries, hlookup]
    rw [List.lookup_nil, Option.or_none]
    exact commentFor_spoken t c
  · show t₀.warnings = _
    rw [hwarnings, flatMap_readNotices]
    cases t.columns <;> rfl

end Schemata.Ddl.Postgres

namespace Schemata.Ddl

open Schemata.Sql Schemata.SqlType Postgres

/-- **Tables of MySQL are kept in PostgreSQL**: what is written is read as one table of the same name
with the same columns, comments and keys. -/
theorem parseAll_mysqlToPg {script : String} {tables : List Table}
    (hread : parseAll .mysql script = .ok tables) {t : Table} (ht : t ∈ tables)
    (hp : Postgres.Portable t) {options : Options} (hcomments : options.commentStatements) :
    ∃ t', parseAll .postgresql (convert .mysqlToPg options t).sql = .ok [t'] ∧
      Postgres.Kept t t' := by
  have h : WellRead mysqlRules t := wellRead_of_parseAll hread t ht
  have htypes : ∀ c ∈ t.columns, ∃ raw, GivesType .postgresql (chosenType c).text raw ∧
      isPostgresType (chosenType c).numbered raw := by
    intro c hc
    exact postgres_givesType (isKnown_of_lookup (hp.known c hc)) (hp.params c hc) fun u hu hauto =>
      autoIncrement_of_counterpart (h.columns c hc) (hp.known c hc) hu hauto
  choose! raw hraw using htypes
  obtain ⟨t₀, houtline, hparse⟩ := parseAll_conversion (d := .postgresql)
    (c := Postgres.convert options t) h.named (.inl rfl) (givesDefinition_elements h hp hraw)
  have htable := houtline.trans (tableOfDefinitions_convert h hp.distinct fun _ => rfl)
  have hnames : t₀.columns.map (·.name) = t.columns.map (·.name) := by
    have := congrArg (List.map (·.name)) (congrArg Table.columns htable)
    simpa [Table.outline, readTable, readColumn, Column.outline, Function.comp_def] using this
  have hname : t₀.name = t.name := (congrArg Table.name htable :)
  have hnone : t₀.columnComments = [] := (congrArg Table.columnComments htable :)
  have hfold := foldl_comments hname hnames hp.distinct hnone
  have hgiven : (Postgres.convert options t).comments = Postgres.comments t := if_pos hcomments
  refine ⟨_, hparse.trans ?_, kept_of_outline h hp (fun c hc => (hraw c hc).2) htable⟩
  rw [hgiven]
  exact congrArg Except.ok hfold

/-- A script with a numbered column, an enumeration with a quote in it, comments and keys. -/
def orderScript : String :=
  "CREATE TABLE orders (id INT UNSIGNED AUTO_INCREMENT PRIMARY KEY COMMENT 'number', " ++
    "state ENUM('new','it''s done') NOT NULL DEFAULT 'new', UNIQUE KEY (state)) COMMENT='all'"

/-- The table of this script. -/
def orders : Table :=
  { dialect := .mysql
    name := "orders"
    columns :=
      [{ name := "id", rawType := "int", notNull := true, unsigned := true, autoIncrement := true
         comment := some "number" },
        { name := "state", rawType := "enum", notNull := true, members := ["new", "it's done"]
          defaultValue := some "'new'" }]
    primaryKeys := ["id"]
    uniqueKeys := [["state"]]
    tableComment := "all" }

theorem portable_orders : Postgres.Portable orders := by
  have htext : DefaultValue.ofText .mysql "'new'" = .string "new" := by decide +kernel
  refine ⟨by decide +kernel, ?_, ?_, by decide, by decide⟩
  · intro c hc henum
    rcases List.mem_cons.1 hc with rfl | hc
    · exact fun _ => ⟨by simp, by simp⟩
    · obtain rfl := List.mem_singleton.1 hc
      exact absurd rfl henum
  · intro c hc text hd
    rcases List.mem_cons.1 hc with rfl | hc
    · simp at hd
    · obtain rfl := List.mem_singleton.1 hc
      obtain rfl := Option.some.inj hd
      simp [htext]

/-- The orders are kept. -/
theorem orders_mysqlToPg :
    ∃ t', parseAll .postgresql (convert .mysqlToPg {} orders).sql = .ok [t'] ∧
      Postgres.Kept orders t' := by
  have hread : parseAll .mysql orderScript = .ok [orders] := by decide +kernel
  exact parseAll_mysqlToPg hread (by simp) portable_orders rfl

end Schemata.Ddl
