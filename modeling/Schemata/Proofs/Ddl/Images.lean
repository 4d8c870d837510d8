import Schemata.Proofs.Ddl.Conversions
import Schemata.Proofs.Ddl.MysqlTables
import Schemata.Proofs.Ddl.PostgresTables
import Schemata.Proofs.Ddl.Statements

/-! # What conversions are read as

A table whose types are known and whose defaults are readable is converted to a text that is read as
exactly one table, its image in the other dialect (`Mysql.parseAll_convert`,
`Postgres.parseAll_convert`). -/

namespace Schemata.Ddl

open Schemata.Sql Schemata.SqlType Schemata.Text

variable {t : Table} {c : Column} {parts : TypeParts}

/-- The type that a text is read as, with no name if it is none. -/
def readType (d : Dialect) (text : String) : TypeParts := (typeParts? d text).getD { raw := "" }

theorem readType_eq {d : Dialect} {text : String} (h : typeParts? d text = some parts) :
    readType d text = parts := by
  rw [readType, h, Option.getD_some]

/-- A table whose types are known, with numbers for parameters, and whose defaults are readable. -/
structure Convertible (d : Dialect) (t : Table) : Prop where
  known : ∀ c ∈ t.columns, isKnown d c.rawType
  params : ∀ c ∈ t.columns, DigitParams c
  filled : ∀ c ∈ t.columns, FilledParams c
  values : ∀ c ∈ t.columns, ∀ value ∈ valueOf d c, IsReadable value

/-! ### Images in MySQL -/

namespace Mysql

/-- The column that the declaration of a column is read as. -/
def image (t : Table) (c : Column) : Column :=
  let type := chosenType c
  let parts := readType .mysql type.text
  { name := c.name
    rawType := parts.raw
    length := parts.length
    precision := parts.precision
    notNull := c.notNull || type.numbered
    autoIncrement := type.numbered
    defaultValue := writtenDefault (default? c type)
    comment := t.commentFor c }

theorem name_image (t : Table) (c : Column) : (image t c).name = c.name := by
  simp only [image]

/-- The table that a table is read as. -/
def imageTable (t : Table) : Table :=
  { readTable t (image t) with tableComment := t.tableComment }

/-- The attributes that a declaration is read as, one after the other. -/
theorem map_attribute_columnLine (t : Table) (c : Column) :
    (columnLine t c).clauses.map ColumnClause.attribute =
      (if c.notNull || (chosenType c).numbered then [.notNull] else []) ++
        (if (chosenType c).numbered then [.autoIncrement] else []) ++
        ((writtenDefault (default? c (chosenType c))).map Attribute.defaultTo).toList ++
        ((t.commentFor c).map Attribute.comment).toList := by
  simp only [columnLine, defaultClauses_eq, List.map_append, apply_ite (List.map _), List.map_cons,
    List.map_nil, ColumnClause.attribute]
  cases writtenDefault (default? c (chosenType c)) <;> cases t.commentFor c <;> rfl

theorem foldl_add_image (required numbered : Bool) (default comment : Option String)
    (parts : TypeParts) (name : String) :
    ((if required || numbered then [Attribute.notNull] else []) ++
        (if numbered then [Attribute.autoIncrement] else []) ++
        (default.map Attribute.defaultTo).toList ++
        (comment.map Attribute.comment).toList).foldl Declaration.add
          { column := parts.column name } =
      { column :=
          { name, rawType := parts.raw, length := parts.length, precision := parts.precision
            notNull := required || numbered
            autoIncrement := numbered
            defaultValue := default
            comment } } := by
  cases required <;> cases numbered <;> cases default <;> cases comment <;> rfl

/-- A declaration is read as the image of its column. -/
theorem reading_columnLine (t : Table) (hparts : typeParts? .mysql (chosenType c).text = some parts)
    (hraw : isMysqlType parts.raw) :
    (columnLine t c).reading mysqlRules parts = .column (image t c) false false [] := by
  obtain ⟨hlookup, hnot⟩ : (mysqlTypes.lookup parts.raw).isSome = true ∧
      mysqlRules.isNumbered parts.raw = false := by
    simpa [isMysqlType] using hraw
  have hrawType : (image t c).rawType = parts.raw := by
    simp only [image, readType_eq hparts]
  have hsaid : ((columnLine t c).clauses.map ColumnClause.attribute).foldl Declaration.add
      { column := parts.column c.name } = { column := image t c } := by
    rw [map_attribute_columnLine, foldl_add_image]
    simp only [image, readType_eq hparts]
  have hsettle : Declaration.settle mysqlRules (image t c) = image t c := by
    unfold Declaration.settle
    rw [hrawType, hnot, Bool.or_false]
    split
    · rename_i hn
      have hn' : (chosenType c).numbered = true := hn
      simp [image, Column.numbered, hn']
    · rfl
  have hknown : isKnown .mysql (image t c).rawType := hrawType ▸ isKnown_of_lookup hlookup
  have hname : (columnLine t c).name = c.name := rfl
  rw [ColumnLine.reading, hname, hsaid]
  exact columnOf_known hsettle hknown

/-- The value of the default of the image of a column. -/
def imageValue (c : Column) : Option DefaultValue :=
  if (chosenType c).numbered then none
  else (valueOf .postgresql c).map (valueIn c (chosenType c))

theorem isReadable_imageValue (h : ∀ value ∈ valueOf .postgresql c, IsReadable value) :
    ∀ value ∈ imageValue c, IsReadable value := by
  intro value hvalue
  unfold imageValue at hvalue
  split at hvalue
  · cases hvalue
  · obtain ⟨source, hsource, rfl⟩ := Option.map_eq_some_iff.1 hvalue
    exact isReadable_valueIn c (chosenType c) (h source hsource)

/-- The text of a default is that of its value. -/
theorem writtenDefault_eq (h : ∀ value ∈ valueOf .postgresql c, IsReadable value) :
    writtenDefault (default? c (chosenType c)) = (imageValue c).map (valueText .mysql) := by
  unfold default? imageValue
  unfold valueOf at h ⊢
  split
  · rfl
  · cases hd : c.defaultValue with
    | none => rfl
    | some source =>
        rw [hd, Option.map_some] at h
        have hfunction : ∀ f, DefaultValue.ofText .postgresql source ≠ .function f := by
          intro f he
          cases he ▸ h _ (Option.mem_some_self _)
        rw [Option.map_some, defaultText_eq c (chosenType c) hfunction]
        rfl

/-- **The default of the image** denotes what becomes of the value. -/
theorem valueOf_image (t : Table) (h : ∀ value ∈ valueOf .postgresql c, IsReadable value) :
    valueOf .mysql (image t c) = imageValue c := by
  have hdefault : (image t c).defaultValue = (imageValue c).map (valueText .mysql) := by
    simp only [image, writtenDefault_eq h]
  rw [valueOf, hdefault, Option.map_map]
  cases hv : imageValue c with
  | none => rfl
  | some value =>
      rw [Option.map_some, Function.comp_apply,
        ofText_valueText .mysql (isReadable_imageValue h value hv)]

theorem writesClause_columnLine (h : ∀ value ∈ valueOf .postgresql c, IsReadable value) :
    ∀ clause ∈ (columnLine t c).clauses, WritesClause .mysql clause := by
  intro clause hclause text htext
  have hwritten : writtenDefault (default? c (chosenType c)) = some text := by
    rw [(mem_clauses hclause).2 text htext]
    rfl
  rw [writtenDefault_eq h] at hwritten
  obtain ⟨value, hvalue, rfl⟩ := Option.map_eq_some_iff.1 hwritten
  exact writesValue_valueText .mysql (isReadable_imageValue h value hvalue)

/-- **The declaration of a column is read** as its image. -/
theorem readsAs_columnLine (t : Table) (hname : c.name ≠ "") (hknown : isKnown .postgresql c.rawType)
    (hc : DigitParams c) (hfilled : FilledParams c)
    (hvalue : ∀ value ∈ valueOf .postgresql c, IsReadable value) :
    ReadsAs .mysql ((TableElement.column (columnLine t c)).text (spellingOf .mysql))
      (.column (image t c) false false []) := by
  obtain ⟨parts, hparts, hraw⟩ := mysql_typeParts hknown hc hfilled
  rw [← reading_columnLine t hparts hraw]
  exact readsAs_column (d := .mysql) hname (.inl rfl) hparts (writesClause_columnLine hvalue)
    fun clause hclause => (mem_clauses hclause).1

/-- **A table of PostgreSQL is read in MySQL as its image.** -/
theorem parseAll_convert (h : WellRead postgresRules t) (hc : Convertible .postgresql t)
    (options : Options) :
    parseAll .mysql (Ddl.convert .pgToMysql options t).sql = .ok [imageTable t] := by
  have hcolumns : List.Forall₂
      (fun e : TableElement => ReadsAs .mysql (e.text (spellingOf .mysql)))
      (t.columns.map (TableElement.column <| columnLine t ·))
      (columnDefinitions (image t) (fun _ => false) (fun _ => []) t.columns) :=
    forall₂_map fun c hmem => readsAs_columnLine t (h.columns c hmem).named (hc.known c hmem)
      (hc.params c hmem) (hc.filled c hmem) (hc.values c hmem)
  have hparse := parseAll_readsAs (d := .mysql) (c := Mysql.convert options t) h.named (.inr rfl)
    (List.rel_append hcolumns (readsAs_keys (givesDefinition_keyElements h)))
  have htable : tableOfDefinitions mysqlRules t.name _ = readTable t (image t) :=
    tableOfDefinitions_convert h (name_image t)
  have hsql : (Ddl.convert .pgToMysql options t).sql =
      (Mysql.convert options t).text (spellingOf .mysql) := rfl
  rw [hsql, hparse]
  change Except.ok [{ tableOfDefinitions mysqlRules t.name (columnDefinitions (image t) _ _ _ ++ _) with
    tableComment := t.comment.getD "" }] = _
  rw [htable, Table.comment, getD_spoken]
  rfl

end Mysql

/-! ### Images in PostgreSQL -/

namespace Postgres

/-- The column that the declaration of a column is read as. -/
def image (t : Table) (c : Column) : Column :=
  let type := chosenType c
  let parts := readType .postgresql type.text
  Declaration.settle postgresRules
    { name := c.name
      rawType := parts.raw
      length := parts.length
      precision := parts.precision
      notNull := c.notNull && !type.numbered && !isInline t c
      defaultValue := writtenDefault (default? c type) }

theorem name_image (t : Table) (c : Column) : (image t c).name = c.name := by
  simp only [image, Declaration.settle]
  split <;> rfl

/-- The table that a table is read as. -/
def imageTable (options : Options) (t : Table) : Table :=
  if options.commentStatements then
    { readTable t (image t) with
      tableComment := t.tableComment
      columnComments := (columnEntries t).foldl (fun es e => putSorted e.1 e.2 es) [] }
  else readTable t (image t)

/-- The attributes that a declaration is read as, one after the other. -/
theorem map_attribute_columnLine (t : Table) (c : Column) :
    (columnLine t c).clauses.map ColumnClause.attribute =
      (if isInline t c then [.primaryKey]
        else if c.notNull && !(chosenType c).numbered then [.notNull] else []) ++
        ((writtenDefault (default? c (chosenType c))).map Attribute.defaultTo).toList ++
        (if hasMembers c then [.dropped .check] else []) := by
  have hkey : (keyClauses t c (chosenType c)).map ColumnClause.attribute =
      if isInline t c then [.primaryKey]
      else if c.notNull && !(chosenType c).numbered then [.notNull] else [] := by
    unfold keyClauses isInline
    by_cases hin : inlineKey t = some c.name
    · simp [hin, ColumnClause.attribute]
    · simp only [hin, if_false, beq_iff_eq]
      split <;> rfl
  have hmembers : (memberClauses c).map ColumnClause.attribute =
      if hasMembers c then [.dropped .check] else [] := by
    unfold memberClauses hasMembers
    split <;> rfl
  simp only [columnLine, defaultClauses_eq, List.map_append, hkey, hmembers]
  cases writtenDefault (default? c (chosenType c)) <;> rfl

theorem foldl_add_image (key required check : Bool) (default : Option String) (parts : TypeParts)
    (name : String) :
    ((if key then [Attribute.primaryKey] else if required then [.notNull] else []) ++
        (default.map Attribute.defaultTo).toList ++
        (if check then [Attribute.dropped .check] else [])).foldl Declaration.add
          { column := parts.column name } =
      { column :=
          { name, rawType := parts.raw, length := parts.length, precision := parts.precision
            notNull := required && !key
            defaultValue := default }
        primary := key
        notices := if check then [.dropped name .check] else [] } := by
  cases key <;> cases required <;> cases check <;> cases default <;> rfl

/-- A declaration is read as the image of its column. -/
theorem reading_columnLine (t : Table)
    (hparts : typeParts? .postgresql (chosenType c).text = some parts)
    (hknown : isKnown .postgresql parts.raw) :
    (columnLine t c).reading postgresRules parts =
      .column (image t c) (isInline t c) false (readNotices c) := by
  have hrawType : (image t c).rawType = parts.raw := by
    simp only [image, readType_eq hparts, Declaration.settle]
    split <;> rfl
  have hname : (columnLine t c).name = c.name := rfl
  rw [ColumnLine.reading, hname, map_attribute_columnLine, foldl_add_image]
  apply columnOf_known
  · simp only [image, readType_eq hparts]
  · exact hrawType ▸ hknown

/-- The value of the default of the image of a column. -/
def imageValue (c : Column) : Option DefaultValue :=
  if (chosenType c).numbered then none
  else (valueOf .mysql c).bind fun value =>
    if (droppedDate? c value).isSome then none else some (valueIn (chosenType c) value)

theorem isReadable_imageValue (h : ∀ value ∈ valueOf .mysql c, IsReadable value) :
    ∀ value ∈ imageValue c, IsReadable value := by
  intro value hvalue
  unfold imageValue at hvalue
  split at hvalue
  · cases hvalue
  · obtain ⟨source, hsource, hkept⟩ := Option.bind_eq_some_iff.1 hvalue
    split at hkept
    · cases hkept
    · obtain rfl := Option.some.inj hkept
      exact isReadable_valueIn (chosenType c) (h source hsource)

/-- The text of a default is that of its value. -/
theorem writtenDefault_eq (c : Column) :
    writtenDefault (default? c (chosenType c)) = (imageValue c).map (valueText .postgresql) := by
  unfold default? imageValue valueOf
  split
  · rfl
  · cases hd : c.defaultValue with
    | none => rfl
    | some source =>
        rw [Option.map_some, defaultText_eq, Option.map_some, Option.bind_some]
        cases droppedDate? c (.ofText .mysql source) <;> rfl

theorem defaultValue_image (t : Table) (c : Column) :
    (image t c).defaultValue = (imageValue c).map (valueText .postgresql) := by
  simp only [image, writtenDefault_eq, Declaration.settle]
  split <;> rfl

/-- **The default of the image** denotes what becomes of the value. -/
theorem valueOf_image (t : Table) (h : ∀ value ∈ valueOf .mysql c, IsReadable value) :
    valueOf .postgresql (image t c) = imageValue c := by
  rw [valueOf, defaultValue_image, Option.map_map]
  cases hv : imageValue c with
  | none => rfl
  | some value =>
      rw [Option.map_some, Function.comp_apply,
        ofText_valueText .postgresql (isReadable_imageValue h value hv)]

theorem writesClause_columnLine (h : ∀ value ∈ valueOf .mysql c, IsReadable value) :
    ∀ clause ∈ (columnLine t c).clauses, WritesClause .postgresql clause := by
  intro clause hclause text htext
  have hwritten : writtenDefault (default? c (chosenType c)) = some text := by
    rw [(mem_clauses hclause).2 text htext]
    rfl
  rw [writtenDefault_eq] at hwritten
  obtain ⟨value, hvalue, rfl⟩ := Option.map_eq_some_iff.1 hwritten
  exact writesValue_valueText .postgresql (isReadable_imageValue h value hvalue)

/-- **The declaration of a column is read** as its image. -/
theorem readsAs_columnLine (t : Table) (hname : c.name ≠ "") (hlike : c.name ≠ "like")
    (hknown : isKnown .mysql c.rawType) (hc : DigitParams c) (hfilled : FilledParams c)
    (hvalue : ∀ value ∈ valueOf .mysql c, IsReadable value) :
    ReadsAs .postgresql ((TableElement.column (columnLine t c)).text (spellingOf .postgresql))
      (.column (image t c) (isInline t c) false (readNotices c)) := by
  obtain ⟨parts, numbered, hparts, hraw, -⟩ := postgres_typeParts hknown hc hfilled
  have hread : isKnown .postgresql parts.raw := by
    rw [isPostgresType, Bool.and_eq_true] at hraw
    exact hraw.1
  rw [← reading_columnLine t hparts hread]
  exact readsAs_column (d := .postgresql) hname (.inr hlike) hparts (writesClause_columnLine hvalue)
    fun clause hclause => (mem_clauses hclause).1

/-- **A table of MySQL is read in PostgreSQL as its image.** -/
theorem parseAll_convert (h : WellRead mysqlRules t) (hc : Convertible .mysql t)
    (hdistinct : ((t.columns.map (·.name)).map asciiLower).Nodup)
    (hlike : ∀ c ∈ t.columns, c.name ≠ "like") (options : Options) :
    parseAll .postgresql (Ddl.convert .mysqlToPg options t).sql = .ok [imageTable options t] := by
  have hcolumns : List.Forall₂
      (fun e : TableElement => ReadsAs .postgresql (e.text (spellingOf .postgresql)))
      (t.columns.map (TableElement.column <| columnLine t ·))
      (columnDefinitions (image t) (isInline t) readNotices t.columns) :=
    forall₂_map fun c hmem => readsAs_columnLine t (h.columns c hmem).named (hlike c hmem)
      (hc.known c hmem) (hc.params c hmem) (hc.filled c hmem) (hc.values c hmem)
  have hparse := parseAll_readsAs (d := .postgresql) (c := Postgres.convert options t) h.named (.inl rfl)
    (List.rel_append hcolumns (readsAs_keys (givesDefinition_keyElements h)))
  have htable : tableOfDefinitions postgresRules t.name _ = readTable t (image t) :=
    tableOfDefinitions_convert h hdistinct (name_image t)
  have hsql : (Ddl.convert .mysqlToPg options t).sql =
      (Postgres.convert options t).text (spellingOf .postgresql) := rfl
  rw [hsql, hparse]
  change Except.ok (List.foldl _ [{ tableOfDefinitions postgresRules t.name
    (columnDefinitions (image t) _ _ _ ++ _) with tableComment := "" }]
      ((if options.commentStatements then comments t else []).map CommentOn.read)) = _
  rw [htable]
  unfold imageTable
  split
  · have hnames : (readTable t (image t)).columns.map (·.name) = t.columns.map (·.name) := by
      show (t.columns.map (image t)).map (·.name) = _
      rw [List.map_map]
      exact List.map_congr_left fun c _ => name_image t c
    have hname : (readTable t (image t)).name = t.name := rfl
    rw [foldl_comments hname hnames hdistinct rfl]
  · rfl

end Postgres

end Schemata.Ddl
