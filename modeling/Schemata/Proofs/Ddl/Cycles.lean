import Schemata.Proofs.Ddl.SettledTypes

/-! # Cycles

A table of PostgreSQL that is converted to MySQL and back (`cycle?`) changes once: what comes back is
given back as it is by every further cycle (`cycle?_cycle?`).  Types, keys and values settle on the
way there (`Settled`), and a table of MySQL that is settled is converted to the same table of
PostgreSQL before and after a cycle (`Settled.imageTable_back`). -/

namespace Schemata.Ddl

open Schemata.Sql Schemata.SqlType Schemata.Text

variable {t m : Table} {c : Column} {options : Options}

/-! ### Images can be converted -/

/-- A column of a type that is read as it is written. -/
theorem convertible_of_parts {d : Dialect} {text : String} {parts : TypeParts}
    (h : typeParts? d text = some parts) (hraw : isKnown d parts.raw)
    (hc : c.rawType = parts.raw ∧ c.length = parts.length ∧ c.precision = parts.precision) :
    isKnown d c.rawType ∧ DigitParams c ∧ FilledParams c := by
  obtain ⟨htype, hlength, hprecision⟩ := hc
  exact ⟨htype ▸ hraw, digitParams_of_typeParts? h hlength hprecision⟩

/-- A table is convertible if its columns are. -/
theorem convertible_of_map {d : Dialect} {f : Column → Column} (hcolumns : m.columns = t.columns.map f)
    (htypes : ∀ c ∈ t.columns,
      isKnown d (f c).rawType ∧ DigitParams (f c) ∧ FilledParams (f c))
    (hvalues : ∀ c ∈ t.columns, ∀ value ∈ valueOf d (f c), IsReadable value) : Convertible d m := by
  have every : ∀ {P : Column → Prop}, (∀ c ∈ t.columns, P (f c)) → ∀ c ∈ m.columns, P c := by
    rw [hcolumns]
    exact fun h => List.forall_mem_map.2 h
  exact ⟨every fun c hc => (htypes c hc).1, every fun c hc => (htypes c hc).2.1,
    every fun c hc => (htypes c hc).2.2, every hvalues⟩

namespace Mysql

theorem names_imageTable (t : Table) :
    (imageTable t).columns.map (·.name) = t.columns.map (·.name) := by
  show (t.columns.map (image t)).map (·.name) = _
  rw [List.map_map]
  exact List.map_congr_left fun c _ => name_image t c

theorem wellRead_imageTable (h : WellRead postgresRules t) (hc : Convertible .postgresql t) :
    WellRead mysqlRules (imageTable t) :=
  wellRead_of_parseAll (parseAll_convert h hc {}) _ (List.mem_singleton_self _)

/-- What is read in MySQL can be converted. -/
theorem convertible_imageTable (hc : Convertible .postgresql t) : Convertible .mysql (imageTable t) := by
  refine convertible_of_map (t := t) (f := image t) rfl (fun c hmem => ?_) fun c hmem => ?_
  · obtain ⟨parts, hparts, hraw⟩ := mysql_typeParts (hc.known c hmem) (hc.params c hmem)
      (hc.filled c hmem)
    simp only [isMysqlType, Bool.and_eq_true] at hraw
    refine convertible_of_parts hparts (isKnown_of_lookup hraw.1) ?_
    simp only [image, readType_eq hparts, and_self]
  · rw [valueOf_image t (hc.values c hmem)]
    exact isReadable_imageValue (hc.values c hmem)

end Mysql

namespace Postgres

theorem columns_imageTable (options : Options) (t : Table) :
    (imageTable options t).columns = t.columns.map (image t) := by
  unfold imageTable
  split <;> rfl

theorem names_imageTable (options : Options) (t : Table) :
    (imageTable options t).columns.map (·.name) = t.columns.map (·.name) := by
  rw [columns_imageTable, List.map_map]
  exact List.map_congr_left fun c _ => name_image t c

theorem wellRead_imageTable (h : WellRead mysqlRules t) (hc : Convertible .mysql t)
    (hdistinct : ((t.columns.map (·.name)).map asciiLower).Nodup)
    (hlike : ∀ c ∈ t.columns, c.name ≠ "like") : WellRead postgresRules (imageTable options t) :=
  wellRead_of_parseAll (parseAll_convert h hc hdistinct hlike options) _ (List.mem_singleton_self _)

/-- What is read in PostgreSQL can be converted. -/
theorem convertible_imageTable (hc : Convertible .mysql t) :
    Convertible .postgresql (imageTable options t) := by
  refine convertible_of_map (columns_imageTable options t) (fun c hmem => ?_) fun c hmem => ?_
  · obtain ⟨parts, numbered, hparts, hraw, -⟩ := postgres_typeParts (hc.known c hmem)
      (hc.params c hmem) (hc.filled c hmem)
    simp only [isPostgresType, Bool.and_eq_true] at hraw
    refine convertible_of_parts hparts hraw.1 ?_
    simp only [image, readType_eq hparts, Declaration.settle]
    split <;> exact ⟨rfl, rfl, rfl⟩
  · rw [valueOf_image t (hc.values c hmem)]
    exact isReadable_imageValue (hc.values c hmem)

end Postgres

/-! ### Settled columns -/

/-- A column of MySQL that a conversion to PostgreSQL and back does not change any more, as far as
PostgreSQL is concerned. -/
structure SettledType (m : Column) : Prop where
  settled : isSettled (typeOnly m)
  unsigned : m.unsigned = false
  members : m.members = []
  numbered : postgresRules.isNumbered (readType .postgresql (Postgres.chosenType m).text).raw =
    (Postgres.chosenType m).numbered
  readable : ∀ value ∈ valueOf .mysql m, IsReadable value
  plain : ∀ value ∈ valueOf .mysql m, (∀ b, value ≠ .bool b) ∧ value ≠ .currentDate

theorem isTemporal_typeOnly (h : c.unsigned = false) : isTemporal (typeOnly c) = isTemporal c := by
  rw [isTemporal_eq h, isTemporal_eq rfl]
  rfl

namespace Mysql

theorem autoIncrement_image (t : Table) (c : Column) :
    (image t c).autoIncrement = (chosenType c).numbered := by
  simp only [image]

theorem typeOnly_image (t : Table) (c : Column) :
    typeOnly (image t c) = readChosen .mysql (chosenType c) := by
  simp only [typeOnly, image, readChosen, TypeParts.column]

end Mysql

namespace Postgres

variable {col : Column}

/-- What is read from the declaration of a column whose type is numbered as it is to be. -/
theorem image_eq (t : Table)
    (h : postgresRules.isNumbered (readType .postgresql (chosenType col).text).raw =
      (chosenType col).numbered) :
    image t col =
      { readChosen .postgresql (chosenType col) with
        name := col.name
        notNull := (chosenType col).numbered || (col.notNull && !isInline t col)
        defaultValue := (imageValue col).map (valueText .postgresql) } := by
  simp only [image, Declaration.settle, h, Bool.false_or, writtenDefault_eq, readChosen,
    TypeParts.column]
  cases hn : (chosenType col).numbered with
  | false => simp
  | true => simp [Column.numbered]

theorem typeOnly_image (t : Table)
    (h : postgresRules.isNumbered (readType .postgresql (chosenType col).text).raw =
      (chosenType col).numbered) :
    typeOnly (image t col) = readChosen .postgresql (chosenType col) := by
  rw [image_eq t h]
  simp only [typeOnly, readChosen, TypeParts.column]

end Postgres

/-! ### Columns come back -/

section Columns

variable {col : Column}

/-- The type of a settled column comes back. -/
theorem SettledType.chosenType_back (h : SettledType col) (t t' : Table) :
    Postgres.chosenType (Mysql.image t' (Postgres.image t col)) = Postgres.chosenType col ∧
      (Mysql.chosenType (Postgres.image t col)).boolean = (Postgres.chosenType col).boolean ∧
      (Mysql.chosenType (Postgres.image t col)).numbered = (Postgres.chosenType col).numbered ∧
      (isTemporal (Mysql.image t' (Postgres.image t col)) → isTemporal col) := by
  have hthere : Mysql.chosenType (Postgres.image t col) =
      Mysql.chosenType (readChosen .postgresql (Postgres.chosenType col)) := by
    rw [← chosenType_typeOnly_mysql, Postgres.typeOnly_image t h.numbered]
  have hback : Postgres.chosenType (Mysql.image t' (Postgres.image t col)) = Postgres.chosenType
      (readChosen .mysql (Mysql.chosenType (readChosen .postgresql (Postgres.chosenType col)))) := by
    rw [← chosenType_typeOnly_postgres rfl rfl, Mysql.typeOnly_image, hthere]
  have htemporal : isTemporal (Mysql.image t' (Postgres.image t col)) = isTemporal
      (readChosen .mysql (Mysql.chosenType (readChosen .postgresql (Postgres.chosenType col)))) := by
    rw [← isTemporal_typeOnly rfl, Mysql.typeOnly_image, hthere]
  have hsettled := h.settled
  rw [isSettled, chosenType_typeOnly_postgres h.unsigned h.members, isTemporal_typeOnly h.unsigned,
    comesBack] at hsettled
  simp only [Bool.and_eq_true, decide_eq_true_eq, Bool.or_eq_true, Bool.not_eq_true'] at hsettled
  obtain ⟨⟨⟨htype, hboolean⟩, hnumbered⟩, hkept⟩ := hsettled
  rw [hback, htemporal, hthere]
  refine ⟨htype, hboolean, hnumbered, fun hback => ?_⟩
  rcases hkept with hkept | hkept
  · rw [hback] at hkept
    cases hkept
  · exact hkept

/-- A default comes back with the type of its column: it is dropped or changed at once. -/
theorem imageValue_back {c back : Column}
    (hplain : ∀ value ∈ valueOf .mysql col, (∀ b, value ≠ .bool b) ∧ value ≠ .currentDate)
    (hc : valueOf .postgresql c = Postgres.imageValue col)
    (hback : valueOf .mysql back = Mysql.imageValue c)
    (htype : Postgres.chosenType back = Postgres.chosenType col)
    (hboolean : (Mysql.chosenType c).boolean = (Postgres.chosenType col).boolean)
    (hnumbered : (Mysql.chosenType c).numbered = (Postgres.chosenType col).numbered)
    (htemporal : isTemporal back → isTemporal col) :
    Postgres.imageValue back = Postgres.imageValue col := by
  generalize hu : Mysql.chosenType c = u at hboolean hnumbered
  rw [Postgres.imageValue, htype, hback, Mysql.imageValue, hu, hnumbered, hc]
  unfold Postgres.imageValue
  generalize Postgres.chosenType col = t at hboolean
  cases t.numbered with
  | true => rfl
  | false =>
      simp only [Bool.false_eq_true, if_false]
      cases hsource : valueOf .mysql col with
      | none => rfl
      | some value =>
          obtain ⟨hbool, hdate⟩ := hplain value hsource
          rw [Option.bind_some]
          cases hdrop : droppedDate? col value with
          | some s => rfl
          | none =>
              have hstays : droppedDate? back (Mysql.valueIn c u (Postgres.valueIn t value)) = none := by
                rw [Option.eq_none_iff_forall_ne_some]
                intro s hs
                obtain ⟨hstring, hfamily, hzero⟩ := eq_of_droppedDate? hs
                obtain rfl := Postgres.eq_of_valueIn_string (Mysql.eq_of_valueIn_string hstring)
                have hkept : droppedDate? col (.string s) = some s :=
                  if_pos (Bool.and_eq_true_iff.2 ⟨htemporal hfamily, hzero⟩)
                rw [hkept] at hdrop
                cases hdrop
              simp [hstays, valueIn_valueIn hboolean rfl hbool hdate]

/-- The default of a settled column comes back. -/
theorem SettledType.imageValue_back (h : SettledType col) (t t' : Table) :
    Postgres.imageValue (Mysql.image t' (Postgres.image t col)) = Postgres.imageValue col := by
  obtain ⟨htype, hboolean, hnumbered, htemporal⟩ := h.chosenType_back t t'
  have hthere := Postgres.valueOf_image t h.readable
  have hback : valueOf .mysql (Mysql.image t' (Postgres.image t col)) =
      Mysql.imageValue (Postgres.image t col) := by
    apply Mysql.valueOf_image
    rw [hthere]
    exact Postgres.isReadable_imageValue h.readable
  exact Ddl.imageValue_back h.plain hthere hback htype hboolean hnumbered htemporal

/-- **A settled column comes back**, if the column that comes back is no key unless it was. -/
theorem SettledType.image_back (h : SettledType col) {t t' t'' : Table}
    (hkey : Postgres.isInline t'' (Mysql.image t' (Postgres.image t col)) → Postgres.isInline t col) :
    Postgres.image t'' (Mysql.image t' (Postgres.image t col)) = Postgres.image t col := by
  obtain ⟨htype, -, hnumbered, -⟩ := h.chosenType_back t t'
  have hvalue := h.imageValue_back t t'
  have hname : (Mysql.image t' (Postgres.image t col)).name = col.name := by
    rw [Mysql.name_image, Postgres.name_image]
  have hrequired : (Mysql.image t' (Postgres.image t col)).notNull =
      ((Postgres.chosenType col).numbered || (col.notNull && !Postgres.isInline t col)) := by
    have hthere : (Postgres.image t col).notNull =
        ((Postgres.chosenType col).numbered || (col.notNull && !Postgres.isInline t col)) := by
      rw [Postgres.image_eq t h.numbered]
    show ((Postgres.image t col).notNull || (Mysql.chosenType (Postgres.image t col)).numbered) = _
    rw [hthere, hnumbered]
    cases (Postgres.chosenType col).numbered <;> simp
  generalize Mysql.image t' (Postgres.image t col) = back at *
  have hnull : ((Postgres.chosenType col).numbered || (back.notNull && !Postgres.isInline t'' back)) =
      ((Postgres.chosenType col).numbered || (col.notNull && !Postgres.isInline t col)) := by
    rw [hrequired]
    cases (Postgres.chosenType col).numbered with
    | true => rfl
    | false =>
        cases hin : Postgres.isInline t'' back with
        | false => simp
        | true => simp [hkey hin]
  rw [Postgres.image_eq t'' (by rw [htype]; exact h.numbered), Postgres.image_eq t h.numbered, htype,
    hvalue, hname, hnull]

end Columns

/-! ### Tables come back -/

theorem nodup_eraseDups (names : List String) : names.eraseDups.Nodup := by
  induction hn : names.length using Nat.strongRecOn generalizing names with
  | ind n ih =>
      cases names with
      | nil => simp
      | cons name rest =>
          rw [List.eraseDups_cons, List.nodup_cons]
          have hlength := List.length_filter_le (fun b => !b == name) rest
          rw [List.length_cons] at hn
          exact ⟨by simp, ih _ (by omega) _ rfl⟩

theorem eraseDups_of_nodup {names : List String} (h : names.Nodup) : names.eraseDups = names := by
  induction names with
  | nil => rfl
  | cons name rest ih =>
      obtain ⟨hname, hrest⟩ := List.nodup_cons.1 h
      have hfilter : rest.filter (fun b => !b == name) = rest := by
        rw [List.filter_eq_self]
        intro b hb
        simpa using ne_of_mem_of_not_mem hb hname
      rw [List.eraseDups_cons, hfilter, ih hrest]

/-- A table of MySQL that a conversion to PostgreSQL and back does not change any more, as far as
PostgreSQL is concerned. -/
structure Settled (m : Table) : Prop where
  types : ∀ c ∈ m.columns, SettledType c
  keyed : ∀ c ∈ m.columns, c.autoIncrement → m.primaryKeys ≠ []
  distinct : ((m.columns.map (·.name)).map asciiLower).Nodup

/-- The table that comes back from PostgreSQL. -/
def back (options : Options) (m : Table) : Table :=
  Mysql.imageTable (Postgres.imageTable options m)

theorem primaryKeys_imageTable (options : Options) (m : Table) :
    (Postgres.imageTable options m).primaryKeys = m.distinctPrimaryKeys ∧
      (Postgres.imageTable options m).distinctPrimaryKeys = m.distinctPrimaryKeys := by
  have hkeys : (Postgres.imageTable options m).primaryKeys = m.distinctPrimaryKeys := by
    unfold Postgres.imageTable
    split <;> rfl
  refine ⟨hkeys, ?_⟩
  rw [Table.distinctPrimaryKeys, hkeys]
  exact eraseDups_of_nodup (nodup_eraseDups _)

/-- No key is added for what comes back. -/
theorem Settled.primaryKeys_back (h : Settled m) (options : Options) :
    (back options m).primaryKeys = m.distinctPrimaryKeys ∧
      (back options m).distinctPrimaryKeys = m.distinctPrimaryKeys := by
  obtain ⟨-, hkeys⟩ := primaryKeys_imageTable options m
  have hback : (back options m).primaryKeys = m.distinctPrimaryKeys := by
    show (Mysql.keysOf (Postgres.imageTable options m)).primary = _
    rw [Mysql.primary_keysOf, hkeys]
    split
    · rename_i hempty
      have hnone : ((Postgres.imageTable options m).columns.find?
          fun c => (Mysql.chosenType c).numbered) = none := by
        rw [List.find?_eq_none, Postgres.columns_imageTable]
        rintro _ hmem hnumbered
        obtain ⟨c, hc, rfl⟩ := List.mem_map.1 hmem
        obtain ⟨-, -, hsame, -⟩ := (h.types c hc).chosenType_back m m
        rw [hsame] at hnumbered
        refine h.keyed c hc (Postgres.autoIncrement_of_numbered hnumbered) ?_
        cases hprimary : m.primaryKeys with
        | nil => rfl
        | cons name rest => simp [Table.distinctPrimaryKeys, hprimary, List.eraseDups_cons] at hempty
      rw [hnone, List.isEmpty_iff.1 hempty]
      rfl
    · rfl
  refine ⟨hback, ?_⟩
  rw [Table.distinctPrimaryKeys, hback]
  exact eraseDups_of_nodup (nodup_eraseDups _)

/-- The columns that come back, before they are written again. -/
theorem columns_back (options : Options) (m : Table) :
    (back options m).columns = m.columns.map fun c =>
      Mysql.image (Postgres.imageTable options m) (Postgres.image m c) := by
  show (Postgres.imageTable options m).columns.map _ = _
  rw [Postgres.columns_imageTable, List.map_map]
  rfl

/-- A column that is the key by its own declaration is so in a table with the same keys, if it is
numbered there. -/
theorem inlineKey_of_map {m' : Table} {f : Column → Column}
    (hkeys : m'.distinctPrimaryKeys = m.distinctPrimaryKeys) (hcolumns : m'.columns = m.columns.map f)
    (hf : ∀ c, (f c).name = c.name) (hauto : ∀ c ∈ m.columns, (f c).autoIncrement → c.autoIncrement)
    {name : String} (hkey : Postgres.inlineKey m' = some name) : Postgres.inlineKey m = some name := by
  unfold Postgres.inlineKey at hkey ⊢
  rw [hkeys] at hkey
  split at hkey
  · rename_i only _
    have hfind : m'.column? only = (m.column? only).map f := by
      rw [Table.column?, hcolumns, List.find?_map, Table.column?]
      congr 2
      funext c
      rw [Function.comp_apply, hf]
    cases hcol : m.column? only with
    | none => simp [hfind, hcol] at hkey
    | some c =>
        rw [hfind, hcol, Option.map_some] at hkey
        obtain ⟨c', hc', hname⟩ := Option.map_eq_some_iff.1 hkey
        obtain ⟨hsame, hnumbered⟩ := Option.filter_eq_some_iff.1 hc'
        obtain rfl := Option.some.inj hsame
        have hmem : c ∈ m.columns := List.mem_of_find?_eq_some hcol
        rw [hf] at hname
        simp [Option.filter, hauto c hmem hnumbered, hname]
  · cases hkey

/-- The columns come back. -/
theorem Settled.columns_back (h : Settled m) (options : Options) :
    (Postgres.imageTable options (back options m)).columns =
      (Postgres.imageTable options m).columns := by
  obtain ⟨-, hkeys⟩ := h.primaryKeys_back options
  have hname : ∀ c, (Mysql.image (Postgres.imageTable options m) (Postgres.image m c)).name = c.name :=
    fun c => by rw [Mysql.name_image, Postgres.name_image]
  have hauto : ∀ c ∈ m.columns,
      (Mysql.image (Postgres.imageTable options m) (Postgres.image m c)).autoIncrement →
        c.autoIncrement := by
    intro c hc hnumbered
    obtain ⟨-, -, hsame, -⟩ := (h.types c hc).chosenType_back m m
    rw [Mysql.autoIncrement_image, hsame] at hnumbered
    exact Postgres.autoIncrement_of_numbered hnumbered
  have hkey : ∀ c, Postgres.isInline (back options m)
      (Mysql.image (Postgres.imageTable options m) (Postgres.image m c)) → Postgres.isInline m c := by
    intro c hin
    rw [Postgres.isInline, beq_iff_eq, hname] at hin
    rw [Postgres.isInline, inlineKey_of_map hkeys (Ddl.columns_back options m) hname hauto hin,
      beq_self_eq_true]
  rw [Postgres.columns_imageTable, Postgres.columns_imageTable, Ddl.columns_back, List.map_map,
    List.map_congr_left]
  intro c hc
  rw [Function.comp_apply]
  exact (h.types c hc).image_back (hkey c)

/-- What is said about a column in MySQL is what was said in PostgreSQL. -/
theorem commentFor_image (t : Table) (c : Column) :
    (Mysql.imageTable t).commentFor (Mysql.image t c) = t.commentFor c := by
  have hcomment : (Mysql.image t c).comment = t.commentFor c := by
    simp only [Mysql.image]
  have hnone : (Mysql.imageTable t).columnComments = [] := rfl
  rw [Table.commentFor, hcomment, hnone, List.lookup_nil, Option.orElse_eq_orElse,
    Option.orElse_eq_or, Option.or_none]
  exact Postgres.commentFor_spoken t c

/-- With comment statements, what is said about a column in PostgreSQL is what was said in MySQL. -/
theorem commentFor_imageTable (hoptions : options.commentStatements = true)
    (hdistinct : ((m.columns.map (·.name)).map asciiLower).Nodup) (hc : c ∈ m.columns) :
    (Postgres.imageTable options m).commentFor (Postgres.image m c) = m.commentFor c := by
  have hnone : (Postgres.image m c).comment = none := by
    simp only [Postgres.image, Declaration.settle]
    split <;> rfl
  have hcomments : (Postgres.imageTable options m).columnComments =
      (Postgres.columnEntries m).foldl (fun es e => putSorted e.1 e.2 es) [] := by
    rw [Postgres.imageTable, if_pos hoptions]
  have hnodup : ((Postgres.columnEntries m).map (·.1)).Nodup :=
    (Postgres.nodup_names hdistinct).sublist (sublist_names _ _)
  have hlookup := lookup_filterMap (fun c => m.commentFor c) (Postgres.nodup_names hdistinct) hc
  rw [Table.commentFor, hnone, Postgres.name_image, hcomments, lookup_foldl_putSorted hnodup,
    Postgres.columnEntries, hlookup, List.lookup_nil, Option.or_none]
  exact Postgres.commentFor_spoken m c

/-- With comment statements, the comments of the columns come back. -/
theorem Settled.columnEntries_back (h : Settled m) (hoptions : options.commentStatements = true) :
    Postgres.columnEntries (back options m) = Postgres.columnEntries m := by
  unfold Postgres.columnEntries
  rw [Ddl.columns_back, List.filterMap_map]
  refine List.filterMap_congr fun c hc => ?_
  have hcomment : (back options m).commentFor
      (Mysql.image (Postgres.imageTable options m) (Postgres.image m c)) = m.commentFor c :=
    (commentFor_image _ _).trans (commentFor_imageTable hoptions h.distinct hc)
  rw [Function.comp_apply, hcomment, Mysql.name_image, Postgres.name_image]

/-- What is read from the statement for a table. -/
theorem imageTable_fields (options : Options) (m : Table) :
    Postgres.imageTable options m =
      { dialect := .postgresql
        name := m.name
        columns := m.columns.map (Postgres.image m)
        primaryKeys := m.distinctPrimaryKeys
        uniqueKeys := m.uniqueKeys.filter (· != m.distinctPrimaryKeys)
        tableComment := if options.commentStatements then m.tableComment else ""
        columnComments :=
          if options.commentStatements then
            (Postgres.columnEntries m).foldl (fun es e => putSorted e.1 e.2 es) []
          else []
        warnings := (Postgres.imageTable options m).warnings } := by
  unfold Postgres.imageTable
  split <;> rfl

/-- **A settled table comes back**, but for the warnings. -/
theorem Settled.imageTable_back (h : Settled m) (options : Options) :
    { Postgres.imageTable options (back options m) with
      warnings := (Postgres.imageTable options m).warnings } = Postgres.imageTable options m := by
  obtain ⟨hprimary, hkeys⟩ := h.primaryKeys_back options
  have hcolumns := h.columns_back options
  rw [Postgres.columns_imageTable, Postgres.columns_imageTable] at hcolumns
  have hname : (back options m).name = m.name := (congrArg Table.name (imageTable_fields options m) :)
  have hunique : (back options m).uniqueKeys.filter (· != m.distinctPrimaryKeys) =
      m.uniqueKeys.filter (· != m.distinctPrimaryKeys) := by
    have hback : (back options m).uniqueKeys =
        (Postgres.imageTable options m).uniqueKeys.filter (· != (back options m).primaryKeys) := rfl
    have hthere : (Postgres.imageTable options m).uniqueKeys =
        m.uniqueKeys.filter (· != m.distinctPrimaryKeys) :=
      (congrArg Table.uniqueKeys (imageTable_fields options m) :)
    rw [hback, hprimary, hthere]
    simp only [List.filter_filter, Bool.and_self]
  have hcomment : (back options m).tableComment =
      if options.commentStatements then m.tableComment else "" :=
    (congrArg Table.tableComment (imageTable_fields options m) :)
  rw [imageTable_fields options (back options m), hname, hcolumns, hkeys, hunique, hcomment]
  conv_rhs => rw [imageTable_fields options m]
  cases hoptions : options.commentStatements with
  | true =>
      rw [h.columnEntries_back hoptions]
      rfl
  | false => rfl

/-! ### Cycles -/

/-- A table of PostgreSQL, one cycle of conversions later: what is read in PostgreSQL from what is
written for the table that is read in MySQL. -/
def cycle? (options : Options) (t : Table) : Option Table :=
  match parseAll .mysql (convert .pgToMysql options t).sql with
  | .ok [m] =>
    match parseAll .postgresql (convert .mysqlToPg options m).sql with
    | .ok [t'] => some t'
    | _ => none
  | _ => none

/-- A table that can be converted, and whose columns have names that PostgreSQL tells apart. -/
structure Cyclable (t : Table) : Prop where
  wellRead : WellRead postgresRules t
  convertible : Convertible .postgresql t
  distinct : ((t.columns.map (·.name)).map asciiLower).Nodup
  notLike : ∀ c ∈ t.columns, c.name ≠ "like"

theorem notLike_of_names {t t' : Table} (hnames : t'.columns.map (·.name) = t.columns.map (·.name))
    (h : ∀ c ∈ t.columns, c.name ≠ "like") : ∀ c ∈ t'.columns, c.name ≠ "like" := by
  rw [← List.forall_mem_map (f := Column.name) (P := (· ≠ "like")), hnames]
  exact List.forall_mem_map.2 h

/-- The table that a cycle leads to. -/
def cycled (options : Options) (t : Table) : Table :=
  Postgres.imageTable options (Mysql.imageTable t)

/-- A cycle has one table as its result. -/
theorem Cyclable.cycle?_eq (h : Cyclable t) (options : Options) :
    cycle? options t = some (cycled options t) := by
  have hnames := Mysql.names_imageTable t
  have hback := Postgres.parseAll_convert (Mysql.wellRead_imageTable h.wellRead h.convertible)
    (Mysql.convertible_imageTable h.convertible) (hnames ▸ h.distinct)
    (notLike_of_names hnames h.notLike) options
  rw [cycle?, Mysql.parseAll_convert h.wellRead h.convertible options]
  dsimp only
  rw [hback]
  rfl

/-- This table can be passed through another cycle. -/
theorem Cyclable.cycled (h : Cyclable t) (options : Options) : Cyclable (cycled options t) := by
  have hm := Mysql.convertible_imageTable h.convertible
  have hthere := Mysql.names_imageTable t
  have hnames := Postgres.names_imageTable options (Mysql.imageTable t)
  have hlike := notLike_of_names hthere h.notLike
  have hread : WellRead postgresRules (Ddl.cycled options t) :=
    Postgres.wellRead_imageTable (Mysql.wellRead_imageTable h.wellRead h.convertible) hm
      (hthere ▸ h.distinct) hlike
  refine ⟨hread, Postgres.convertible_imageTable hm, ?_, notLike_of_names hnames hlike⟩
  rw [Ddl.cycled, hnames, hthere]
  exact h.distinct

/-- A column of MySQL that comes from PostgreSQL is settled. -/
theorem settledType_image (h : WellRead postgresRules t) (hc : Convertible .postgresql t)
    (hmem : c ∈ t.columns) : SettledType (Mysql.image t c) := by
  have himage : Mysql.image t c ∈ (Mysql.imageTable t).columns := List.mem_map_of_mem hmem
  have hvalue : valueOf .mysql (Mysql.image t c) = Mysql.imageValue c :=
    Mysql.valueOf_image t (hc.values c hmem)
  obtain ⟨parts, hparts, hraw⟩ := mysql_typeParts (hc.known c hmem) (hc.params c hmem)
    (hc.filled c hmem)
  simp only [isMysqlType, Bool.and_eq_true] at hraw
  have hlookup : (mysqlTypes.lookup (Mysql.image t c).rawType).isSome := by
    have htype : (Mysql.image t c).rawType = parts.raw := by
      simp only [Mysql.image, readType_eq hparts]
    rw [htype]
    exact hraw.1
  constructor
  case settled =>
    rw [Mysql.typeOnly_image]
    exact isSettled_chosenType (hc.known c hmem) (hc.params c hmem) (hc.filled c hmem)
  case unsigned => rfl
  case members => rfl
  case numbered =>
    have hm := Mysql.convertible_imageTable hc
    obtain ⟨parts', numbered, hparts', hraw', hnumbered⟩ := postgres_typeParts (hm.known _ himage)
      (hm.params _ himage) (hm.filled _ himage)
    have hsettled := (Mysql.wellRead_imageTable h hc).columns _ himage
    have hagrees : AgreesOnNumbering (Mysql.image t c) := fun u hu hauto =>
      Postgres.autoIncrement_of_counterpart hsettled hlookup hu hauto
    simp only [isPostgresType, Bool.and_eq_true, beq_iff_eq] at hraw'
    rw [readType_eq hparts', hraw'.2, hnumbered hagrees]
  case readable =>
    rw [hvalue]
    exact Mysql.isReadable_imageValue (hc.values c hmem)
  case plain =>
    rw [hvalue]
    intro value hv
    unfold Mysql.imageValue at hv
    split at hv
    · cases hv
    · obtain ⟨source, -, rfl⟩ := Option.map_eq_some_iff.1 hv
      exact Mysql.valueIn_ne c (Mysql.chosenType c) source

/-- **A table of MySQL that comes from PostgreSQL is settled.** -/
theorem settled_imageTable (h : WellRead postgresRules t) (hc : Convertible .postgresql t)
    (hdistinct : ((t.columns.map (·.name)).map asciiLower).Nodup) : Settled (Mysql.imageTable t) := by
  have hcolumns : (Mysql.imageTable t).columns = t.columns.map (Mysql.image t) := rfl
  constructor
  case types =>
    rw [hcolumns]
    exact List.forall_mem_map.2 fun c hmem => settledType_image h hc hmem
  case keyed =>
    -- a numbered column without a primary key in the table is given one
    rw [hcolumns]
    refine List.forall_mem_map.2 fun c hmem hnumbered hnone => ?_
    have hkeys : (Mysql.keysOf t).primary = [] := hnone
    rw [Mysql.autoIncrement_image] at hnumbered
    rw [Mysql.primary_keysOf] at hkeys
    split at hkeys
    · rw [Option.toList_eq_nil_iff, Option.map_eq_none_iff, List.find?_eq_none] at hkeys
      exact hkeys c hmem hnumbered
    · rename_i hne
      exact hne (List.isEmpty_iff.2 hkeys)
  case distinct => rwa [Mysql.names_imageTable]

/-- A table of a script whose types are known, with digits for parameters, and whose defaults are
neither calls nor expressions. -/
theorem cyclable_of_parseAll {script : String} {tables : List Table}
    (hread : parseAll .postgresql script = .ok tables) (ht : t ∈ tables)
    (hknown : ∀ c ∈ t.columns, isKnown .postgresql c.rawType)
    (hparams : ∀ c ∈ t.columns, DigitParams c)
    (hdefaults : ∀ c ∈ t.columns, ∀ value ∈ valueOf .postgresql c,
      (∀ f, value ≠ .function f) ∧ ∀ e, value ≠ .expression e)
    (hdistinct : ((t.columns.map (·.name)).map asciiLower).Nodup)
    (hlike : ∀ c ∈ t.columns, c.name ≠ "like") : Cyclable t := by
  refine ⟨wellRead_of_parseAll hread t ht, ⟨hknown, hparams, ?_, ?_⟩, hdistinct, hlike⟩
  · exact filledParams_of_parseAll hread t ht
  · intro c hc value hvalue
    obtain ⟨hfunction, hexpression⟩ := hdefaults c hc value hvalue
    obtain ⟨text, htext, rfl⟩ := Option.map_eq_some_iff.1 hvalue
    exact isReadable_of_parseAll hread ht hc htext hfunction hexpression

/-- **One cycle settles a table**: the table that a cycle leads to is led to again by the next cycle,
but for the warnings. -/
theorem cycle?_cycle? {script : String} {tables : List Table}
    (hread : parseAll .postgresql script = .ok tables) (ht : t ∈ tables)
    (hknown : ∀ c ∈ t.columns, isKnown .postgresql c.rawType)
    (hparams : ∀ c ∈ t.columns, DigitParams c)
    (hdefaults : ∀ c ∈ t.columns, ∀ value ∈ valueOf .postgresql c,
      (∀ f, value ≠ .function f) ∧ ∀ e, value ≠ .expression e)
    (hdistinct : ((t.columns.map (·.name)).map asciiLower).Nodup)
    (hlike : ∀ c ∈ t.columns, c.name ≠ "like") (options : Options) :
    ∃ t₁ t₂, cycle? options t = some t₁ ∧ cycle? options t₁ = some t₂ ∧
      { t₂ with warnings := t₁.warnings } = t₁ := by
  have h := cyclable_of_parseAll hread ht hknown hparams hdefaults hdistinct hlike
  have hsettled := settled_imageTable h.wellRead h.convertible h.distinct
  exact ⟨_, _, h.cycle?_eq options, (h.cycled options).cycle?_eq options,
    hsettled.imageTable_back options⟩

/-- A script with a numbered column that is no key, a truth value, the current date and a comment. -/
def visitScript : String :=
  "CREATE TABLE visits (id serial, paid bool DEFAULT 'yes', day date DEFAULT CURRENT_DATE, " ++
    "fee numeric(6,2) DEFAULT -1, tags text[], UNIQUE (id));COMMENT ON COLUMN visits.fee IS 'net'"

/-- The table of this script. -/
def visits : Table :=
  { dialect := .postgresql
    name := "visits"
    columns :=
      [{ name := "id", rawType := "serial", notNull := true, autoIncrement := true },
        { name := "paid", rawType := "bool", defaultValue := some "'yes'" },
        { name := "day", rawType := "date", defaultValue := some "CURRENT_DATE" },
        { name := "fee", rawType := "numeric", length := some "6", precision := some "2"
          defaultValue := some "-1" },
        { name := "tags", rawType := "text[]" }]
    uniqueKeys := [["id"]]
    columnComments := [("fee", "net")] }

/-- The visits settle after one cycle. -/
theorem visits_settle :
    ∃ t₁ t₂, cycle? {} visits = some t₁ ∧ cycle? {} t₁ = some t₂ ∧
      { t₂ with warnings := t₁.warnings } = t₁ := by
  have hread : parseAll .postgresql visitScript = .ok [visits] := by decide +kernel
  have hparams : ∀ c ∈ visits.columns, DigitParams c := by
    have hdigits : ∀ c ∈ visits.columns, (c.length.all (·.toList.all Char.isDigit)) ∧
        c.precision.all (·.toList.all Char.isDigit) := by decide
    intro c hc
    obtain ⟨hlength, hprecision⟩ := hdigits c hc
    rw [Option.all_eq_true] at hlength hprecision
    exact ⟨fun l hl => List.all_eq_true.1 (hlength l hl),
      fun p hp => List.all_eq_true.1 (hprecision p hp)⟩
  have hdefaults : ∀ c ∈ visits.columns, ∀ value ∈ valueOf .postgresql c,
      (∀ f, value ≠ .function f) ∧ ∀ e, value ≠ .expression e := by
    have hliteral : ∀ c ∈ visits.columns,
        valueOf .postgresql c ∈ [none, some (.string "yes"), some .currentDate, some (.number "-1")] := by
      decide +kernel
    intro c hc value hvalue
    have := hliteral c hc
    rw [Option.mem_def.1 hvalue] at this
    simp only [List.mem_cons, List.not_mem_nil, or_false, Option.some.injEq, reduceCtorEq,
      false_or] at this
    rcases this with rfl | rfl | rfl <;> simp
  exact cycle?_cycle? hread (by simp) (by decide +kernel) hparams hdefaults (by decide) (by decide) {}

end Schemata.Ddl
