import Schemata.Proofs.Ddl.MysqlTables
import Schemata.Proofs.Ddl.PostgresTables

/-! # The keys of written tables

A table that is written for PostgreSQL declares its primary key once, with its column or apart from
the columns, and every other unique constraint once (`Postgres.declaresKeys_convert`).  In a table
that is written for MySQL a numbered column comes first in some key, unless it already is in the
primary key (`Mysql.keysNumbered_convert`): then it comes first only where the table has it so.  What
the elements of a statement declare is what its text says: they are all that stands in its body
(`Conversion.hasBody_text`). -/

namespace Schemata.Ddl

open Schemata.Sql

/-! ### What elements declare -/

/-- The names of the unique constraint that an element is. -/
def TableElement.uniqueNames? : TableElement → Option (List String)
  | unique names => some names
  | _ => none

/-- The names of the key that an element is, of whatever kind. -/
def TableElement.keyNames? : TableElement → Option (List String)
  | column _ => none
  | primaryKey names => some names
  | unique names => some names
  | key name => some [name]

/-- Whether some key of a statement has this name first. -/
def CreateTable.leads (s : CreateTable) (name : String) : Bool :=
  s.elements.any fun e => e.keyNames?.any (·.head? == some name)

/-- A text that creates a table, with the texts of these elements and nothing else in its body. -/
def HasBody (spelling : Spelling) (elements : List TableElement) (source : String) : Prop :=
  ∃ head tail, source = "CREATE TABLE " ++ head ++ " (\n" ++
    ",\n".intercalate (elements.map ("    " ++ ·.text spelling)) ++ "\n)" ++ tail

theorem CreateTable.hasBody_text (spelling : Spelling) (s : CreateTable) (rest : String) :
    HasBody spelling s.elements (s.text spelling ++ rest) := by
  refine ⟨spelling.name s.name, s.options spelling ++ ";" ++ rest, ?_⟩
  unfold CreateTable.text
  simp only [String.append_assoc]

/-- **The elements of a conversion are what its text says.**  Comment statements come after the body. -/
theorem Conversion.hasBody_text (spelling : Spelling) (c : Conversion) :
    HasBody spelling c.create.elements (c.text spelling) := by
  rw [Conversion.text]
  cases c.comments.map CommentOn.text with
  | nil =>
      rw [String.intercalate_singleton, ← String.append_empty (s := c.create.text spelling)]
      exact c.create.hasBody_text spelling ""
  | cons comment comments =>
      rw [String.intercalate_cons_cons, String.append_assoc]
      exact c.create.hasBody_text spelling _

/-- The declarations of columns are no constraints. -/
theorem uniqueNames?_columns (f : Column → ColumnLine) (columns : List Column) :
    (columns.map (TableElement.column <| f ·)).filterMap TableElement.uniqueNames? = [] := by
  rw [List.filterMap_eq_nil_iff]
  exact List.forall_mem_map.2 fun _ _ => rfl

theorem uniqueNames?_groups (groups : List (List String)) :
    (groups.map TableElement.unique).filterMap TableElement.uniqueNames? = groups := by
  rw [List.filterMap_map]
  exact List.filterMap_some

/-- Unique constraints are no primary keys. -/
theorem declaresPrimaryKey_groups (groups : List (List String)) :
    (groups.map TableElement.unique).filter TableElement.declaresPrimaryKey = [] := by
  rw [List.filter_eq_nil_iff]
  exact List.forall_mem_map.2 fun _ _ => Bool.false_ne_true

theorem distinctPrimaryKeys_eq_nil {t : Table} :
    t.distinctPrimaryKeys = [] ↔ t.primaryKeys = [] := by
  unfold Table.distinctPrimaryKeys
  cases t.primaryKeys with
  | nil => simp
  | cons name rest => simp [List.eraseDups_cons]

/-! ### Keys in PostgreSQL -/

namespace Postgres

variable {t : Table} {c : Column}

/-- A column is found by its name. -/
theorem column?_name (h : (t.columns.map (·.name)).Nodup) (hc : c ∈ t.columns) :
    t.column? c.name = some c := by
  unfold Table.column?
  cases hfind : t.columns.find? (·.name == c.name) with
  | none => simpa using List.find?_eq_none.1 hfind c hc
  | some c' =>
      have hname : c'.name = c.name := by simpa using List.find?_some hfind
      rw [List.inj_on_of_nodup_map h (List.mem_of_find?_eq_some hfind) hc hname]

/-- The key is declared with the column that is the key alone and is numbered. -/
theorem isInline_iff (h : (t.columns.map (·.name)).Nodup) (hc : c ∈ t.columns) :
    isInline t c ↔ t.distinctPrimaryKeys = [c.name] ∧ c.autoIncrement := by
  rw [isInline, beq_iff_eq]
  constructor
  · intro hkey
    obtain ⟨hkeys, -⟩ := inlineKey_eq_some hkey
    refine ⟨hkeys, ?_⟩
    rw [inlineKey, hkeys] at hkey
    dsimp only at hkey
    rw [column?_name h hc] at hkey
    by_contra hnot
    simp [Option.filter, hnot] at hkey
  · rintro ⟨hkeys, hnumbered⟩
    rw [inlineKey, hkeys]
    dsimp only
    rw [column?_name h hc]
    simp [Option.filter, hnumbered]

theorem declaresPrimaryKey_columnLine (t : Table) (c : Column) :
    (TableElement.column (columnLine t c)).declaresPrimaryKey = isInline t c := by
  have hdefault : ∀ value, (defaultClauses value).contains ColumnClause.primaryKey = false := by
    intro value
    unfold defaultClauses
    split <;> rfl
  have hmembers : (memberClauses c).contains ColumnClause.primaryKey = false := by
    unfold memberClauses
    split <;> rfl
  have hkey : (keyClauses t c (chosenType c)).contains ColumnClause.primaryKey = isInline t c := by
    unfold keyClauses isInline
    by_cases hin : inlineKey t = some c.name
    · simp [hin]
    · simp only [hin, if_false]
      split <;> simp [hin]
  show ((columnLine t c).clauses.contains .primaryKey) = _
  simp only [columnLine, List.contains_append, hkey, hdefault, hmembers, Bool.or_false]

/-- The columns that declare the primary key. -/
theorem filter_columns (t : Table) :
    (t.columns.map (TableElement.column <| columnLine t ·)).filter TableElement.declaresPrimaryKey =
      (t.columns.filter (isInline t)).map (TableElement.column <| columnLine t ·) := by
  rw [List.filter_map]
  congr 2
  funext c
  exact declaresPrimaryKey_columnLine t c

/-- At most one column declares the primary key. -/
theorem filter_isInline (h : (t.columns.map (·.name)).Nodup) (hc : c ∈ t.columns)
    (hin : isInline t c) : t.columns.filter (isInline t) = [c] := by
  have hsame : ∀ c' ∈ t.columns, isInline t c' = (c' == c) := by
    intro c' hc'
    rw [Bool.eq_iff_iff, beq_iff_eq]
    constructor
    · intro hin'
      have hkeys := ((isInline_iff h hc).1 hin).1
      have hkeys' := ((isInline_iff h hc').1 hin').1
      have hname : c'.name = c.name := by simpa [hkeys] using hkeys'.symm
      exact List.inj_on_of_nodup_map h hc' hc hname
    · rintro rfl
      exact hin
  rw [List.filter_congr hsame, List.filter_beq, List.count_eq_one_of_mem (h.of_map _) hc]
  rfl

/-- Unless a numbered column is the key alone, no column declares the key, and all of it is left. -/
theorem remainingKeys_eq (h : (t.columns.map (·.name)).Nodup)
    (hnot : ¬∃ c ∈ t.columns, t.distinctPrimaryKeys = [c.name] ∧ c.autoIncrement) :
    t.columns.filter (isInline t) = [] ∧ remainingKeys t = t.distinctPrimaryKeys := by
  have hfilter : t.columns.filter (isInline t) = [] := by
    rw [List.filter_eq_nil_iff]
    exact fun c hc hin => hnot ⟨c, hc, (isInline_iff h hc).1 hin⟩
  have hkey : inlineKey t = none := by
    rw [Option.eq_none_iff_forall_ne_some]
    intro name hname
    obtain ⟨hkeys, c, hc, rfl⟩ := inlineKey_eq_some hname
    have hin : isInline t c := beq_iff_eq.2 hname
    exact hnot ⟨c, hc, (isInline_iff h hc).1 hin⟩
  refine ⟨hfilter, ?_⟩
  rw [remainingKeys, hkey, List.filter_eq_self]
  exact fun _ _ => rfl

/-- The elements that declare the primary key: columns, or what is left of the key. -/
theorem filter_elements (options : Options) (t : Table) :
    (convert options t).create.elements.filter TableElement.declaresPrimaryKey =
      (t.columns.filter (isInline t)).map (TableElement.column <| columnLine t ·) ++
        if (remainingKeys t).isEmpty then [] else [.primaryKey (remainingKeys t)] := by
  show (_ ++ keyElements t).filter _ = _
  have hrest : (keyElements t).filter TableElement.declaresPrimaryKey =
      if (remainingKeys t).isEmpty then [] else [.primaryKey (remainingKeys t)] := by
    show ((if (remainingKeys t).isEmpty then [] else _) ++ List.map _ _).filter _ = _
    rw [List.filter_append, declaresPrimaryKey_groups, List.append_nil]
    split <;> rfl
  rw [List.filter_append, filter_columns, hrest]

/-- How the elements of a statement declare the keys of a table, and where its text has them. -/
structure DeclaresKeys (t : Table) (elements : List TableElement) (source : String) : Prop where
  /-- No primary key is declared for a table without one. -/
  absent : t.primaryKeys = [] → elements.filter TableElement.declaresPrimaryKey = []
  /-- A numbered column that is the key alone declares it, and nothing else does. -/
  inline : ∀ c ∈ t.columns, t.distinctPrimaryKeys = [c.name] → c.autoIncrement →
    elements.filter TableElement.declaresPrimaryKey = [.column (columnLine t c)]
  /-- Any other key is declared by one element, and nothing else declares one. -/
  listed : t.primaryKeys ≠ [] →
    (¬∃ c ∈ t.columns, t.distinctPrimaryKeys = [c.name] ∧ c.autoIncrement) →
    elements.filter TableElement.declaresPrimaryKey = [.primaryKey t.distinctPrimaryKeys]
  /-- The unique constraints are those of the table in order, without the primary key. -/
  unique : elements.filterMap TableElement.uniqueNames? =
    t.uniqueKeys.filter (· != t.distinctPrimaryKeys)
  /-- The elements are the body of the text. -/
  body : HasBody postgresSpelling elements source

/-- **Keys are declared once** in PostgreSQL. -/
theorem declaresKeys_convert (h : (t.columns.map (·.name)).Nodup) (options : Options) :
    DeclaresKeys t (convert options t).create.elements ((convert options t).text postgresSpelling) := by
  constructor
  case absent =>
    intro hempty
    have hkeys := distinctPrimaryKeys_eq_nil.2 hempty
    obtain ⟨hfilter, hrest⟩ := remainingKeys_eq h (by simp [hkeys])
    rw [filter_elements, hfilter, hrest, hkeys]
    rfl
  case inline =>
    intro c hc hkeys hnumbered
    have hin : isInline t c := (isInline_iff h hc).2 ⟨hkeys, hnumbered⟩
    have hkey : inlineKey t = some c.name := beq_iff_eq.1 hin
    have hrest : remainingKeys t = [] := by simp [remainingKeys, hkeys, hkey]
    rw [filter_elements, filter_isInline h hc hin, hrest]
    rfl
  case listed =>
    intro hsome hnot
    obtain ⟨hfilter, hrest⟩ := remainingKeys_eq h hnot
    have hkeys : t.distinctPrimaryKeys.isEmpty = false := by
      simpa using mt distinctPrimaryKeys_eq_nil.1 hsome
    rw [filter_elements, hfilter, hrest, hkeys]
    rfl
  case unique =>
    show (t.columns.map _ ++
      ((if (remainingKeys t).isEmpty then [] else _) ++ List.map _ _)).filterMap _ = _
    rw [List.filterMap_append, List.filterMap_append, uniqueNames?_columns, uniqueNames?_groups]
    split <;> rfl
  case body => exact (convert options t).hasBody_text postgresSpelling

/-- A table whose key is named twice and is one numbered column. -/
def tickets : Table :=
  { dialect := .mysql
    name := "tickets"
    columns :=
      [{ name := "id", rawType := "int", autoIncrement := true },
        { name := "seat", rawType := "int" }]
    primaryKeys := ["id", "id"]
    uniqueKeys := [["id"], ["seat", "id"]] }

theorem declaresKeys_tickets : (tickets.columns.map (·.name)).Nodup ∧
    DeclaresKeys tickets (convert {} tickets).create.elements ((convert {} tickets).text postgresSpelling) :=
  ⟨by decide, declaresKeys_convert (by decide) {}⟩

end Postgres

/-! ### Keys in MySQL -/

namespace Mysql

variable {t : Table} {keys : Keys} {name : String}

/-- What the keys, or a unique constraint beside a primary key, have for a numbered column. -/
inductive Keyed (t : Table) (keys : Keys) (name : String) : Prop
  | primary (h : name ∈ keys.primary)
  | unique (hsome : keys.primary ≠ []) (h : ∃ names ∈ t.uniqueKeys, names.head? = some name)
  | index (h : name ∈ keys.secondary)

/-- What one column adds takes nothing away. -/
theorem Keyed.provide (h : Keyed t keys name) (c : Column) : Keyed t (keys.provide t c) name := by
  rcases provide_cases keys t c with ⟨hkept, -⟩ | ⟨hnone, -, hadded⟩ | ⟨-, -, hadded⟩
  · rw [hkept]
    exact h
  · rw [hadded]
    cases h with
    | primary h => simp [hnone] at h
    | unique hsome h => exact absurd hnone hsome
    | index h => exact .index h
  · rw [hadded]
    cases h with
    | primary h => exact .primary h
    | unique hsome h => exact .unique hsome h
    | index h => exact .index (List.mem_append_left _ h)

theorem Keyed.foldl_provide (h : Keyed t keys name) (cols : List Column) :
    Keyed t (cols.foldl (fun keys c => keys.provide t c) keys) name := by
  induction cols generalizing keys with
  | nil => exact h
  | cons c cols ih => exact ih (h.provide c)

/-- A numbered column provides for itself. -/
theorem keyed_provide (keys : Keys) {c : Column} (hc : (chosenType c).numbered) :
    Keyed t (keys.provide t c) c.name := by
  rcases provide_cases keys t c with ⟨hkept, hkey⟩ | ⟨-, -, hadded⟩ | ⟨-, -, hadded⟩
  · rw [hkept]
    rcases hkey hc with h | ⟨hsome, h⟩
    · exact .primary h
    · exact .unique hsome h
  · rw [hadded]
    exact .primary (List.mem_singleton.2 rfl)
  · rw [hadded]
    exact .index (List.mem_append_right _ (List.mem_singleton.2 rfl))

/-- **The keys of a table have something for every numbered column.** -/
theorem keyed_keysOf {c : Column} (hmem : c ∈ t.columns) (hc : (chosenType c).numbered) :
    Keyed t (keysOf t) c.name := by
  obtain ⟨before, after, hcolumns⟩ := List.append_of_mem hmem
  rw [keysOf, hcolumns, List.foldl_append, List.foldl_cons]
  exact (keyed_provide _ hc).foldl_provide after

/-- The indexes that are added are not on columns of the primary key. -/
theorem not_mem_distinctPrimaryKeys (h : name ∈ (keysOf t).secondary) :
    name ∉ t.distinctPrimaryKeys := by
  rcases mem_secondary_foldl_provide h with h | ⟨hout, -⟩
  · exact absurd h List.not_mem_nil
  · exact hout

/-- The columns that come first in a key.  A unique constraint that is left out is on the columns of
the primary key, so that its first column is not lost. -/
theorem leads_convert (options : Options) (t : Table) (name : String) :
    (convert options t).create.leads name ↔
      (keysOf t).primary.head? = some name ∨
        (∃ names ∈ t.uniqueKeys, names.head? = some name) ∨ name ∈ (keysOf t).secondary := by
  have hprimary : (∃ e ∈ if (keysOf t).primary.isEmpty then []
        else [TableElement.primaryKey (keysOf t).primary],
      e.keyNames?.any (·.head? == some name) = true) ↔ (keysOf t).primary.head? = some name := by
    cases (keysOf t).primary with
    | nil => simp
    | cons first rest => simp [TableElement.keyNames?]
  have hkeys : (convert options t).create.leads name ↔
      (keysOf t).primary.head? = some name ∨
        (∃ names ∈ t.uniqueKeys, names ≠ (keysOf t).primary ∧ names.head? = some name) ∨
          name ∈ (keysOf t).secondary := by
    show (t.columns.map _ ++ keyElements t).any _ = true ↔ _
    unfold keyElements
    rw [← hprimary]
    simp only [List.any_append, List.any_map, List.any_eq_true, Bool.or_eq_true, List.mem_filter]
    simp [TableElement.keyNames?, and_assoc, or_assoc]
  rw [hkeys]
  constructor
  · rintro (h | ⟨names, hmem, -, hhead⟩ | h)
    · exact .inl h
    · exact .inr (.inl ⟨names, hmem, hhead⟩)
    · exact .inr (.inr h)
  · rintro (h | ⟨names, hmem, hhead⟩ | h)
    · exact .inl h
    · by_cases hsame : names = (keysOf t).primary
      · exact .inl (hsame ▸ hhead)
      · exact .inr (.inl ⟨names, hmem, hsame, hhead⟩)
    · exact .inr (.inr h)

/-- The key of a table without one is made of one column, which is therefore its first. -/
theorem head?_primary_keysOf (hmem : name ∈ (keysOf t).primary)
    (hfirst : name ∈ t.distinctPrimaryKeys → t.distinctPrimaryKeys.head? = some name ∨
      ∃ names ∈ t.uniqueKeys, names.head? = some name) :
    (keysOf t).primary.head? = some name ∨ ∃ names ∈ t.uniqueKeys, names.head? = some name := by
  rw [primary_keysOf] at hmem ⊢
  split at hmem
  case isTrue hnone =>
    rw [if_pos hnone]
    cases hfind : t.columns.find? fun c => (chosenType c).numbered with
    | none => simp [hfind] at hmem
    | some c =>
        refine .inl ?_
        simpa [hfind, eq_comm] using hmem
  case isFalse hsome =>
    rw [if_neg hsome]
    exact hfirst hmem

/-- The primary key is declared by one element, if by any. -/
theorem filter_elements (options : Options) (t : Table) :
    (convert options t).create.elements.filter TableElement.declaresPrimaryKey =
      if (keysOf t).primary.isEmpty then [] else [.primaryKey (keysOf t).primary] := by
  have hclauses : ∀ c, ColumnClause.primaryKey ∉ (columnLine t c).clauses := by
    intro c hmem
    have hword := (mem_clauses hmem).1
    exact absurd hword (by decide)
  have hcolumns : (t.columns.map (TableElement.column <| columnLine t ·)).filter
      TableElement.declaresPrimaryKey = [] := by
    rw [List.filter_eq_nil_iff]
    refine List.forall_mem_map.2 fun c _ hc => hclauses c ?_
    exact List.contains_iff_mem.1 hc
  have hindexes : ((keysOf t).secondary.map TableElement.key).filter
      TableElement.declaresPrimaryKey = [] := by
    rw [List.filter_eq_nil_iff]
    exact List.forall_mem_map.2 fun _ _ => Bool.false_ne_true
  show (_ ++ keyElements t).filter _ = _
  unfold keyElements
  simp only [List.filter_append, hcolumns, hindexes, declaresPrimaryKey_groups, List.append_nil,
    List.nil_append]
  split <;> rfl

/-- A declaration that numbers its column is that of a column with a numbered type. -/
theorem numbered_of_line {options : Options} {line : ColumnLine}
    (hline : .column line ∈ (convert options t).create.elements)
    (hauto : .autoIncrement ∈ line.clauses) :
    ∃ c ∈ t.columns, c.name = line.name ∧ (chosenType c).numbered := by
  have hcolumn : ∃ c ∈ t.columns, columnLine t c = line := by
    rcases List.mem_append.1 hline with h | h
    · obtain ⟨c, hc, hsame⟩ := List.mem_map.1 h
      exact ⟨c, hc, TableElement.column.inj hsame⟩
    · unfold keyElements at h
      simp only [List.mem_append, List.mem_map, reduceCtorEq, and_false, exists_false,
        or_false] at h
      split at h <;> simp at h
  obtain ⟨c, hc, rfl⟩ := hcolumn
  refine ⟨c, hc, rfl, ?_⟩
  by_contra hnot
  have hclauses : (columnLine t c).clauses = (if c.notNull then [.notNull] else []) ++
      defaultClauses (default? c (chosenType c)) ++
        ((t.commentFor c).map ColumnClause.comment).toList := by
    simp [columnLine, hnot]
  rw [hclauses] at hauto
  simp only [List.mem_append] at hauto
  rcases hauto with (h | h) | h
  · split at h <;> simp at h
  · obtain ⟨text, hsame, -⟩ := mem_defaultClauses h
    exact ColumnClause.noConfusion hsame
  · simp at h

/-- How a statement in MySQL keys the numbered columns of a table, and where a text has its elements. -/
structure KeysNumbered (t : Table) (s : CreateTable) (source : String) : Prop where
  /-- A primary key stays as it is. -/
  kept : t.distinctPrimaryKeys ≠ [] →
    s.elements.filter TableElement.declaresPrimaryKey = [.primaryKey t.distinctPrimaryKeys]
  /-- Without one, the first numbered column is made the primary key. -/
  made : t.distinctPrimaryKeys = [] →
    s.elements.filter TableElement.declaresPrimaryKey =
      ((t.columns.find? fun c => (chosenType c).numbered).map (.primaryKey [·.name])).toList
  /-- A numbered column comes first in a key, unless the table has it in its primary key after
  another column and does not have it first in a unique constraint. -/
  leads : ∀ line, .column line ∈ s.elements → .autoIncrement ∈ line.clauses →
    (s.leads line.name ↔
      (line.name ∈ t.distinctPrimaryKeys → t.distinctPrimaryKeys.head? = some line.name ∨
        ∃ names ∈ t.uniqueKeys, names.head? = some line.name))
  /-- The elements are the body of the text. -/
  body : HasBody mysqlSpelling s.elements source

/-- **Numbered columns come first in a key**, where they are not in the primary key already. -/
theorem keysNumbered_convert (options : Options) (t : Table) :
    KeysNumbered t (convert options t).create ((convert options t).text mysqlSpelling) := by
  constructor
  case kept =>
    intro hsome
    have hprimary : (keysOf t).primary = t.distinctPrimaryKeys := by
      rw [primary_keysOf, if_neg (by simpa using hsome)]
    rw [filter_elements, hprimary, if_neg (by simpa using hsome)]
  case made =>
    intro hnone
    have hprimary : (keysOf t).primary =
        ((t.columns.find? fun c => (chosenType c).numbered).map (·.name)).toList := by
      rw [primary_keysOf, if_pos (by simpa using hnone)]
    rw [filter_elements, hprimary]
    cases t.columns.find? fun c => (chosenType c).numbered <;> rfl
  case leads =>
    intro line hline hauto
    rw [leads_convert]
    constructor
    · rintro (h | h | h) hmem
      · rw [primary_keysOf, if_neg (by simpa using List.ne_nil_of_mem hmem)] at h
        exact .inl h
      · exact .inr h
      · exact absurd hmem (not_mem_distinctPrimaryKeys h)
    · intro hfirst
      obtain ⟨c, hc, hname, hnumbered⟩ := numbered_of_line hline hauto
      cases keyed_keysOf hc hnumbered with
      | primary hmem => exact (head?_primary_keysOf (hname ▸ hmem) hfirst).imp_right .inl
      | unique _ h => exact .inr (.inl (hname ▸ h))
      | index h => exact .inr (.inr (hname ▸ h))
  case body => exact (convert options t).hasBody_text mysqlSpelling

/-- A table that numbers the second column of its primary key. -/
def seats : Table :=
  { dialect := .postgresql
    name := "seats"
    columns :=
      [{ name := "row", rawType := "int" },
        { name := "seat", rawType := "serial", notNull := true, autoIncrement := true }]
    primaryKeys := ["row", "seat"] }

/-- In MySQL the second column is numbered and comes first in no key. -/
theorem seats_leads : (seats.columns.map (·.name)).Nodup ∧
    ∃ line, .column line ∈ (convert {} seats).create.elements ∧
      .autoIncrement ∈ line.clauses ∧ ¬(convert {} seats).create.leads line.name := by
  refine ⟨by decide, columnLine seats seats.columns[1], ?_, ?_, ?_⟩ <;> decide +kernel

end Mysql

end Schemata.Ddl
