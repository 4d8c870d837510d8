import Schemata.Proofs.Sql.Origins

/-! # What a definition adds to a table

A definition takes nothing away from the table that it is added to (`Extends`) and leaves a trace of
exactly one sort (`Adds`): a column, with the keys that it declares for itself, or names in the primary
key, or a unique group, or an index, or a warning (`adds_definition`).  So a body keeps what was there
and leaves at least as many traces as it has definitions (`extends_foldl_add`). -/

namespace Schemata.Sql

variable {rules : Rules} {source : List Char} {before middle after : Table}

/-! ### Additions -/

/-- What a definition can leave in a table. -/
inductive Addition
  | column
  | primaryKey
  | unique
  | index
  | warning
deriving DecidableEq, Repr

/-- What is `after` a definition is what was `before` it with one addition of the given sort, and nothing
else is changed.  A column comes with keys of its own name at most, and with warnings. -/
def Adds (before after : Table) : Addition → Prop
  | .column => ∃ c primary unique warnings, (primary = [] ∨ primary = [c.name]) ∧
      (unique = [] ∨ unique = [[c.name]]) ∧
      after = { before with
        columns := before.columns ++ [c]
        primaryKeys := before.primaryKeys ++ primary
        uniqueKeys := before.uniqueKeys ++ unique
        warnings := before.warnings ++ warnings }
  | .primaryKey => ∃ names, names ≠ [] ∧
      after = { before with primaryKeys := before.primaryKeys ++ names }
  | .unique => ∃ names, names ≠ [] ∧ after = { before with uniqueKeys := before.uniqueKeys ++ [names] }
  | .index => ∃ names, names ≠ [] ∧ after = { before with indexes := before.indexes ++ [names] }
  | .warning => ∃ warning, after = { before with warnings := before.warnings ++ [warning] }

/-- What was there before is there after, at the front, and what the body of a table does not speak of is
the same. -/
structure Extends (before after : Table) : Prop where
  name : after.name = before.name
  dialect : after.dialect = before.dialect
  tableComment : after.tableComment = before.tableComment
  columnComments : after.columnComments = before.columnComments
  columns : before.columns <+: after.columns
  primaryKeys : before.primaryKeys <+: after.primaryKeys
  uniqueKeys : before.uniqueKeys <+: after.uniqueKeys
  indexes : before.indexes <+: after.indexes
  warnings : before.warnings <+: after.warnings

theorem extends_refl (t : Table) : Extends t t :=
  ⟨rfl, rfl, rfl, rfl, List.prefix_rfl, List.prefix_rfl, List.prefix_rfl, List.prefix_rfl,
    List.prefix_rfl⟩

theorem Extends.trans (h : Extends before middle) (h' : Extends middle after) : Extends before after where
  name := h'.name.trans h.name
  dialect := h'.dialect.trans h.dialect
  tableComment := h'.tableComment.trans h.tableComment
  columnComments := h'.columnComments.trans h.columnComments
  columns := h.columns.trans h'.columns
  primaryKeys := h.primaryKeys.trans h'.primaryKeys
  uniqueKeys := h.uniqueKeys.trans h'.uniqueKeys
  indexes := h.indexes.trans h'.indexes
  warnings := h.warnings.trans h'.warnings

/-- An addition takes nothing away. -/
theorem Adds.extends {addition : Addition} (h : Adds before after addition) : Extends before after := by
  have hrefl := extends_refl before
  cases addition with
  | column =>
      obtain ⟨c, primary, unique, warnings, -, -, rfl⟩ := h
      exact { hrefl with
        columns := List.prefix_append _ _
        primaryKeys := List.prefix_append _ _
        uniqueKeys := List.prefix_append _ _
        warnings := List.prefix_append _ _ }
  | primaryKey =>
      obtain ⟨names, -, rfl⟩ := h
      exact { hrefl with primaryKeys := List.prefix_append _ _ }
  | unique =>
      obtain ⟨names, -, rfl⟩ := h
      exact { hrefl with uniqueKeys := List.prefix_append _ _ }
  | index =>
      obtain ⟨names, -, rfl⟩ := h
      exact { hrefl with indexes := List.prefix_append _ _ }
  | warning =>
      obtain ⟨warning, rfl⟩ := h
      exact { hrefl with warnings := List.prefix_append _ _ }

/-- The sort of an addition, told from what has become longer. -/
def grown (before after : Table) : Addition :=
  if before.columns.length < after.columns.length then .column
  else if before.primaryKeys.length < after.primaryKeys.length then .primaryKey
  else if before.uniqueKeys.length < after.uniqueKeys.length then .unique
  else if before.indexes.length < after.indexes.length then .index
  else .warning

theorem Adds.grown_eq {addition : Addition} (h : Adds before after addition) :
    grown before after = addition := by
  cases addition with
  | column =>
      obtain ⟨c, primary, unique, warnings, -, -, rfl⟩ := h
      simp [grown]
  | primaryKey =>
      obtain ⟨names, hne, rfl⟩ := h
      have hpos := List.length_pos_iff.2 hne
      simp [grown, hpos]
  | unique =>
      obtain ⟨names, -, rfl⟩ := h
      simp [grown]
  | index =>
      obtain ⟨names, -, rfl⟩ := h
      simp [grown]
  | warning =>
      obtain ⟨warning, rfl⟩ := h
      simp [grown]

/-- **A definition leaves a trace.** -/
theorem exists_adds (rules : Rules) (source : List Char) (t : Table) (tokens : List Token) :
    ∃ addition, Adds t (t.add (Definition.ofTokens rules source tokens)) addition := by
  rcases ofTokens_cases rules source tokens with ⟨text, us, he⟩ |
    ⟨c, primary, unique, notices, he, -⟩ | ⟨notice, he⟩
  · rw [he]
    rcases tableConstraint_cases rules text us with ⟨names, hne, hk | hk | ⟨-, hk⟩⟩ | ⟨notice, hk⟩
    · exact ⟨.primaryKey, names, hne, by rw [hk]; rfl⟩
    · exact ⟨.unique, names, hne, by rw [hk]; rfl⟩
    · exact ⟨.index, names, hne, by rw [hk]; rfl⟩
    · exact ⟨.warning, notice.message, by rw [hk]; rfl⟩
  · refine ⟨.column, c, if primary then [c.name] else [], if unique then [[c.name]] else [],
      notices.map Notice.message, ?_, ?_, ?_⟩
    · cases primary <;> simp
    · cases unique <;> simp
    · rw [he]
      cases primary <;> cases unique <;> simp [Table.add]
  · exact ⟨.warning, notice.message, by rw [he]; rfl⟩

/-- A definition that is taken for a column and is none. -/
def IsUnparseable (rules : Rules) (source : List Char) (tokens : List Token) : Prop :=
  afterWords ["constraint"] tokens = none ∧ startsTableConstraint rules tokens = false ∧
    columnDefinition? rules source tokens = none

/-- A column that cannot be read leaves a warning with its text. -/
theorem add_unparseable {tokens : List Token} (h : IsUnparseable rules source tokens) (t : Table) :
    t.add (Definition.ofTokens rules source tokens) =
      { t with warnings :=
          t.warnings ++ ["Skipped unparseable column definition: " ++ sourceText source tokens] } := by
  obtain ⟨hnamed, hconstraint, hcolumn⟩ := h
  have hskipped : Definition.ofTokens rules source tokens =
      .skipped (.skipped .column (sourceText source tokens)) := by
    simp [Definition.ofTokens, hnamed, hconstraint, hcolumn]
  rw [hskipped]
  rfl

/-- **A definition only adds, and it leaves a trace of exactly one sort.** -/
theorem adds_definition (d : Dialect) (source : List Char) (t : Table) (token : Token)
    (tokens : List Token) :
    Extends t (t.add (Definition.ofTokens (rulesOf d) source (token :: tokens))) ∧
      (∃! addition, Adds t (t.add (Definition.ofTokens (rulesOf d) source (token :: tokens))) addition) ∧
      (IsUnparseable (rulesOf d) source (token :: tokens) →
        t.add (Definition.ofTokens (rulesOf d) source (token :: tokens)) =
          { t with warnings := t.warnings ++
              ["Skipped unparseable column definition: " ++ sourceText source (token :: tokens)] }) := by
  obtain ⟨addition, hadds⟩ := exists_adds (rulesOf d) source t (token :: tokens)
  refine ⟨hadds.extends, ⟨addition, hadds, fun other hother => ?_⟩, fun h => add_unparseable h t⟩
  exact hother.grown_eq.symm.trans hadds.grown_eq

/-! ### Bodies -/

/-- The number of things that a table describes, warnings included. -/
def traces (t : Table) : Nat :=
  t.columns.length + t.primaryKeys.length + t.uniqueKeys.length + t.indexes.length + t.warnings.length

theorem Adds.traces_lt {addition : Addition} (h : Adds before after addition) :
    traces before < traces after := by
  cases addition with
  | column =>
      obtain ⟨c, primary, unique, warnings, -, -, rfl⟩ := h
      simp only [traces, List.length_append, List.length_singleton]
      omega
  | primaryKey =>
      obtain ⟨names, hne, rfl⟩ := h
      have := List.length_pos_iff.2 hne
      simp only [traces, List.length_append]
      omega
  | unique =>
      obtain ⟨names, -, rfl⟩ := h
      simp only [traces, List.length_append, List.length_singleton]
      omega
  | index =>
      obtain ⟨names, -, rfl⟩ := h
      simp only [traces, List.length_append, List.length_singleton]
      omega
  | warning =>
      obtain ⟨warning, rfl⟩ := h
      simp only [traces, List.length_append, List.length_singleton]
      omega

/-- **A body only adds, and no definition of it is lost.** -/
theorem extends_foldl_add (rules : Rules) (source : List Char) (parts : List (List Token)) (t : Table) :
    Extends t ((parts.map (Definition.ofTokens rules source)).foldl Table.add t) ∧
      traces t + parts.length ≤
        traces ((parts.map (Definition.ofTokens rules source)).foldl Table.add t) := by
  induction parts generalizing t with
  | nil => exact ⟨extends_refl t, Nat.le_refl _⟩
  | cons part parts ih =>
      obtain ⟨addition, hadds⟩ := exists_adds rules source t part
      obtain ⟨hextends, hcount⟩ := ih (t.add (Definition.ofTokens rules source part))
      refine ⟨hadds.extends.trans hextends, Nat.le_trans ?_ hcount⟩
      have := hadds.traces_lt
      simp only [List.length_cons]
      omega

end Schemata.Sql
