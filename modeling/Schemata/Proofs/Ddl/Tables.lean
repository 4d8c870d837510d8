import Schemata.Proofs.Ddl.Definitions
import Schemata.Proofs.Sql.Parsed

/-! # Written tables are read

A table whose elements are read as columns and keys has these columns and keys
(`tableOfDefinitions_columns`): the names of the keys stay as they are written, since columns are
declared in the same spelling. -/

namespace Schemata.Sql

open Schemata.Text

variable {α : Type} {rules : Rules}

/-! ### Columns and keys -/

/-- The definitions of columns, each with what it says of keys and the notices on it. -/
def columnDefinitions (f : α → Column) (primary : α → Bool) (notices : α → List Notice)
    (cols : List α) : List Definition :=
  cols.map fun c => .column (f c) (primary c) false (notices c)

/-- The definitions of keys: a primary key perhaps, unique constraints, and indexes of one column. -/
def keyDefinitions (primary : List String) (groups : List (List String)) (indexed : List String) :
    List Definition :=
  (if primary.isEmpty then [] else [.primaryKey primary]) ++ groups.map .unique ++
    indexed.map (.index [·])

theorem foldl_add_columns (f : α → Column) (primary : α → Bool) (notices : α → List Notice)
    (cols : List α) (t : Table) :
    (columnDefinitions f primary notices cols).foldl Table.add t =
      { t with
        columns := t.columns ++ cols.map f
        primaryKeys := t.primaryKeys ++ (cols.filter primary).map fun c => (f c).name
        warnings := t.warnings ++ cols.flatMap fun c => (notices c).map Notice.message } := by
  induction cols generalizing t with
  | nil => simp [columnDefinitions]
  | cons c cols ih =>
      rw [columnDefinitions, List.map_cons, List.foldl_cons]
      apply (ih _).trans
      cases hc : primary c <;> simp [Table.add, hc]

theorem foldl_add_unique (groups : List (List String)) (t : Table) :
    (groups.map Definition.unique).foldl Table.add t =
      { t with uniqueKeys := t.uniqueKeys ++ groups } := by
  induction groups generalizing t with
  | nil => simp
  | cons names groups ih =>
      rw [List.map_cons, List.foldl_cons, ih]
      simp [Table.add]

theorem foldl_add_index (indexed : List String) (t : Table) :
    (indexed.map fun name => Definition.index [name]).foldl Table.add t =
      { t with indexes := t.indexes ++ indexed.map ([·]) } := by
  induction indexed generalizing t with
  | nil => simp
  | cons name indexed ih =>
      rw [List.map_cons, List.foldl_cons, ih]
      simp [Table.add]

theorem foldl_add_keys (primary : List String) (groups : List (List String))
    (indexed : List String) (t : Table) :
    (keyDefinitions primary groups indexed).foldl Table.add t =
      { t with
        primaryKeys := t.primaryKeys ++ primary
        uniqueKeys := t.uniqueKeys ++ groups
        indexes := t.indexes ++ indexed.map ([·]) } := by
  rw [keyDefinitions, List.foldl_append, List.foldl_append, foldl_add_index, foldl_add_unique]
  cases primary with
  | nil => simp
  | cons name primary => simp [Table.add]

/-! ### Names -/

theorem declared_of_mem {columns : List Column} {c : Column} (h : c ∈ columns) :
    Declared columns c.name := by
  have hany : columns.any (·.name == c.name) := by
    rw [List.any_eq_true]
    exact ⟨c, h, by simp⟩
  rw [Declared, Table.declaredName, if_pos hany]

theorem Declared.congr {columns columns' : List Column} {name : String}
    (h : Declared columns name) (hnames : columns.map (·.name) = columns'.map (·.name)) :
    Declared columns' name := by
  rw [Declared, ← declaredName_congr hnames]
  exact h

theorem map_declaredName {columns : List Column} {names : List String}
    (h : ∀ name ∈ names, Declared columns name) : names.map (Table.declaredName columns) = names := by
  conv => rhs; rw [← List.map_id names]
  exact List.map_congr_left h

/-! ### Tables -/

/-- **Tables of columns and keys** are read as they are written if the keys name the columns in their
spelling. -/
theorem tableOfDefinitions_columns {name : String} {f : α → Column} {primary : α → Bool}
    {notices : α → List Notice} {cols : List α} {keys : List String} {groups : List (List String)}
    {indexed : List String} (hkeys : ∀ name ∈ keys, Declared (cols.map f) name)
    (hgroups : ∀ names ∈ groups, ∀ name ∈ names, Declared (cols.map f) name)
    (hindexed : ∀ name ∈ indexed, Declared (cols.map f) name) :
    tableOfDefinitions rules name
        (columnDefinitions f primary notices cols ++ keyDefinitions keys groups indexed) =
      { dialect := rules.dialect
        name
        columns := cols.map f
        primaryKeys := ((cols.filter primary).map fun c => (f c).name) ++ keys
        uniqueKeys := groups
        indexes := indexed.map ([·])
        warnings := (cols.flatMap fun c => (notices c).map Notice.message) ++
          if cols.isEmpty then [(Notice.noColumns name).message] else [] } := by
  have hinline : ∀ name ∈ (cols.filter primary).map fun c => (f c).name,
      Declared (cols.map f) name := by
    intro name hname
    obtain ⟨c, hc, rfl⟩ := List.mem_map.1 hname
    exact declared_of_mem (List.mem_map_of_mem (List.mem_filter.1 hc).1)
  have hprimary := map_declaredName hinline
  have hkeys' := map_declaredName hkeys
  have hgroups' : groups.map (·.map (Table.declaredName (cols.map f))) = groups := by
    conv => rhs; rw [← List.map_id groups]
    exact List.map_congr_left fun names hnames => map_declaredName (hgroups names hnames)
  have hindexed' : (indexed.map fun name => [name]).map (·.map (Table.declaredName (cols.map f))) =
      indexed.map ([·]) := by
    rw [List.map_map]
    exact List.map_congr_left fun name hname => congrArg ([·]) (hindexed name hname)
  unfold tableOfDefinitions
  rw [List.foldl_append, foldl_add_columns, foldl_add_keys]
  simp only [List.nil_append, Table.resolveNames, List.map_append, hprimary, hkeys', hgroups',
    hindexed']
  cases cols with
  | nil => simp
  | cons c cols => simp

end Schemata.Sql

namespace Schemata.Ddl

open Schemata.Sql

variable {d : Dialect}

/-- The elements for keys of both dialects are read as they are written. -/
theorem givesDefinition_keys (d : Dialect) (primary : List String) (groups : List (List String))
    (hgroups : ∀ names ∈ groups, names ≠ []) :
    List.Forall₂ (fun e => GivesDefinition d (e.text (spellingOf d)))
      ((if primary.isEmpty then [] else [.primaryKey primary]) ++ groups.map TableElement.unique)
      ((if primary.isEmpty then [] else [.primaryKey primary]) ++ groups.map Definition.unique) := by
  refine List.rel_append ?_ (forall₂_map fun names hnames => ?_)
  · cases primary with
    | nil => exact .nil
    | cons name primary => exact .cons (givesDefinition_primaryKey d (by simp)) .nil
  · exact givesDefinition_unique d (hgroups names hnames)

theorem mem_defaultClauses {value : Option (Except Notice String)} {clause : ColumnClause}
    (h : clause ∈ defaultClauses value) :
    ∃ text, clause = .defaultTo text ∧ value = some (.ok text) := by
  unfold defaultClauses at h
  split at h
  · exact ⟨_, List.mem_singleton.1 h, rfl⟩
  · simp at h

/-- A default does not show in the outline. -/
theorem attributes_defaultClauses (value : Option (Except Notice String)) :
    (defaultClauses value).flatMap ColumnClause.attributes = [] := by
  rw [List.flatMap_eq_nil_iff]
  intro clause hclause
  obtain ⟨text, rfl, -⟩ := mem_defaultClauses hclause
  rfl

/-- The kinds of the value of a default, if there is one. -/
theorem exists_valueKinds {clauses : List ColumnClause} {value : Option (Except Notice String)}
    (hclauses : ∀ text, .defaultTo text ∈ clauses → value = some (.ok text))
    (h : ∀ text, value = some (.ok text) → ∃ ks, Gives d text.toList ks ∧ ValueKinds ks) :
    ∃ ks, ValueKinds ks ∧ ∀ text, .defaultTo text ∈ clauses → Gives d text.toList ks := by
  by_cases hvalue : ∃ text, value = some (.ok text)
  · obtain ⟨text, rfl⟩ := hvalue
    obtain ⟨ks, hks, hshape⟩ := h text rfl
    refine ⟨ks, hshape, fun text' hmem => ?_⟩
    obtain rfl : text = text' := by simpa using hclauses text' hmem
    exact hks
  · exact ⟨_, .plain (.literal ""), fun text hmem => absurd ⟨text, hclauses text hmem⟩ hvalue⟩

/-- Equal images, element by element. -/
theorem forall₂_of_map_eq {α β γ : Type} {f : α → γ} {g : β → γ} {l : List α} {l' : List β}
    (h : l.map f = l'.map g) : List.Forall₂ (fun a b => f a = g b) l l' := by
  have heq : List.Forall₂ Eq (l.map f) (l'.map g) := by
    rw [h]
    exact List.forall₂_refl _
  rwa [List.forall₂_map_left_iff, List.forall₂_map_right_iff] at heq

theorem getD_spoken (text : String) : (Table.spoken text).getD "" = text := by
  unfold Table.spoken
  split
  · rename_i h
    exact (String.isEmpty_iff.1 h).symm
  · rfl

end Schemata.Ddl
