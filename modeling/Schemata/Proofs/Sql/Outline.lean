import Schemata.Sql.Script

/-! # Outlines

The outline of a table leaves out the defaults of its columns and the parameters of their types.
Reading respects outlines: what attributes, definitions and comments do to the outline of a table
depends on their own outlines only (`outline_foldl_add`, `outline_tableOfDefinitions`,
`outline_comments`). -/

namespace Schemata

/-- A column without its default and the parameters of its type. -/
def Column.outline (c : Column) : Column :=
  { c with length := none, precision := none, defaultValue := none, members := [] }

/-- A table with the outlines of its columns. -/
def Table.outline (t : Table) : Table := { t with columns := t.columns.map Column.outline }

end Schemata

namespace Schemata.Sql

open Schemata.Text

variable {rules : Rules}

/-! ### Declarations -/

/-- Whether an attribute shows in the outline of a column. -/
def Attribute.isOutlined : Attribute → Bool
  | .defaultTo _ | .passedOver => false
  | _ => true

/-- The attributes that show in the outline of a column. -/
def outlined (rules : Rules) (source : List Char) (tokens : List Token) : List Attribute :=
  (attributes rules source tokens).filter Attribute.isOutlined

/-- A declaration with the outline of its column. -/
def Declaration.outline (d : Declaration) : Declaration := { d with column := d.column.outline }

theorem outline_add (d : Declaration) (a : Attribute) :
    (d.add a).outline = if a.isOutlined then d.outline.add a else d.outline := by
  cases a <;> rfl

/-- Attributes that do not show in the outline do not matter to it. -/
theorem outline_foldl_add (as : List Attribute) (d : Declaration) :
    (as.foldl Declaration.add d).outline =
      (as.filter Attribute.isOutlined).foldl Declaration.add d.outline := by
  induction as generalizing d with
  | nil => rfl
  | cons a as ih =>
      rw [List.foldl_cons, ih, outline_add, List.filter_cons]
      split <;> rfl

theorem outline_settle (c : Column) :
    (Declaration.settle rules c).outline = Declaration.settle rules c.outline := by
  unfold Declaration.settle
  split <;> rename_i h
  · rw [if_pos (show (c.outline.autoIncrement || rules.isNumbered c.outline.rawType) = true from h)]
    rfl
  · rw [if_neg (show ¬(c.outline.autoIncrement || rules.isNumbered c.outline.rawType) = true from h)]

/-! ### Definitions -/

/-- A definition with the outline of its column. -/
def Definition.outline : Definition → Definition
  | .column c primary alone notices => .column c.outline primary alone notices
  | d => d

theorem outline_addDefinition (t : Table) (d : Definition) :
    (t.add d).outline = t.outline.add d.outline := by
  cases d with
  | column c primary alone notices =>
      simp [Table.add, Table.outline, Definition.outline, Column.outline]
  | _ => rfl

theorem outline_foldl_addDefinition (ds : List Definition) (t : Table) :
    (ds.foldl Table.add t).outline = (ds.map Definition.outline).foldl Table.add t.outline := by
  induction ds generalizing t with
  | nil => rfl
  | cons d ds ih => rw [List.foldl_cons, ih, outline_addDefinition, List.map_cons, List.foldl_cons]

/-- The spelling of a name, in terms of the names of the columns. -/
theorem declaredName_eq (columns : List Column) (name : String) :
    Table.declaredName columns name =
      if (columns.map (·.name)).any (· == name) then name
      else ((columns.map (·.name)).find? (sameWord · name)).getD name := by
  rw [List.any_map, List.find?_map]
  unfold Table.declaredName
  split
  · rename_i h
    exact (if_pos h).symm
  · rename_i h
    refine Eq.trans ?_ (if_neg h).symm
    show _ = ((columns.find? (fun c => sameWord c.name name)).map (·.name)).getD name
    cases columns.find? (fun c => sameWord c.name name) <;> rfl

/-- Only the names of columns matter to the spelling of a name. -/
theorem declaredName_congr {columns columns' : List Column}
    (h : columns.map (·.name) = columns'.map (·.name)) :
    Table.declaredName columns = Table.declaredName columns' := by
  funext name
  rw [declaredName_eq, declaredName_eq, h]

theorem outline_resolveNames (t : Table) : t.resolveNames.outline = t.outline.resolveNames := by
  have hnames : Table.declaredName t.columns = Table.declaredName t.outline.columns := by
    apply declaredName_congr
    simp only [Table.outline, List.map_map]
    rfl
  unfold Table.resolveNames
  rw [hnames]
  rfl

/-- The table that definitions declare. -/
def tableOfDefinitions (rules : Rules) (name : String) (ds : List Definition) : Table :=
  let t := (ds.foldl Table.add { dialect := rules.dialect, name }).resolveNames
  if t.columns.isEmpty then { t with warnings := t.warnings ++ [(Notice.noColumns name).message] }
  else t

theorem name_tableOfDefinitions (rules : Rules) (name : String) (ds : List Definition) :
    (tableOfDefinitions rules name ds).name = name := by
  have hfold : ∀ t : Table, (ds.foldl Table.add t).name = t.name := by
    intro t
    induction ds generalizing t with
    | nil => rfl
    | cons definition ds ih =>
        rw [List.foldl_cons, ih]
        cases definition <;> rfl
  unfold tableOfDefinitions
  dsimp only
  split <;> exact hfold _

/-- **The outline of a table** is that of its definitions. -/
theorem outline_tableOfDefinitions (rules : Rules) (name : String) (ds : List Definition) :
    (tableOfDefinitions rules name ds).outline =
      tableOfDefinitions rules name (ds.map Definition.outline) := by
  have hfold : (ds.foldl Table.add { dialect := rules.dialect, name }).resolveNames.outline =
      ((ds.map Definition.outline).foldl Table.add
        { dialect := rules.dialect, name }).resolveNames := by
    rw [outline_resolveNames, outline_foldl_addDefinition]
    rfl
  unfold tableOfDefinitions
  dsimp only
  rw [← hfold]
  have hempty :
      (ds.foldl Table.add { dialect := rules.dialect, name }).resolveNames.outline.columns.isEmpty =
        (ds.foldl Table.add { dialect := rules.dialect, name }).resolveNames.columns.isEmpty :=
    List.isEmpty_map
  rw [hempty]
  split <;> rfl

end Schemata.Sql
