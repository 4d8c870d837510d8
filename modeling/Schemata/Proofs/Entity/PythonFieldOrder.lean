import Schemata.Proofs.Entity.Imports
import Schemata.Proofs.Entity.PythonLines

/-! # Order of fields in Python

A pass over the columns of a table knows after each of them whether there was one that may be null, and whether
one that may not came after it (`FieldOrder.Tells`); a step keeps this (`FieldOrder.Tells.next`), and so does
the whole pass (`FieldOrder.tells_foldl`).  What the class says is read from its source: how its fields are
given from the decorator (`decoratorOf_text`), and which of them have defaults from their lines
(`hasDefault_attributeText`).  Both together are `fields_ordered`. -/

namespace Schemata.Entity.Dataclass

open Schemata.Text Schemata.Entity.Python

variable {options : Options} {t : Table} {c : Column} {before columns : List Column} {order : FieldOrder}

/-! ### The pass over the columns -/

/-- Only columns that may be null come after one that may be. -/
def InOrder (t : Table) (columns : List Column) : Prop :=
  columns.Pairwise fun c d => t.isOptional c → t.isOptional d

/-- A column that may be null stands at a place before that of one that may not. -/
def BreaksOrder (t : Table) (columns : List Column) : Prop :=
  ∃ (i j : Nat) (c d : Column), i < j ∧ columns[i]? = some c ∧ columns[j]? = some d ∧ t.isOptional c ∧ ¬t.isOptional d

theorem not_inOrder_iff : ¬InOrder t columns ↔ BreaksOrder t columns := by
  rw [InOrder, List.pairwise_iff_getElem]
  push Not
  constructor
  · rintro ⟨i, j, hi, hj, hlt, hc, hd⟩
    exact ⟨i, j, _, _, hlt, List.getElem?_eq_getElem hi, List.getElem?_eq_getElem hj, hc, hd⟩
  · rintro ⟨i, j, c, d, hlt, hi, hj, hc, hd⟩
    obtain ⟨hi', rfl⟩ := List.getElem?_eq_some_iff.1 hi
    obtain ⟨hj', rfl⟩ := List.getElem?_eq_some_iff.1 hj
    exact ⟨i, j, hi', hj', hlt, hc, hd⟩

/-- One more column keeps the order if none before it may be null or it may be null itself. -/
theorem inOrder_concat :
    InOrder t (before ++ [c]) ↔ InOrder t before ∧ ((∃ b ∈ before, t.isOptional b) → t.isOptional c) := by
  simp [InOrder, List.pairwise_append]

/-- What is known after some columns of a table. -/
structure FieldOrder.Tells (order : FieldOrder) (t : Table) (columns : List Column) : Prop where
  seen : order.optionalSeen ↔ ∃ c ∈ columns, t.isOptional c
  broken : order.broken ↔ ¬InOrder t columns

theorem FieldOrder.optionalSeen_next (order : FieldOrder) (t : Table) (c : Column) :
    (order.next t c).optionalSeen = (order.optionalSeen || t.isOptional c) := by
  obtain ⟨seen, broken⟩ := order
  cases seen <;> cases h : t.isOptional c <;> simp [FieldOrder.next, h]

theorem FieldOrder.broken_next (order : FieldOrder) (t : Table) (c : Column) :
    (order.next t c).broken = (order.broken || (order.optionalSeen && !t.isOptional c)) := by
  obtain ⟨seen, broken⟩ := order
  cases seen <;> cases h : t.isOptional c <;> simp [FieldOrder.next, h]

/-- **A step of the pass** tells of one more column. -/
theorem FieldOrder.Tells.next (h : order.Tells t before) (c : Column) :
    (order.next t c).Tells t (before ++ [c]) where
  seen := by
    rw [FieldOrder.optionalSeen_next, Bool.or_eq_true, h.seen]
    simp [or_and_right, exists_or]
  broken := by
    rw [FieldOrder.broken_next, Bool.or_eq_true, Bool.and_eq_true, h.broken, h.seen, inOrder_concat, not_and_or,
      Classical.not_imp, Bool.not_eq_true', Bool.not_eq_true]

/-- **The pass tells of all columns.** -/
theorem FieldOrder.tells_foldl (h : order.Tells t before) (columns : List Column) :
    (columns.foldl (FieldOrder.next t) order).Tells t (before ++ columns) := by
  induction columns generalizing order before with
  | nil => simpa using h
  | cons c columns ih => simpa using ih (h.next c)

theorem optionalBeforeRequired_iff : optionalBeforeRequired t columns ↔ BreaksOrder t columns := by
  have hstart : FieldOrder.Tells {} t [] := ⟨by simp, by simp [InOrder]⟩
  rw [← not_inOrder_iff]
  exact (FieldOrder.tells_foldl hstart columns).broken

/-! ### The decorator -/

/-- The decorator in a source text: what stands from the first `@` to the end of its line. -/
def decoratorOf (source : String) : String :=
  String.ofList ((source.toList.dropWhile (· ≠ '@')).takeWhile (· ≠ '\n'))

/-- A text without decorators may stand before it. -/
theorem decoratorOf_append {front : String} (h : '@' ∉ front.toList) (source : String) :
    decoratorOf (front ++ source) = decoratorOf source := by
  have hfront : ∀ x ∈ front.toList, decide (x ≠ '@') = true := by
    intro x hmem
    rw [decide_eq_true_iff]
    exact fun he => h (he ▸ hmem)
  rw [decoratorOf, String.toList_append, List.dropWhile_append_of_pos hfront, decoratorOf]

/-- A decorator is read to the end of its line. -/
theorem decoratorOf_line {name : String} (hhead : name.toList.head? = some '@') (hfeed : '\n' ∉ name.toList)
    (rest : String) : decoratorOf (name ++ "\n" ++ rest) = name := by
  have hline : (name ++ "\n" ++ rest).toList = name.toList ++ '\n' :: rest.toList := by
    simp only [String.toList_append, List.append_assoc]
    rfl
  have hname : ∀ x ∈ name.toList, decide (x ≠ '\n') = true := by
    intro x hmem
    rw [decide_eq_true_iff]
    exact fun he => hfeed (he ▸ hmem)
  obtain ⟨r, hr⟩ := List.head?_eq_some_iff.1 hhead
  have hdrop : (name.toList ++ '\n' :: rest.toList).dropWhile (· ≠ '@') = name.toList ++ '\n' :: rest.toList := by
    rw [hr, List.cons_append]
    exact List.dropWhile_cons_of_neg (by simp)
  rw [decoratorOf, hline, hdrop, Sql.takeWhile_append_of_head hname (by simp), String.ofList_toList]

/-- No import is taken for a decorator. -/
theorem at_not_mem_imports (h : options.packageLines) (t : Table) :
    '@' ∉ ("\n".intercalate (imports t) ++ "\n\n\n").toList := by
  have hnames : ∀ entry ∈ "from dataclasses import dataclass" :: importedTypes.map Prod.fst,
      '@' ∉ entry.toList := by
    decide
  have himports : ∀ entry ∈ imports t, '@' ∉ entry.toList := fun entry hmem =>
    hnames entry (List.mem_cons.2 ((importsNeeded h t).only entry hmem))
  rw [String.toList_append, String.toList_intercalate, List.mem_append, not_or,
    mem_intercalate_of_notMem (by decide)]
  exact ⟨by simpa using himports, by decide⟩

/-- The line that the pass over the columns asks for. -/
def switchOf (t : Table) : String :=
  if optionalBeforeRequired t t.columns then "@dataclass(kw_only=True)" else "@dataclass"

theorem decoratorOf_bare (h : options.packageLines = false) (t : Table) :
    decoratorOf (text options t) = switchOf t := by
  have hline : decorator t = switchOf t ++ "\n" := by
    unfold decorator switchOf
    split <;> rfl
  have hswitch : (switchOf t).toList.head? = some '@' ∧ '\n' ∉ (switchOf t).toList := by
    unfold switchOf
    split <;> decide
  have htext : text options t = switchOf t ++ "\n" ++ ("class " ++ typeName t ++ ":\n" ++ classDocstring t ++
      (if t.columns.isEmpty then "    pass\n" else "") ++ String.join (t.columns.map (attributeText t))) := by
    simp only [text, h, Bool.false_eq_true, if_false, String.empty_append, hline, String.append_assoc]
  rw [htext]
  exact decoratorOf_line hswitch.1 hswitch.2 _

/-- **The decorator** of a data class, whatever its comments say. -/
theorem decoratorOf_text (options : Options) (t : Table) : decoratorOf (text options t) = switchOf t := by
  cases h : options.packageLines with
  | true =>
      have hsource : text options t = "\n".intercalate (imports t) ++ "\n\n\n" ++
          text { options with packageLines := false } t := (importsNeeded h t).source
      rw [hsource, decoratorOf_append (at_not_mem_imports h t)]
      exact decoratorOf_bare rfl t
  | false => exact decoratorOf_bare h t

/-! ### The lines of fields -/

/-- A line declares a field with a default: an equals sign stands before its comment. -/
def HasDefault (line : String) : Prop := '=' ∈ line.toList.takeWhile (· ≠ '#')

instance (line : String) : Decidable (HasDefault line) := inferInstanceAs (Decidable (_ ∈ _))

example : HasDefault "    a: Optional[int] = None  # b\n" ∧ ¬HasDefault "    a: int  # b = c\n" := by decide

/-- What stands before the comment in the line for a column. -/
def declaration (t : Table) (c : Column) : String :=
  "    " ++ attributeName c.name ++ ": " ++ attributeType t c ++ if t.isOptional c then " = None" else ""

/-- A declaration has an equals sign only before a default. -/
theorem equals_mem_declaration : '=' ∈ (declaration t c).toList ↔ t.isOptional c := by
  have hname : '=' ∉ (attributeName c.name).toList := fun hmem =>
    absurd (isIdentifierChar_safeIdentifier _ _ _ hmem) (by decide)
  have htype : '=' ∉ (attributeType t c).toList :=
    not_mem_of_isTypeNameChar (isTypeNameChar_attributeType t c) (by decide)
  cases h : t.isOptional c <;> simp [declaration, h, hname, htype]

theorem hash_not_mem_declaration (t : Table) (c : Column) : '#' ∉ (declaration t c).toList := by
  have hname : '#' ∉ (attributeName c.name).toList := fun hmem =>
    absurd (isIdentifierChar_safeIdentifier _ _ _ hmem) (by decide)
  have htype : '#' ∉ (attributeType t c).toList :=
    not_mem_of_isTypeNameChar (isTypeNameChar_attributeType t c) (by decide)
  cases h : t.isOptional c <;> simp [declaration, h, hname, htype]

/-- **Fields have defaults** exactly if their columns may be null, whatever their comments say. -/
theorem hasDefault_attributeText (t : Table) (c : Column) : HasDefault (attributeText t c) ↔ t.isOptional c := by
  have hplain : ∀ x ∈ (declaration t c).toList, decide (x ≠ '#') = true := by
    intro x hmem
    rw [decide_eq_true_iff]
    exact fun he => hash_not_mem_declaration t c (he ▸ hmem)
  have hline : attributeText t c = withComment (declaration t c) (t.commentFor c) := rfl
  rw [HasDefault, hline, ← equals_mem_declaration]
  cases t.commentFor c with
  | none =>
      rw [withComment, String.toList_append, List.takeWhile_append_of_pos hplain, List.mem_append]
      exact or_iff_left (by decide)
  | some comment =>
      have hend : ("  # ".toList ++ ((onOneLine comment).toList ++ "\n".toList)).takeWhile (· ≠ '#') =
          [' ', ' '] := rfl
      simp only [withComment, String.toList_append, List.append_assoc]
      rw [List.takeWhile_append_of_pos hplain, hend, List.mem_append]
      exact or_iff_left (by decide)

/-- What holds of the fields of a data class. -/
structure FieldsOrdered (options : Options) (t : Table) : Prop where
  keywordOnly : decoratorOf (text options t) = "@dataclass(kw_only=True)" ↔ BreaksOrder t t.columns
  positional : decoratorOf (text options t) = "@dataclass" ↔ ¬BreaksOrder t t.columns
  /-- The class ends with a line for each column, in order, that has a default exactly if the column may be
  null, and unless the fields are given by keyword no line without a default follows one with a default. -/
  lines : ∃ front lines, text options t = front ++ String.join lines ∧ EndsWithFeed front ∧
    List.Forall₂ (fun c line => IsAttributeLine (attributeName c.name) line ∧
      (HasDefault line ↔ t.isOptional c)) t.columns lines ∧
    (decoratorOf (text options t) = "@dataclass" ↔ lines.Pairwise fun l m => HasDefault l → HasDefault m)

/-- **The switch to keywords is exact**, and fields are in the order of their columns. -/
theorem fields_ordered (options : Options) (t : Table) : FieldsOrdered options t := by
  have hswitch : optionalBeforeRequired t t.columns ↔ BreaksOrder t t.columns := optionalBeforeRequired_iff
  have hpositional : decoratorOf (text options t) = "@dataclass" ↔ ¬BreaksOrder t t.columns := by
    rw [decoratorOf_text, switchOf, ← hswitch]
    split <;> simp_all
  constructor
  case keywordOnly =>
    rw [decoratorOf_text, switchOf, ← hswitch]
    split <;> simp_all
  case positional => exact hpositional
  case lines =>
    obtain ⟨front, htext, hfront⟩ := exists_front_dataclass options t
    refine ⟨front, _, htext, hfront, ?_, ?_⟩
    · rw [List.forall₂_map_right_iff, List.forall₂_same]
      exact fun c _ => ⟨isAttributeLine_dataclass t c, hasDefault_attributeText t c⟩
    · rw [hpositional, ← not_inOrder_iff, not_not, List.pairwise_map]
      simp only [hasDefault_attributeText]
      rfl

end Schemata.Entity.Dataclass
