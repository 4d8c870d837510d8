import Mathlib.Data.List.Find
import Schemata.Proofs.Sql.Origins

/-! # Unsigned and commented columns

The attributes `UNSIGNED` and `COMMENT` belong to MySQL, but they are read in either dialect.  A column
is unsigned if one of the attributes of its declaration says so (`Declares.unsigned_eq`), and its
comment is the last one that they give (`Declares.comment_eq`).  So a column of PostgreSQL is plain
exactly if no attribute after its type is one of these two, and so it is if neither word stands there
(`plainBy_of_parseAll`). -/

namespace Schemata

/-- Nothing is said of a column that is said in declarations of MySQL only. -/
def Column.IsPlain (c : Column) : Prop := c.unsigned = false ∧ c.comment = none

end Schemata

namespace Schemata.Sql

open Schemata.Text

variable {rules : Rules} {source : List Char} {tokens tail : List Token} {typed c : Column}

/-! ### Words -/

/-- The words of the attributes that only MySQL has. -/
def mysqlOnlyWords : List String := ["unsigned", "comment"]

/-- The comment that an attribute gives. -/
def Attribute.comment? : Attribute → Option String
  | .comment text => some text
  | _ => none

/-- Whether an attribute is one that only MySQL has. -/
def Attribute.isMysqlOnly : Attribute → Bool
  | .unsigned | .comment _ => true
  | _ => false

/-- A default is none of the attributes that only MySQL has. -/
theorem isMysqlOnly_defaultAttribute (rules : Rules) (source : List Char) (ts : List Token) :
    (defaultAttribute rules source ts).1.isMysqlOnly = false := by
  unfold defaultAttribute
  split
  · rfl
  · dsimp only
    split <;> rfl

theorem isMysqlOnly_generatedAttribute (ts : List Token) :
    (generatedAttribute ts).1.isMysqlOnly = false := by
  unfold generatedAttribute
  dsimp only
  split <;> rfl

theorem isMysqlOnly_onAttribute (ts : List Token) : (onAttribute ts).1.isMysqlOnly = false := by
  unfold onAttribute
  dsimp only
  split <;> rfl

/-- **An attribute that only MySQL has starts with its word.** -/
theorem isOneOf_of_isMysqlOnly {t : Token} {r : List Token}
    (h : (readAttribute rules source t r).1.isMysqlOnly) : t.isOneOf mysqlOnlyWords := by
  by_contra hnot
  have hother : ∀ word ∈ mysqlOnlyWords, t.keyword? ≠ some word := by
    intro word hmem hkey
    exact hnot (List.any_eq_true.2 ⟨word, hmem, by simp [Token.isKeyword, hkey]⟩)
  -- The other words start attributes that both dialects have, whatever follows them.
  suffices hshared : (readAttribute rules source t r).1.isMysqlOnly = false by
    rw [hshared] at h
    exact Bool.false_ne_true h
  unfold readAttribute
  split
  case h_9 hkey => exact absurd hkey (hother "unsigned" (by simp [mysqlOnlyWords]))
  case h_10 hkey => exact absurd hkey (hother "comment" (by simp [mysqlOnlyWords]))
  · split <;> rfl
  · rfl
  · exact isMysqlOnly_defaultAttribute _ _ _
  · split <;> rfl
  · rfl
  · rfl
  · rfl
  · rfl
  · exact isMysqlOnly_generatedAttribute _
  · rfl
  · rfl
  · rfl
  · exact isMysqlOnly_onAttribute _
  · rfl
  · rfl
  · rfl
  · rfl
  · split <;> rfl
  · rfl
  · split <;> rfl

/-- Every attribute is read from a token on. -/
theorem exists_readAttribute {a : Attribute} {ts : List Token} (h : a ∈ attributes rules source ts) :
    ∃ t r, t :: r <:+ ts ∧ (readAttribute rules source t r).1 = a := by
  fun_induction attributes rules source ts with
  | case1 => simp at h
  | case2 t r _ ih =>
      rcases List.mem_cons.1 h with rfl | h
      · exact ⟨t, r, List.suffix_refl _, rfl⟩
      · obtain ⟨t', r', hsuffix, hread⟩ := ih h
        have hrest := (readAttribute_suffix rules source t r).trans (List.suffix_cons t r)
        exact ⟨t', r', hsuffix.trans hrest, hread⟩

/-! ### What attributes say -/

theorem unsigned_foldl_add (as : List Attribute) (dec : Declaration) :
    (as.foldl Declaration.add dec).column.unsigned =
      (dec.column.unsigned || as.contains .unsigned) := by
  induction as generalizing dec with
  | nil => simp
  | cons a as ih =>
      have hstep : (dec.add a).column.unsigned = (dec.column.unsigned || a == .unsigned) := by
        cases a <;> simp [Declaration.add]
      rw [List.foldl_cons, ih, hstep, List.contains_cons, Bool.or_assoc, Bool.beq_comm]

/-- Of several comments the last one stays. -/
theorem comment_foldl_add (as : List Attribute) (dec : Declaration) :
    (as.foldl Declaration.add dec).column.comment =
      (as.filterMap Attribute.comment?).getLast?.or dec.column.comment := by
  induction as generalizing dec with
  | nil => simp
  | cons a as ih =>
      rw [List.foldl_cons, ih, List.filterMap_cons]
      cases a with
      | comment text =>
          simp only [Attribute.comment?, Declaration.add, List.getLast?_cons]
          cases (as.filterMap Attribute.comment?).getLast? <;> rfl
      | _ => rfl

/-- A type says neither that its column is unsigned nor what it is for. -/
theorem isPlain_columnOfType? {name : String} {ts : List Token}
    (h : columnOfType? rules source name ts = some (typed, tail)) : typed.IsPlain := by
  have hparams : ∀ params, (withParameters source params { name, rawType := "" }).IsPlain := by
    intro params
    unfold withParameters
    dsimp only
    split <;> exact ⟨rfl, rfl⟩
  obtain ⟨-, _, first, words, dimensions, -, -, rfl | ⟨params, -, rfl⟩⟩ := columnOfType?_cases h
  · exact ⟨rfl, rfl⟩
  · exact ⟨(hparams params).1, (hparams params).2⟩

/-! ### What declarations say -/

/-- **A column is unsigned** if an attribute of its declaration says so. -/
theorem Declares.unsigned_eq (h : Declares rules source tokens tail typed c) :
    c.unsigned = (attributes rules source tail).contains .unsigned := by
  obtain ⟨_, _, _, -, -, -, htype⟩ := h.reads
  rw [h.settled, settle_keeps (f := Column.unsigned) fun _ => rfl, unsigned_foldl_add, (isPlain_columnOfType? htype).1, Bool.false_or]

/-- **The comment of a column** is the last one that an attribute of its declaration gives. -/
theorem Declares.comment_eq (h : Declares rules source tokens tail typed c) :
    c.comment = ((attributes rules source tail).filterMap Attribute.comment?).getLast? := by
  obtain ⟨_, _, _, -, -, -, htype⟩ := h.reads
  rw [h.settled, settle_keeps (f := Column.comment) fun _ => rfl, comment_foldl_add, (isPlain_columnOfType? htype).2, Option.or_none]

theorem Declares.isPlain_iff (h : Declares rules source tokens tail typed c) :
    c.IsPlain ↔ ∀ a ∈ attributes rules source tail, a.isMysqlOnly = false := by
  rw [Column.IsPlain, h.unsigned_eq, h.comment_eq, List.getLast?_eq_none_iff,
    List.filterMap_eq_nil_iff]
  constructor
  · rintro ⟨hunsigned, hcomment⟩ a ha
    cases a with
    | unsigned => simp [ha] at hunsigned
    | comment text => simpa [Attribute.comment?] using hcomment _ ha
    | _ => rfl
  · intro hall
    constructor
    · rw [← Bool.not_eq_true, List.contains_iff_mem]
      intro hmem
      exact Bool.noConfusion (hall _ hmem)
    · intro a ha
      cases a with
      | comment text => exact absurd (hall _ ha) (by simp [Attribute.isMysqlOnly])
      | _ => rfl

/-- A column is plain if neither word stands after its type. -/
theorem Declares.isPlain_of_words (h : Declares rules source tokens tail typed c)
    (hwords : ∀ u ∈ tail, u.isOneOf mysqlOnlyWords = false) : c.IsPlain := by
  rw [h.isPlain_iff]
  intro a ha
  obtain ⟨t, r, hsuffix, rfl⟩ := exists_readAttribute ha
  rw [← Bool.not_eq_true]
  intro hmysql
  have hword := isOneOf_of_isMysqlOnly hmysql
  rw [hwords t (hsuffix.subset (by simp))] at hword
  exact Bool.false_ne_true hword

/-- The tokens after the type of a column decide whether it is plain. -/
structure PlainBy (d : Dialect) (source : List Char) (tail : List Token) (c : Column) : Prop where
  /-- The column is declared by its name, its type and these tokens. -/
  declared : ∃ run typed, IsRun d source run ∧ Declares (rulesOf d) source run tail typed c
  /-- It is plain if and only if they have no attribute that only MySQL has. -/
  attributes : c.unsigned = false ∧ c.comment = none ↔
    ∀ a ∈ attributes (rulesOf d) source tail, a.isMysqlOnly = false
  /-- So it is if neither word of such an attribute stands among them. -/
  words : (∀ u ∈ tail, u.isOneOf mysqlOnlyWords = false) → c.unsigned = false ∧ c.comment = none

/-- **Columns of PostgreSQL are plain** but for attributes of MySQL after their types. -/
theorem plainBy_of_parseAll {script : String} {tables : List Table}
    (h : parseAll .postgresql script = .ok tables) {t : Table} (ht : t ∈ tables) (hc : c ∈ t.columns) :
    ∃ tail, PlainBy .postgresql script.toList tail c := by
  obtain ⟨run, tail, typed, hrun, hdecl⟩ := exists_declares h ht hc
  exact ⟨tail, ⟨run, typed, hrun, hdecl⟩, hdecl.isPlain_iff, hdecl.isPlain_of_words⟩

/-- A script in which the words follow types and attributes. -/
def wellScript : String :=
  "CREATE TABLE wells (depth integer UNSIGNED NOT NULL, level integer NOT NULL UNSIGNED COMMENT 'm')"

/-- The table of the script.  After a type the word belongs to the type. -/
def wells : Table :=
  { dialect := .postgresql
    name := "wells"
    columns :=
      [{ name := "depth", rawType := "integer unsigned", notNull := true },
        { name := "level", rawType := "integer", unsigned := true, notNull := true
          comment := some "m" }]
    warnings := [(Notice.keptType "depth" "INTEGER UNSIGNED").message] }

theorem parseAll_wells : parseAll .postgresql wellScript = .ok [wells] := by
  decide +kernel

theorem plainBy_wells : ∃ tables, parseAll .postgresql wellScript = .ok tables ∧
    ∃ t ∈ tables, ∃ c ∈ t.columns, c.IsPlain ∧
      ∃ tail, PlainBy .postgresql wellScript.toList tail c := by
  have ht : wells ∈ [wells] := List.mem_singleton.2 rfl
  have hc : wells.columns[0] ∈ wells.columns := List.getElem_mem _
  exact ⟨[wells], parseAll_wells, wells, ht, _, hc, ⟨rfl, rfl⟩,
    plainBy_of_parseAll parseAll_wells ht hc⟩

/-- After another attribute the words make a column of PostgreSQL unsigned and give it a comment. -/
theorem wells_not_plain : ∃ tables, parseAll .postgresql wellScript = .ok tables ∧
    ∃ t ∈ tables, ∃ c ∈ t.columns, c.unsigned = true ∧ c.comment = some "m" := by
  have hc : wells.columns[1] ∈ wells.columns := List.getElem_mem _
  exact ⟨[wells], parseAll_wells, wells, List.mem_singleton.2 rfl, _, hc, rfl, rfl⟩

end Schemata.Sql
