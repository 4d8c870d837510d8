import Schemata.Ddl.Conversion
import Schemata.Proofs.Ddl.Counterparts

/-! # Numbered columns in PostgreSQL

A column of MySQL with `AUTO_INCREMENT` gets a serial type in PostgreSQL, as every integer does, or
the warnings say that its numbering was dropped (`Postgres.tellsNumbering_convert`).  The exception is
`TINYINT(1)`, which becomes `BOOLEAN` with no word on the numbering. -/

namespace Schemata.Ddl.Postgres

open Schemata.Sql Schemata.SqlType

variable {t : Table} {c : Column}

/-! ### Types of numbered columns -/

/-- The types that PostgreSQL numbers. -/
def serialTypes : List String := ["BIGSERIAL", "SMALLSERIAL", "SERIAL"]

/-- The integers of MySQL, with its name for a numbered one. -/
def integerTypes : List String :=
  ["tinyint", "smallint", "mediumint", "int", "integer", "bigint", "serial"]

/-- What the type of a numbered column can be, and what is told about it. -/
theorem chosenType_cases (hauto : c.autoIncrement) :
    (c.isTinyIntBool ∧ chosenType c = { text := "BOOLEAN", boolean := true } ∧
        typeNotices c = []) ∨
      (∃ serial ∈ serialTypes, serialOf (valueType c) = some serial ∧
        c.isTinyIntBool = false ∧ chosenType c = { text := serial, numbered := true } ∧
        typeNotices c = valueTypeNotices c) ∨
      (serialOf (valueType c) = none ∧ c.isTinyIntBool = false ∧
        chosenType c = { text := valueType c } ∧
        typeNotices c = valueTypeNotices c ++ [.droppedNumbering c.name (valueType c)]) := by
  unfold chosenType typeNotices
  cases hbool : c.isTinyIntBool with
  | true => exact .inl ⟨rfl, rfl, rfl⟩
  | false =>
      cases hserial : serialOf (valueType c) with
      | some serial =>
          exact .inr (.inl ⟨serial, mem_of_serialOf hserial, rfl, rfl, by simp [hauto], by simp⟩)
      | none => exact .inr (.inr ⟨rfl, rfl, by simp [hauto], by simp [hauto]⟩)

/-- The counterpart of an integer has no parameters, and a serial type. -/
theorem counterpart_integer (h : c.rawType ∈ integerTypes) :
    ∃ counter, counterpart .mysql c = some counter ∧ counter.params = .drop ∧
      (serialOf counter.name).isSome := by
  have hall : ∀ raw ∈ integerTypes, ∀ unsigned,
      (counterpart .mysql { name := "", rawType := raw, unsigned }).any fun counter =>
        counter.params == .drop && (serialOf counter.name).isSome := by
    decide +kernel
  -- the counterpart depends on nothing but the type and whether it is unsigned
  obtain ⟨counter, hcounter, hserial⟩ := (Option.any_eq_true _ _).1 (hall _ h c.unsigned)
  simp only [Bool.and_eq_true, beq_iff_eq] at hserial
  exact ⟨counter, hcounter, hserial⟩

/-- An integer has a serial type. -/
theorem serialOf_integer (h : c.rawType ∈ integerTypes) : (serialOf (valueType c)).isSome := by
  obtain ⟨counter, hcounter, hparams, hserial⟩ := counterpart_integer h
  have hnot : c.rawType ≠ "enum" ∧ c.rawType ≠ "set" := by
    constructor <;> rintro hraw <;> rw [hraw] at h <;> exact absurd h (by decide)
  have hvalue : valueType c = counter.name := by
    simp [valueType, hnot, hcounter, Counterpart.render, hparams]
  rw [hvalue]
  exact hserial

/-! ### Notices -/

/-- The values of a `TINYINT(1)` are no dates, so that its default is not dropped. -/
theorem columnNotices_tinyIntBool (h : c.isTinyIntBool) : columnNotices c = [] := by
  have hfamily : Family.ofColumn c = some .boolean := if_pos h
  have hdefault : defaultNotices (default? c (chosenType c)) = [] := by
    unfold default?
    split
    · rfl
    · cases c.defaultValue with
      | none => rfl
      | some text =>
          have hok : ∃ written, defaultText c (chosenType c) (.ofText .mysql text) = .ok written := by
            unfold defaultText
            split
            · exact ⟨_, rfl⟩
            · split <;> simp [hfamily, Family.isTemporal]
          obtain ⟨written, hwritten⟩ := hok
          rw [Option.map_some, hwritten]
          rfl
  rw [columnNotices, hdefault, typeNotices, if_pos h, List.append_nil]

/-- What is told about a column stands among the warnings of its table. -/
theorem message_mem_warnings (options : Options) (hc : c ∈ t.columns) {notice : Notice}
    (h : notice ∈ columnNotices c) :
    notice.message ∈ (Ddl.convert .mysqlToPg options t).warnings :=
  List.mem_map_of_mem (List.mem_append_right _ (List.mem_flatMap_of_mem hc h))

/-! ### Tables -/

/-- What a conversion does with the numbering of the column `c`, and what it tells. -/
structure TellsNumbering (options : Options) (t : Table) (c : Column) : Prop where
  /-- The column is declared. -/
  declared : .column (columnLine t c) ∈ (convert options t).create.elements
  /-- Its type is serial, or a warning says that a column of this type is not numbered. -/
  told : c.isTinyIntBool = false →
    (columnLine t c).type ∈ serialTypes ∨
      (Notice.droppedNumbering c.name (columnLine t c).type).message ∈
        (Ddl.convert .mysqlToPg options t).warnings
  /-- The numbering of an integer is not dropped. -/
  kept : c.isTinyIntBool = false → c.rawType ∈ integerTypes →
    (columnLine t c).type ∈ serialTypes
  /-- The numbering of a `TINYINT(1)` is dropped, and nothing is told about the column. -/
  silent : c.isTinyIntBool → (columnLine t c).type = "BOOLEAN" ∧ columnNotices c = []

/-- **Numbering is kept or told to be dropped**, but for that of a `TINYINT(1)`. -/
theorem tellsNumbering_convert (options : Options) (hc : c ∈ t.columns)
    (hauto : c.autoIncrement) : TellsNumbering options t c := by
  have hline : (columnLine t c).type = (chosenType c).text := rfl
  constructor
  case declared => exact List.mem_append_left _ (List.mem_map_of_mem hc)
  case told =>
    intro hbool
    rw [hline]
    rcases chosenType_cases hauto with ⟨hbool', -⟩ | ⟨serial, hmem, -, -, htype, -⟩ |
      ⟨-, -, htype, hnotices⟩
    · simp [hbool] at hbool'
    · exact .inl (by simpa [htype] using hmem)
    · refine .inr (message_mem_warnings options hc ?_)
      simp [columnNotices, hnotices, htype]
  case kept =>
    intro hbool hinteger
    rw [hline]
    rcases chosenType_cases hauto with ⟨hbool', -⟩ | ⟨serial, hmem, -, -, htype, -⟩ | ⟨hnone, -⟩
    · simp [hbool] at hbool'
    · simpa [htype] using hmem
    · have hserial := serialOf_integer hinteger
      simp [hnone] at hserial
  case silent =>
    intro hbool
    refine ⟨?_, columnNotices_tinyIntBool hbool⟩
    simp [hline, chosenType, hbool]

/-- A script of MySQL in which each column is numbered. -/
def metersScript : String :=
  "CREATE TABLE meters (id INT UNSIGNED AUTO_INCREMENT PRIMARY KEY, " ++
    "x FLOAT AUTO_INCREMENT, y TINYINT(1) AUTO_INCREMENT)"

/-- The table that the script describes. -/
def meters : Table :=
  { dialect := .mysql
    name := "meters"
    columns :=
      [{ name := "id", rawType := "int", unsigned := true, notNull := true, autoIncrement := true },
        { name := "x", rawType := "float", notNull := true, autoIncrement := true },
        { name := "y", rawType := "tinyint", length := some "1", notNull := true,
          autoIncrement := true }]
    primaryKeys := ["id"] }

example : parseAll .mysql metersScript = .ok [meters] := by decide +kernel

theorem tellsNumbering_meters :
    (∀ c ∈ meters.columns, c.autoIncrement) ∧
      ∀ c ∈ meters.columns, TellsNumbering {} meters c := by
  have hauto : ∀ c ∈ meters.columns, c.autoIncrement := by decide
  exact ⟨hauto, fun c hc => tellsNumbering_convert {} hc (hauto c hc)⟩

/-- The table of one `TINYINT(1)` that is numbered. -/
def dials : Table :=
  { dialect := .mysql
    name := "dials"
    columns :=
      [{ name := "a", rawType := "tinyint", length := some "1", notNull := true,
         autoIncrement := true }]
    primaryKeys := ["a"] }

/-- PostgreSQL does not number the column, and there is no warning. -/
theorem numbering_untold :
    parseAll .mysql "CREATE TABLE dials (a TINYINT(1) AUTO_INCREMENT PRIMARY KEY)" = .ok [dials] ∧
      (∃ c ∈ dials.columns, c.autoIncrement ∧ (columnLine dials c).type ∉ serialTypes) ∧
        (Ddl.convert .mysqlToPg {} dials).warnings = [] := by
  decide +kernel

end Schemata.Ddl.Postgres
