import Schemata.Proofs.Ddl.Images

/-! # Literal defaults keep their value

The default of a column that is a literal, a truth value or the current time denotes the same value
after the declaration that is written for the column in the other dialect is read there
(`literal_kept`).  Truth values may change their form, and the date zero of a column of dates or times
is dropped with a notice. -/

namespace Schemata.Ddl

open Schemata.Sql Schemata.SqlType Schemata.Text

variable {d : Dialect} {t : Table} {c : Column} {value : DefaultValue}

/-! ### Declarations of single columns -/

/-- The type that a column of a dialect is given in the other one. -/
def typeFrom : Dialect → Column → ChosenType
  | .postgresql => Mysql.chosenType
  | .mysql => Postgres.chosenType

/-- The declaration that is written in the other dialect for a column. -/
def lineFrom : Dialect → Table → Column → ColumnLine
  | .postgresql => Mysql.columnLine
  | .mysql => Postgres.columnLine

/-- A statement that declares one column. -/
def declaring (name : String) (line : ColumnLine) : CreateTable :=
  { name, elements := [.column line] }

/-- The type of truth values. -/
def truthType : Dialect → String
  | .mysql => "TINYINT(1)"
  | .postgresql => "BOOLEAN"

/-- A single declaration is read as a table of one column. -/
theorem parseAll_declaring {name : String} {line : ColumnLine} {primary alone : Bool}
    {notices : List Notice} (hname : name ≠ "")
    (h : ReadsAs d ((TableElement.column line).text (spellingOf d)) (.column c primary alone notices)) :
    ∃ t, parseAll d ((declaring name line).text (spellingOf d)) = .ok [t] ∧ t.columns = [c] := by
  have hparse := parseAll_readsAs (c := { create := declaring name line, notices := [] }) hname
    (.inr rfl) (.cons h .nil)
  have htext : Conversion.text (spellingOf d) { create := declaring name line, notices := [] } =
      (declaring name line).text (spellingOf d) := by
    simp [Conversion.text, String.intercalate_singleton]
  rw [htext] at hparse
  refine ⟨_, hparse, ?_⟩
  simp [tableOfDefinitions, Table.add, Table.resolveNames]

/-! ### Kept values -/

/-- The columns of truth values have their type. -/
theorem text_of_boolean (h : (typeFrom d c).boolean) : (typeFrom d c).text = truthType d.other := by
  cases d with
  | postgresql =>
      simp only [typeFrom, Mysql.chosenType] at h ⊢
      split at h
      · simp at h
      · rename_i hdim
        rw [if_neg hdim]
        split at h
        · exact eq_of_beq h
        · simp at h
  | mysql =>
      simp only [typeFrom, Postgres.chosenType] at h ⊢
      split at h
      · rename_i htiny
        rw [if_pos htiny]
        rfl
      · rename_i htiny
        rw [if_neg htiny]
        split at h
        · rename_i hauto
          rw [if_pos hauto]
          exact eq_of_beq h
        · split at h <;> simp at h

/-- A literal, a truth value or the current time. -/
def isLiteral : DefaultValue → Bool
  | .null | .bool _ | .number _ | .string _ | .currentTimestamp _ => true
  | .currentDate | .function _ | .expression _ => false

/-- Whether a default is the date zero of a column of dates or times of MySQL. -/
def isDroppedDate (d : Dialect) (c : Column) (value : DefaultValue) : Bool :=
  d = .mysql && (droppedDate? c value).isSome

/-- What a literal default of a column becomes in the other dialect. -/
structure KeepsLiteral (d : Dialect) (c : Column) (value value' : DefaultValue) : Prop where
  /-- In a column of truth values it says the same. -/
  truth : (typeFrom d c).text = truthType d.other → ∀ b, value.asBool = some b →
    value'.asBool = some b
  bool : ∀ b, value = .bool b → value'.asBool = some b
  /-- Elsewhere it is the same. -/
  same : ((typeFrom d c).text = truthType d.other → value.asBool = none) →
    (∀ b, value ≠ .bool b) → value' = value

/-- What becomes of a value in the other dialect. -/
def valueFrom : Dialect → Column → DefaultValue → DefaultValue
  | .postgresql, c => Mysql.valueIn c (Mysql.chosenType c)
  | .mysql, c => Postgres.valueIn (Postgres.chosenType c)

theorem keepsLiteral_valueFrom (d : Dialect) (c : Column) (h : isLiteral value) :
    KeepsLiteral d c value (valueFrom d c value) := by
  have htruth : ∀ b, value.asBool = some b → (valueFrom d c value).asBool = some b := by
    intro b hb
    cases d with
    | postgresql => exact Mysql.asBool_valueIn c _ hb
    | mysql => exact Postgres.asBool_valueIn _ hb
  refine ⟨fun _ => htruth, ?_, fun hnone hbool => ?_⟩
  · rintro b rfl
    exact htruth b rfl
  · have htruthIn : truthIn (typeFrom d c) value = none := by
      cases htruth : truthIn (typeFrom d c) value with
      | none => rfl
      | some b =>
          obtain ⟨hboolean, hvalue⟩ := asBool_of_truthIn htruth
          rw [hnone (text_of_boolean hboolean)] at hvalue
          cases hvalue
    cases d with
    | postgresql =>
        refine Mysql.valueIn_self c htruthIn hbool ?_
        rintro rfl
        simp [isLiteral] at h
    | mysql =>
        show Postgres.valueIn (Postgres.chosenType c) value = value
        unfold Postgres.valueIn
        rw [show truthIn (Postgres.chosenType c) value = none from htruthIn]

/-- The type of a column of dates or times adds no notice, unless the column is numbered. -/
theorem typeNotices_of_temporal (hknown : isKnown .mysql c.rawType)
    (htemporal : (Family.ofColumn c).any Family.isTemporal) (hauto : c.autoIncrement = false) :
    Postgres.typeNotices c = [] := by
  obtain ⟨u, hu⟩ := exists_counterpart hknown
  have hset : c.rawType ≠ "set" := by
    intro hset
    have hfamily : Family.ofType "set" = some .string := by decide +kernel
    simp [Family.ofColumn, Column.isTinyIntBool, hset, hfamily] at htemporal
    cases hun : c.unsigned <;> simp [hun, Family.widened, Family.isTemporal] at htemporal
  unfold Postgres.typeNotices Postgres.valueTypeNotices
  simp [hauto, hset, hu]

/-- What becomes of a default that is the date zero of MySQL: it is dropped, and one notice says
so. -/
structure DropsDate (c : Column) (value : DefaultValue) (c' : Column) : Prop where
  dropped : c'.defaultValue = none
  notice : ∃ s, value = .string s ∧ isZeroDate s ∧
    Postgres.columnNotices c = Postgres.typeNotices c ++ [.droppedZeroDate c.name s]
  only : c.autoIncrement = false → Postgres.typeNotices c = []

theorem dropsDate_image {s : String} (t : Table) (hknown : isKnown .mysql c.rawType)
    (hnumbered : (Postgres.chosenType c).numbered = false) (hvalue : valueOf .mysql c = some value)
    (hdrop : droppedDate? c value = some s) : DropsDate c value (Postgres.image t c) := by
  obtain ⟨hstring, htemporal, hzero⟩ := eq_of_droppedDate? hdrop
  refine ⟨?_, ⟨s, hstring, hzero, ?_⟩, typeNotices_of_temporal hknown htemporal⟩
  · rw [Postgres.defaultValue_image, Postgres.imageValue, hnumbered, hvalue]
    simp [hdrop]
  · obtain ⟨text, htext, hof⟩ := Option.map_eq_some_iff.1 hvalue
    have hdefault : Postgres.default? c (Postgres.chosenType c) =
        some (.error (.droppedZeroDate c.name s)) := by
      rw [Postgres.default?, hnumbered, htext, Option.map_some, hof, Postgres.defaultText_eq, hdrop]
      rfl
    rw [Postgres.columnNotices, hdefault]
    rfl

/-! ### Literals -/

/-- **Literal defaults keep their value** when the declaration of a column that is not numbered is
written in the other dialect and read there. -/
theorem literal_kept {script : String} {tables : List Table}
    (hread : parseAll d script = .ok tables) (ht : t ∈ tables) (hc : c ∈ t.columns)
    (hknown : isKnown d c.rawType) (hparams : DigitParams c) (hlike : c.name ≠ "like")
    (hnumbered : (typeFrom d c).numbered = false) (hvalue : valueOf d c = some value)
    (hliteral : isLiteral value) :
    ∃ t' c', parseAll d.other ((declaring t.name (lineFrom d t c)).text (spellingOf d.other)) =
        .ok [t'] ∧ t'.columns = [c'] ∧ c'.name = c.name ∧
      if isDroppedDate d c value then DropsDate c value c'
      else ∃ value', valueOf d.other c' = some value' ∧ KeepsLiteral d c value value' := by
  have hwell := wellRead_of_parseAll hread t ht
  have hfilled := filledParams_of_parseAll hread t ht c hc
  have hreadable : ∀ v ∈ valueOf d c, IsReadable v := by
    intro v hv
    obtain rfl : value = v := Option.some.inj (hvalue.symm.trans hv)
    obtain ⟨text, htext, rfl⟩ := Option.map_eq_some_iff.1 hvalue
    refine isReadable_of_parseAll hread ht hc htext (fun f hf => ?_) (fun e he => ?_)
    · simp [hf, isLiteral] at hliteral
    · simp [he, isLiteral] at hliteral
  cases d with
  | postgresql =>
      obtain ⟨t', hparse, hcolumns⟩ := parseAll_declaring hwell.named
        (Mysql.readsAs_columnLine t (hwell.columns c hc).named hknown hparams hfilled hreadable)
      refine ⟨t', _, hparse, hcolumns, Mysql.name_image t c, ?_⟩
      rw [if_neg (by simp [isDroppedDate])]
      refine ⟨_, ?_, keepsLiteral_valueFrom .postgresql c hliteral⟩
      have hkept : (Mysql.chosenType c).numbered = false := hnumbered
      refine (Mysql.valueOf_image t hreadable).trans ?_
      rw [Mysql.imageValue, hkept, hvalue]
      rfl
  | mysql =>
      obtain ⟨t', hparse, hcolumns⟩ := parseAll_declaring hwell.named
        (Postgres.readsAs_columnLine t (hwell.columns c hc).named hlike hknown hparams hfilled
          hreadable)
      refine ⟨t', _, hparse, hcolumns, Postgres.name_image t c, ?_⟩
      have hkept : (Postgres.chosenType c).numbered = false := hnumbered
      cases hdrop : droppedDate? c value with
      | some s =>
          rw [if_pos (by simp [isDroppedDate, hdrop])]
          exact dropsDate_image t hknown hkept hvalue hdrop
      | none =>
          rw [if_neg (by simp [isDroppedDate, hdrop])]
          refine ⟨_, ?_, keepsLiteral_valueFrom .mysql c hliteral⟩
          refine (Postgres.valueOf_image t hreadable).trans ?_
          rw [Postgres.imageValue, hkept, hvalue]
          simp [hdrop, valueFrom]

/-- A script with a truth value that is written as a word. -/
def shopScript : String := "CREATE TABLE shops (open tinyint(1) DEFAULT 'yes')"

/-- The column of this script. -/
def openColumn : Column :=
  { name := "open", rawType := "tinyint", length := some "1", defaultValue := some "'yes'" }

/-- The table of this script. -/
def shops : Table := { dialect := .mysql, name := "shops", columns := [openColumn] }

/-- The truth value keeps what it says. -/
theorem shops_open :
    ∃ t' c', parseAll (Dialect.other .mysql) ((declaring shops.name
        (lineFrom .mysql shops openColumn)).text (spellingOf (Dialect.other .mysql))) = .ok [t'] ∧
      t'.columns = [c'] ∧
      ∃ value', valueOf .postgresql c' = some value' ∧ value'.asBool = some true := by
  have hread : parseAll .mysql shopScript = .ok [shops] := by decide +kernel
  have hcolumn : isKnown .mysql openColumn.rawType ∧ (typeFrom .mysql openColumn).numbered = false ∧
      (typeFrom .mysql openColumn).text = truthType .postgresql := by decide +kernel
  have hparams : DigitParams openColumn := by
    refine ⟨fun l hl => ?_, by simp [openColumn]⟩
    obtain rfl := Option.some.inj hl
    decide
  have hvalue : valueOf .mysql openColumn = some (.string "yes") := by decide +kernel
  obtain ⟨t', c', hparse, hcolumns, -, hkept⟩ := literal_kept hread (t := shops) (c := openColumn)
    (by simp) (by simp [shops]) hcolumn.1 hparams (by decide) hcolumn.2.1 hvalue rfl
  have hdate : isDroppedDate .mysql openColumn (.string "yes") = false := by decide +kernel
  rw [hdate] at hkept
  obtain ⟨value', hvalue', hkeeps⟩ := hkept
  exact ⟨t', c', hparse, hcolumns, value', hvalue', hkeeps.truth hcolumn.2.2 true (by decide)⟩

end Schemata.Ddl
