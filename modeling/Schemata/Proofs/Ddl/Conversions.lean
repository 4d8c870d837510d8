import Schemata.Ddl.Conversion
import Schemata.Proofs.Ddl.Values

/-! # What becomes of values

In MySQL truth values are numbers and the current date stands in parentheses (`Mysql.valueIn`); in
PostgreSQL the defaults of truth columns are words (`Postgres.valueIn`), and the date zero is dropped
(`droppedDate?`).  The text that a conversion writes for a default is that of what becomes of its
value (`Mysql.defaultText_eq`, `Postgres.defaultText_eq`), and conversions back and forth change a
value once at most (`valueIn_valueIn`). -/

namespace Schemata.Ddl

open Schemata.Sql Schemata.SqlType Schemata.Text

variable {d : Dialect} {c : Column} {t : ChosenType} {value : DefaultValue}

/-- The value of the default of a column. -/
def valueOf (d : Dialect) (c : Column) : Option DefaultValue :=
  c.defaultValue.map (DefaultValue.ofText d)

/-- The text of a default that is not dropped. -/
def writtenDefault : Option (Except Notice String) → Option String
  | some (.ok text) => some text
  | _ => none

theorem defaultClauses_eq (value : Option (Except Notice String)) :
    defaultClauses value = ((writtenDefault value).map ColumnClause.defaultTo).toList := by
  cases value with
  | none => rfl
  | some result => cases result <;> rfl

/-- The truth value that a default stands for in a column of the type `t`. -/
def truthIn (t : ChosenType) (value : DefaultValue) : Option Bool :=
  if t.boolean then value.asBool else none

theorem asBool_of_truthIn {b : Bool} (h : truthIn t value = some b) :
    t.boolean = true ∧ value.asBool = some b := by
  unfold truthIn at h
  split at h
  · exact ⟨‹_›, h⟩
  · simp at h

/-! ### Values in MySQL -/

/-- What becomes of a value in a column of MySQL. -/
def Mysql.valueIn (c : Column) (t : ChosenType) (value : DefaultValue) : DefaultValue :=
  match truthIn t value with
  | some b => .number (bit b)
  | none =>
    match value with
    | .bool b => .number (bit b)
    | .currentDate =>
      if Family.ofColumn c = some .date then .expression "(CURRENT_DATE)" else .currentTimestamp none
    | value => value

/-- The text of a default in MySQL is that of what becomes of its value. -/
theorem Mysql.defaultText_eq (c : Column) (t : ChosenType) (h : ∀ f, value ≠ .function f) :
    defaultText c t value = .ok (valueText .mysql (valueIn c t value)) := by
  have htruth : (if t.boolean then value.asBool else none) = truthIn t value := rfl
  unfold defaultText valueIn
  rw [htruth]
  cases truthIn t value with
  | some b => rfl
  | none =>
      cases value with
      | function f => exact absurd rfl (h f)
      | currentDate =>
          dsimp only
          split <;> rfl
      | _ => rfl

theorem isReadable_bit (b : Bool) : IsReadable (.number (Mysql.bit b)) := by
  cases b <;> exact .number (by decide) (by decide)

theorem Mysql.isReadable_valueIn (c : Column) (t : ChosenType) (h : IsReadable value) :
    IsReadable (valueIn c t value) := by
  unfold valueIn
  cases truthIn t value with
  | some b => exact isReadable_bit b
  | none =>
      cases h with
      | bool b => exact isReadable_bit b
      | currentDate =>
          dsimp only
          split
          · exact .dateGroup
          · exact .currentTimestamp (by simp [IsPrecision])
      | null => exact .null
      | number h hone => exact .number h hone
      | string value => exact .string value
      | currentTimestamp h => exact .currentTimestamp h
      | dateGroup => exact .dateGroup

/-- Neither truth values nor the current date are left in MySQL. -/
theorem Mysql.valueIn_ne (c : Column) (t : ChosenType) (value : DefaultValue) :
    (∀ b, valueIn c t value ≠ .bool b) ∧ valueIn c t value ≠ .currentDate := by
  unfold valueIn
  cases truthIn t value with
  | some b => simp
  | none =>
      cases value with
      | currentDate =>
          dsimp only
          split <;> simp
      | _ => simp

theorem Mysql.valueIn_truth {b : Bool} (c : Column) (h : truthIn t value = some b) :
    valueIn c t value = .number (bit b) := by
  unfold valueIn
  rw [h]

/-- Values apart from truth values and the current date are kept in MySQL. -/
theorem Mysql.valueIn_self (c : Column) (htruth : truthIn t value = none)
    (hbool : ∀ b, value ≠ .bool b) (hdate : value ≠ .currentDate) : valueIn c t value = value := by
  unfold valueIn
  rw [htruth]
  cases value with
  | bool b => exact absurd rfl (hbool b)
  | currentDate => exact absurd rfl hdate
  | _ => rfl

/-! ### Values in PostgreSQL -/

/-- What becomes of a value in a column of PostgreSQL, if it is not dropped. -/
def Postgres.valueIn (t : ChosenType) (value : DefaultValue) : DefaultValue :=
  match truthIn t value with
  | some b => .bool b
  | none => value

/-- The date zero of a column of dates or times. -/
def droppedDate? (c : Column) : DefaultValue → Option String
  | .string s => if (Family.ofColumn c).any Family.isTemporal && isZeroDate s then some s else none
  | _ => none

theorem eq_of_droppedDate? {s : String} (h : droppedDate? c value = some s) :
    value = .string s ∧ (Family.ofColumn c).any Family.isTemporal ∧ isZeroDate s := by
  cases value with
  | string s' =>
      simp only [droppedDate?, Option.ite_none_right_eq_some, Option.some.injEq,
        Bool.and_eq_true] at h
      obtain ⟨⟨hfamily, hzero⟩, rfl⟩ := h
      exact ⟨rfl, hfamily, hzero⟩
  | _ => simp [droppedDate?] at h

/-- The date zero is no truth value. -/
theorem asBool_of_isZeroDate {s : String} (h : isZeroDate s) :
    (DefaultValue.string s).asBool = none := by
  have table : ∀ e ∈ DefaultValue.truthWords, e.1.toList.length < 10 := by decide
  cases hs : (DefaultValue.string s).asBool with
  | none => rfl
  | some b =>
      have hlookup : DefaultValue.truthWords.lookup (asciiLower s) = some b := hs
      have hshort := table _ (mem_of_lookup hlookup)
      have hprefix : "0000-00-00".toList <+: s.toList := List.isPrefixOf_iff_prefix.1 h
      have hlong : 10 ≤ s.toList.length := hprefix.length_le
      simp only [asciiLower, String.toList_ofList, List.length_map] at hshort
      omega

/-- The text of a default in PostgreSQL is that of what becomes of its value. -/
theorem Postgres.defaultText_eq (c : Column) (t : ChosenType) (value : DefaultValue) :
    defaultText c t value =
      match droppedDate? c value with
      | some s => .error (.droppedZeroDate c.name s)
      | none => .ok (valueText .postgresql (valueIn t value)) := by
  have htruth : (if t.boolean then value.asBool else none) = truthIn t value := rfl
  unfold defaultText valueIn
  rw [htruth]
  cases hdrop : droppedDate? c value with
  | some s =>
      obtain ⟨rfl, hfamily, hzero⟩ := eq_of_droppedDate? hdrop
      have hnone : truthIn t (.string s) = none := by
        rw [truthIn, asBool_of_isZeroDate hzero, ite_self]
      rw [hnone]
      exact if_pos (Bool.and_eq_true_iff.2 ⟨hfamily, hzero⟩)
  | none =>
      cases truthIn t value with
      | some b => rfl
      | none =>
          cases value with
          | string s =>
              refine if_neg fun hzero => ?_
              rw [droppedDate?, if_pos hzero] at hdrop
              cases hdrop
          | _ => rfl

theorem Postgres.isReadable_valueIn (t : ChosenType) (h : IsReadable value) :
    IsReadable (valueIn t value) := by
  unfold valueIn
  cases truthIn t value with
  | some b => exact .bool b
  | none => exact h

/-! ### Truth values -/

theorem asBool_bit (b : Bool) : (DefaultValue.number (Mysql.bit b)).asBool = some b := by
  cases b <;> decide

/-- Truth values keep what they say. -/
theorem Mysql.asBool_valueIn {b : Bool} (c : Column) (t : ChosenType) (h : value.asBool = some b) :
    (valueIn c t value).asBool = some b := by
  cases htruth : truthIn t value with
  | some b' =>
      obtain rfl : b' = b := Option.some.inj ((asBool_of_truthIn htruth).2.symm.trans h)
      rw [valueIn_truth c htruth]
      exact asBool_bit b'
  | none =>
      unfold valueIn
      rw [htruth]
      cases value with
      | bool b' =>
          obtain rfl : b' = b := Option.some.inj h
          exact asBool_bit b'
      | currentDate => simp [DefaultValue.asBool] at h
      | _ => exact h

theorem Postgres.asBool_valueIn {b : Bool} (t : ChosenType) (h : value.asBool = some b) :
    (valueIn t value).asBool = some b := by
  cases htruth : truthIn t value with
  | some b' =>
      rw [valueIn, htruth]
      exact (asBool_of_truthIn htruth).2.symm.trans h
  | none =>
      rw [valueIn, htruth]
      exact h

/-! ### Back and forth -/

/-- Strings come from strings. -/
theorem Mysql.eq_of_valueIn_string {s : String} (h : valueIn c t value = .string s) :
    value = .string s := by
  unfold valueIn at h
  cases htruth : truthIn t value with
  | some b => simp [htruth] at h
  | none =>
      rw [htruth] at h
      cases value with
      | bool b => simp at h
      | currentDate =>
          dsimp only at h
          split at h <;> simp at h
      | _ => exact h

theorem Postgres.eq_of_valueIn_string {s : String} (h : valueIn t value = .string s) :
    value = .string s := by
  unfold valueIn at h
  cases htruth : truthIn t value with
  | some b => simp [htruth] at h
  | none => rwa [htruth] at h

/-- **Values change once**: what comes back from MySQL stays as it is. -/
theorem valueIn_valueIn {s u : ChosenType} (hs : s.boolean = t.boolean) (hu : u.boolean = t.boolean)
    (hbool : ∀ b, value ≠ .bool b) (hdate : value ≠ .currentDate) :
    Postgres.valueIn u (Mysql.valueIn c s (Postgres.valueIn t value)) = Postgres.valueIn t value := by
  have hsame : ∀ v, truthIn s v = truthIn t v ∧ truthIn u v = truthIn t v := fun v => by
    rw [truthIn, truthIn, truthIn, hs, hu]
    exact ⟨rfl, rfl⟩
  cases hvalue : truthIn t value with
  | some b =>
      have hboolean := (asBool_of_truthIn hvalue).1
      have hword : Postgres.valueIn t value = .bool b := by rw [Postgres.valueIn, hvalue]
      have hnumber : Mysql.valueIn c s (.bool b) = .number (Mysql.bit b) := by
        apply Mysql.valueIn_truth
        rw [(hsame _).1, truthIn, if_pos hboolean]
        rfl
      rw [hword, hnumber, Postgres.valueIn, (hsame _).2, truthIn, if_pos hboolean, asBool_bit]
  | none =>
      have hkept : Postgres.valueIn t value = value := by rw [Postgres.valueIn, hvalue]
      rw [hkept, Mysql.valueIn_self c ((hsame _).1.trans hvalue) hbool hdate, Postgres.valueIn,
        (hsame _).2, hvalue]

end Schemata.Ddl
