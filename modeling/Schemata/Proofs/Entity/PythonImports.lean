import Mathlib.Data.List.Nodup
import Schemata.Entity.Dataclass
import Schemata.Proofs.Entity.MappedColumns
import Schemata.Proofs.Entity.TypeImports

/-! # Imports of classes in Python

A class imports the names that the types of its attributes mention, each once (`mem_typeImports_iff`).  A mapped
class takes from its mapper the type constructors that the expressions of its attributes mention, and the one
for expressions where a default needs it (`mem_mapperNames_iff`, `text_mem_mapperNames_iff`). -/

namespace Schemata.Entity.Python

variable {t : Table} {c : Column} {name : String}

/-! ### Imports of types -/

/-- What is imported for types, and the name that it is imported for. -/
def importedTypes : List (String × String) :=
  [("from decimal import Decimal", "Decimal"), ("from uuid import UUID", "UUID"),
    ("from datetime import date", "date"), ("from datetime import time", "time"),
    ("from datetime import datetime", "datetime"), ("from typing import Optional", "Optional")]

theorem brings_of_mem {p : String × String} (hp : p ∈ importedTypes) : language.Brings p.1 p.2 where
  families f := by
    revert p
    cases f <;> decide
  fallback := by
    revert p
    decide
  arrays element := by
    refine (mentions_applied "list" '[' ']' (by decide) (by decide) (by decide) (by decide)).trans ?_
    refine or_congr_left ?_
    revert p
    decide

theorem mentions_optional (type : String) :
    Mentions name (optional type) ↔ name = "Optional" ∨ Mentions name type :=
  mentions_applied "Optional" '[' ']' (by decide) (by decide) (by decide) (by decide)

theorem mentions_attributeType : Mentions name (attributeType t c) ↔
    (t.isOptional c ∧ name = "Optional") ∨ Mentions name (language.resolve c).text := by
  rw [attributeType]
  cases t.isOptional c <;> simp [mentions_optional]

/-- **The imports of types** are those of the names that the types of the attributes mention. -/
theorem mem_typeImports_iff {p : String × String} (hp : p ∈ importedTypes) :
    p.1 ∈ typeImports t ↔ ∃ c ∈ t.columns, Mentions p.2 (attributeType t c) := by
  have hoptional : p.1 = "from typing import Optional" ↔ p.2 = "Optional" := by
    revert p
    decide
  have hany : (p.1 ∈ if t.columns.any t.isOptional then ["from typing import Optional"] else []) ↔
      ∃ c ∈ t.columns, t.isOptional c ∧ p.2 = "Optional" := by
    rw [List.mem_ite_nil_right, List.mem_singleton, List.any_eq_true, hoptional, ← exists_and_right]
    simp only [and_assoc]
  rw [typeImports, List.mem_append, (brings_of_mem hp).mem_typeImports, hany, ← exists_or]
  simp only [mentions_attributeType, and_or_left, or_comm]

theorem typeImports_subset (t : Table) : typeImports t ⊆ importedTypes.map Prod.fst := by
  have htypes : language.typeImports t ⊆ importedTypes.map Prod.fst := by
    refine Language.typeImports_subset (fun f => ?_) (by decide) (by decide) t
    cases f <;> decide
  refine List.append_subset.2 ⟨htypes, ?_⟩
  split
  · decide
  · simp

end Schemata.Entity.Python

namespace Schemata.Entity.MappedClass

open Schemata.Text Schemata.Entity.Python

variable {t : Table} {c : Column} {a name : String}

/-! ### Names of constructors -/

/-- A name that is written like a class; the constant for truth is none. -/
def isConstructor (name : String) : Bool := headSatisfies Char.isUpper name && name != "True"

/-- A text that mentions no constructor. -/
def Plain (source : String) : Prop :=
  ∀ word ∈ namesIn source.toList, isConstructor (String.ofList word) = false

instance (source : String) : Decidable (Plain source) := inferInstanceAs (Decidable (∀ _ ∈ _, _))

theorem Plain.not_mentions (h : Plain a) (hname : isConstructor name) : ¬Mentions name a := fun hmem => by
  have hplain := h _ hmem
  rw [String.ofList_toList, hname] at hplain
  exact absurd hplain (by decide)

theorem isConstructor_of_mem : ∀ name ∈ constructorNames, isConstructor name := by
  decide

/-! ### Types -/

theorem isUpper_of_isDigit {c : Char} (h : c.isDigit) : c.isUpper = false := by
  have hdigit : c.isDigit = (decide (c.val ≥ '0'.val) && decide (c.val ≤ '9'.val)) := rfl
  rw [hdigit, Bool.and_eq_true, decide_eq_true_iff, decide_eq_true_iff] at h
  have hrange : c.toNat ≤ 57 := UInt32.le_iff_toNat_le.1 h.2
  rw [← Bool.not_eq_true, isUpper_iff_toNat]
  omega

theorem namesIn_digits {digits : String} (h : isDigitText digits) : namesIn digits.toList = [digits.toList] := by
  have hne : digits.toList ≠ [] := fun hnil => by
    rw [String.toList_eq_nil_iff.1 hnil] at h
    exact absurd h (by decide)
  exact namesIn_word hne fun c hc => by simp [isNameChar, Char.isAlphanum, isDigit_of_isDigitText h c hc]

theorem isConstructor_digits {digits : String} (h : isDigitText digits) : isConstructor digits = false := by
  have hhead : headSatisfies Char.isUpper digits = false := by
    cases hdigits : digits.toList with
    | nil => rw [headSatisfies, hdigits]
    | cons c r =>
        rw [headSatisfies, hdigits]
        exact isUpper_of_isDigit (isDigit_of_isDigitText h c (hdigits ▸ List.mem_cons_self))
  rw [isConstructor, hhead, Bool.false_and]

/-- Arguments are numbers and keywords, which are no constructors. -/
theorem IsArguments.plain (h : IsArguments a) : Plain a := by
  cases h with
  | size h =>
      rw [Plain, namesIn_digits h, List.forall_mem_singleton, String.ofList_toList]
      exact isConstructor_digits h
  | @scaled precision scale hprecision hscale =>
      have hnames : namesIn (precision ++ ", " ++ scale).toList = [precision.toList, scale.toList] := by
        have hlist : (precision ++ ", " ++ scale).toList = precision.toList ++ ',' :: ' ' :: scale.toList := by
          rw [String.toList_append, String.toList_append, List.append_assoc]
          rfl
        have hplain : ∀ c ∈ precision.toList, isNameChar c := fun c hc => by
          simp [isNameChar, Char.isAlphanum, isDigit_of_isDigitText hprecision c hc]
        rw [hlist, namesIn_append_cons (closed_word hplain) (by decide), namesIn_cons (by decide),
          namesIn_digits hprecision, namesIn_digits hscale]
        rfl
      rw [Plain, hnames]
      simp [isConstructor_digits hprecision, isConstructor_digits hscale]
  | zoned => decide

theorem mentions_arrayText (n : Nat) (element : String) : Mentions name (ColumnType.arrayText n element) ↔
    (n ≠ 0 ∧ name = "ARRAY") ∨ Mentions name element := by
  induction n with
  | zero => simp [ColumnType.arrayText]
  | succ n ih =>
      rw [ColumnType.arrayText,
        mentions_applied "ARRAY" '(' ')' (by decide) (by decide) (by decide) (by decide), ih]
      tauto

theorem IsCall.mentions_callText {type : String × Option String} (h : IsCall type) (hname : isConstructor name) :
    Mentions name (callText type) ↔ name = type.1 := by
  have hword : ∀ name ∈ constructorNames, IsWord name := by decide
  rw [callText]
  cases harguments : type.2 with
  | none =>
      rw [Option.map_none, Option.getD_none, String.append_empty, Mentions,
        namesIn_word (by simpa using (hword _ h.mem).1) (hword _ h.mem).2, List.mem_singleton, String.toList_inj]
  | some arguments =>
      have hplain := (h.arguments _ harguments).plain.not_mentions hname
      rw [Option.map_some, Option.getD_some, ← String.append_assoc, ← String.append_assoc,
        mentions_applied _ '(' ')' String.toList_append rfl (hword _ h.mem) (by decide), or_iff_left hplain]

/-- The type of a column mentions its constructor, and that of arrays if it is one. -/
theorem mentions_columnType (hname : isConstructor name) :
    Mentions name (columnType c).text ↔ name ∈ (columnType c).names := by
  rw [text_columnType, mentions_arrayText, (isCall_constructorOf c).mentions_callText hname, names_columnType,
    List.mem_cons, or_comm]
  split_ifs with hflat <;> simp [hflat]

/-! ### Arguments -/

/-- The expression for a column. -/
def mappedColumn (t : Table) (c : Column) : String :=
  "mapped_column(" ++ ", ".intercalate (columnArguments t c) ++ ")"

theorem attributeText_eq (t : Table) (c : Column) : attributeText t c =
    "    " ++ attributeName c.name ++ ": Mapped[" ++ attributeType t c ++ "] = " ++ mappedColumn t c ++ "\n" := by
  rw [← String.toList_inj]
  simp [attributeText, mappedColumn]

theorem closed_append {a b : String} (ha : Closed a.toList) (hb : Closed b.toList) : Closed (a ++ b).toList := by
  rw [String.toList_append]
  exact ha.append hb

theorem closed_columnArguments (t : Table) (c : Column) : ∀ a ∈ columnArguments t c, Closed a.toList := by
  intro argument hmem
  have hflags : ∀ flag ∈ flagArguments, '"' ∉ flag.toList := by decide
  cases isArgument_of_mem argument hmem with
  | name => exact closed_stringLiteral c.name
  | type => exact closed_of_not_mem fun hquote => absurd (isTypeChar_columnType c _ hquote) (by decide)
  | flag h => exact closed_of_not_mem (hflags argument h)
  | value => exact closed_append (closed_of_not_mem (by decide)) (closed_stringLiteral _)
  | expression =>
      exact closed_append (closed_append (closed_of_not_mem (by decide)) (closed_stringLiteral _))
        (closed_of_not_mem (by decide))
  | comment => exact closed_append (closed_of_not_mem (by decide)) (closed_stringLiteral _)

theorem plain_value (text : String) : Plain ("server_default=" ++ Json.stringLiteral text) := by
  rw [Plain, namesIn_keyword "server_default" (by decide) (by decide), namesIn_stringLiteral]
  decide

theorem plain_expression (text : String) : Plain ("server_default=text(" ++ Json.stringLiteral text ++ ")") := by
  have hkey : "server_default=text(" = "server_default=" ++ "text(" := rfl
  rw [Plain, hkey, String.append_assoc, String.append_assoc,
    namesIn_keyword "server_default" (by decide) (by decide), ← String.append_assoc,
    namesIn_applied "text" '(' ')' (by decide) (by decide) (by decide) (by decide), namesIn_stringLiteral]
  decide

theorem plain_comment (text : String) : Plain ("comment=" ++ Json.stringLiteral text) := by
  rw [Plain, namesIn_keyword "comment" (by decide) (by decide), namesIn_stringLiteral]
  decide

theorem plain_columnArguments (t : Table) (c : Column) :
    ∀ a ∈ columnArguments t c, a = (columnType c).text ∨ Plain a := by
  intro argument hmem
  have hflags : ∀ flag ∈ flagArguments, Plain flag := by decide
  cases isArgument_of_mem argument hmem with
  | name => exact .inr (by simp [Plain, namesIn_stringLiteral])
  | type => exact .inl rfl
  | flag h => exact .inr (hflags argument h)
  | value => exact .inr (plain_value _)
  | expression => exact .inr (plain_expression _)
  | comment => exact .inr (plain_comment _)

theorem mentions_mappedColumn : Mentions name (mappedColumn t c) ↔
    name = "mapped_column" ∨ ∃ argument ∈ columnArguments t c, Mentions name argument := by
  rw [mappedColumn,
    mentions_applied "mapped_column" '(' ')' (by decide) (by decide) (by decide) (by decide), Mentions,
    namesIn_intercalate (closed_columnArguments t c)]
  simp only [List.mem_flatMap, Mentions]

theorem mentions_mappedColumn_iff_mem (hname : isConstructor name) :
    Mentions name (mappedColumn t c) ↔ name ∈ (columnType c).names := by
  have hfunction : name ≠ "mapped_column" := by
    rintro rfl
    exact absurd hname (by decide)
  rw [mentions_mappedColumn, or_iff_right hfunction, ← mentions_columnType hname]
  constructor
  · rintro ⟨argument, hmem, hmention⟩
    rcases plain_columnArguments t c argument hmem with rfl | hplain
    · exact hmention
    · exact absurd hmention (hplain.not_mentions hname)
  · intro hmention
    exact ⟨(columnType c).text, by simp [columnArguments], hmention⟩

/-! ### Names from the mapper -/

theorem isConstructor_names (c : Column) : ∀ name ∈ (columnType c).names, isConstructor name := by
  rw [names_columnType, List.forall_mem_cons]
  refine ⟨isConstructor_of_mem _ (isCall_constructorOf c).mem, ?_⟩
  split
  · simp
  · decide

/-- **The constructors that a class imports** are those that the expressions for its columns mention. -/
theorem mem_mapperNames_iff (hname : isConstructor name) :
    name ∈ mapperNames t ↔ ∃ c ∈ t.columns, Mentions name (mappedColumn t c) := by
  have hother : name ∉ if t.columns.any (usesText t) then ["text"] else [] := fun hmem => by
    obtain rfl : name = "text" := by simpa using (List.mem_ite_nil_right.1 hmem).2
    exact absurd hname (by decide)
  rw [mapperNames, List.mem_append, or_iff_left hother, mem_sortedSet, List.mem_flatMap]
  simp only [mentions_mappedColumn_iff_mem hname]

theorem text_not_mem (t : Table) : "text" ∉ sortedSet (t.columns.flatMap fun c => (columnType c).names) := by
  intro hmem
  obtain ⟨c, -, hc⟩ := List.mem_flatMap.1 (mem_sortedSet.1 hmem)
  exact absurd (isConstructor_names c "text" hc) (by decide)

/-- An argument that gives a default as an expression. -/
def IsTextDefault (argument : String) : Prop := "server_default=text(".toList <+: argument.toList

theorem usesText_iff : usesText t c ↔ ∃ text, serverDefault t c = some (.expression text) := by
  unfold usesText
  split <;> simp_all

theorem isTextDefault_expression (text : String) :
    IsTextDefault ("server_default=text(" ++ Json.stringLiteral text ++ ")") := by
  rw [IsTextDefault, String.append_assoc, String.toList_append]
  exact List.prefix_append _ _

theorem IsTextDefault.head? (h : IsTextDefault a) : a.toList.head? = some 's' := by
  obtain ⟨rest, hrest⟩ := h
  rw [← hrest]
  rfl

theorem head?_stringLiteral (text : String) : (Json.stringLiteral text).toList.head? = some '"' := by
  rw [Json.stringLiteral, String.toList_ofList]
  rfl

theorem not_isTextDefault_value (text : String) :
    ¬IsTextDefault ("server_default=" ++ Json.stringLiteral text) := by
  rintro ⟨rest, hrest⟩
  have hkey : "server_default=text(".toList = "server_default=".toList ++ "text(".toList := rfl
  rw [String.toList_append, hkey, List.append_assoc] at hrest
  have hhead := head?_stringLiteral text
  rw [← List.append_cancel_left hrest] at hhead
  exact absurd (Option.some.inj hhead) (by decide)

/-- No other argument looks like an expression. -/
theorem usesText_of_isTextDefault (hmem : a ∈ columnArguments t c) (h : IsTextDefault a) : usesText t c := by
  have hhead := h.head?
  have hflags : ∀ flag ∈ flagArguments, flag.toList.head? ≠ some 's' := by decide
  cases isArgument_of_mem a hmem with
  | name =>
      rw [head?_stringLiteral] at hhead
      exact absurd (Option.some.inj hhead) (by decide)
  | type =>
      have hline : '_' ∈ (columnType c).text.toList := h.subset (by decide)
      exact absurd (isTypeChar_columnType c _ hline) (by decide)
  | flag hflag => exact absurd hhead (hflags a hflag)
  | value => exact absurd h (not_isTextDefault_value _)
  | expression hdefault => exact usesText_iff.2 ⟨_, hdefault⟩
  | comment text =>
      rw [String.toList_append] at hhead
      exact absurd (Option.some.inj hhead) (by decide)

theorem text_mem_mapperNames_iff :
    "text" ∈ mapperNames t ↔ ∃ c ∈ t.columns, ∃ argument ∈ columnArguments t c, IsTextDefault argument := by
  rw [mapperNames, List.mem_append, or_iff_right (text_not_mem t), List.mem_ite_nil_right, List.any_eq_true,
    and_iff_left (List.mem_singleton_self _)]
  refine exists_congr fun c => and_congr_right fun _ => ?_
  constructor
  · intro h
    obtain ⟨text, hdefault⟩ := usesText_iff.1 h
    exact ⟨(ServerDefault.expression text).text, by simp [columnArguments, hdefault],
      isTextDefault_expression text⟩
  · rintro ⟨argument, hmem, h⟩
    exact usesText_of_isTextDefault hmem h

theorem mapperNames_only (t : Table) : ∀ name ∈ mapperNames t, isConstructor name ∨ name = "text" := by
  intro name hmem
  rcases List.mem_append.1 hmem with hset | htext
  · obtain ⟨c, -, hc⟩ := List.mem_flatMap.1 (mem_sortedSet.1 hset)
    exact .inl (isConstructor_names c name hc)
  · exact .inr (by simpa using (List.mem_ite_nil_right.1 htext).2)

theorem nodup_mapperNames (t : Table) : (mapperNames t).Nodup := by
  rw [mapperNames]
  split
  · exact (nodup_sortedSet _).append (List.nodup_singleton _) (by simpa using text_not_mem t)
  · simpa using nodup_sortedSet _

end Schemata.Entity.MappedClass
