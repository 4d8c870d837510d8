import Schemata.Entity.Generation
import Schemata.Proofs.Entity.JavaImports
import Schemata.Proofs.Entity.PythonImports
import Schemata.Proofs.Entity.PythonLines

/-! # Imports of entities

With its package lines an entity imports exactly what the rest of it needs: every import is there because a
type, an annotation or an argument of the entity mentions it, whatever is mentioned is imported, and nothing is
imported twice (`imports_exact`).  Both are said of the source text: its first lines are spelled out, and what
they are there for is shown in the rest of it. -/

namespace Schemata.Entity

open Schemata.Text

variable {options : Options} {t : Table} {c : Column} {name : String}

/-! ### Structs in Go -/

namespace Go

theorem brings_time : language.Brings "time" "time.Time" where
  families f := by cases f <;> decide
  fallback := by decide
  arrays element := by
    have harray : (language.array element).toList = '[' :: ']' :: element.toList := by
      have htext : language.array element = "[]" ++ element := rfl
      rw [htext, String.toList_append]
      rfl
    rw [Mentions, harray, namesIn_cons (by decide), namesIn_cons (by decide)]
    simp [Mentions, language]

theorem mentions_fieldType :
    Mentions name (fieldType options t c) ↔ Mentions name (language.resolve c).text := by
  have hpointer (type : String) : Mentions name ("*" ++ type) ↔ Mentions name type := by
    have htext : ("*" ++ type).toList = '*' :: type.toList := String.toList_append
    rw [Mentions, htext, namesIn_cons (by decide), Mentions]
  unfold fieldType
  dsimp only
  split
  · exact hpointer _
  · exact Iff.rfl

theorem imports_subset (t : Table) : imports t ⊆ ["time"] := by
  have htypes : language.typeImports t ⊆ ["time"] := by
    refine Language.typeImports_subset (fun f => ?_) (by decide) (by decide) t
    cases f <;> decide
  exact fun _ hmem => htypes (mem_sortedSet.1 hmem)

theorem time_mem_imports (options : Options) (t : Table) :
    "time" ∈ imports t ↔ ∃ c ∈ t.columns, Mentions "time.Time" (fieldType options t c) := by
  rw [imports, mem_sortedSet, brings_time.mem_typeImports]
  simp only [mentions_fieldType]

/-- One package is imported, or none. -/
theorem imports_of_mem (h : "time" ∈ imports t) : imports t = ["time"] := by
  have hperm : (imports t).Perm ["time"] :=
    (List.perm_ext_iff_of_nodup (nodup_sortedSet _) (List.nodup_singleton _)).2 fun entry =>
      ⟨fun hmem => imports_subset t hmem, fun hmem => List.mem_singleton.1 hmem ▸ h⟩
  exact List.perm_singleton.1 hperm

theorem imports_of_not_mem (h : "time" ∉ imports t) : imports t = [] := by
  rw [List.eq_nil_iff_forall_not_mem]
  exact fun entry hmem => h (List.mem_singleton.1 (imports_subset t hmem) ▸ hmem)

/-- The declaration of a struct with its fields. -/
def structText (gorm : Bool) (options : Options) (t : Table) : String :=
  "type " ++ typeName t ++ " struct \x7b\n" ++ String.join (t.columns.map (fieldText gorm options t)) ++ "\x7d\n"

theorem shows_structText (gorm : Bool) (options : Options) (t : Table) :
    Shows (text gorm options t) (structText gorm options t) := by
  have htext : text gorm options t = (if options.packageLines then header options t else "") ++
      ((t.comment.map fun words => comment (typeName t ++ " " ++ onOneLine words)).getD "" ++
        (structText gorm options t ++ if options.tableName then tableNameMethod t else "")) := by
    simp only [text, structText, String.append_assoc]
  rw [htext]
  exact (shows_back _ _).trans (shows_append _ _ _)

/-- The imports of a struct: the package for points in time if the type of a field mentions them, and nothing
otherwise. -/
structure ImportsNeeded (gorm : Bool) (options : Options) (t : Table) : Prop where
  imported : (∃ c ∈ t.columns, Mentions "time.Time" (fieldType options t c)) →
    (generate gorm options t).code = "package " ++ options.packageName.getD "model" ++ "\n\n" ++
      "import \"time\"\n\n" ++ (generate gorm { options with packageLines := false } t).code
  bare : (¬∃ c ∈ t.columns, Mentions "time.Time" (fieldType options t c)) →
    (generate gorm options t).code = "package " ++ options.packageName.getD "model" ++ "\n\n" ++
      (generate gorm { options with packageLines := false } t).code
  /-- The rest shows the struct, and each field with its type. -/
  shown : Shows (generate gorm { options with packageLines := false } t).code (structText gorm options t)
  declared : ∀ c, fieldText gorm options t c =
    ((t.commentFor c).map fun text => "\t" ++ comment (onOneLine text)).getD "" ++
      "\t" ++ fieldName options c.name ++ " " ++ fieldType options t c ++
      tagText (fieldTags gorm options t c) ++ "\n"

theorem code_eq (gorm : Bool) (h : options.packageLines) (t : Table) : (generate gorm options t).code =
    "package " ++ options.packageName.getD "model" ++ "\n\n" ++ importText (imports t) ++
      (generate gorm { options with packageLines := false } t).code := by
  simp only [generate, text, h, if_true, header, String.append_assoc]
  rfl

theorem importsNeeded (gorm : Bool) (h : options.packageLines) (t : Table) : ImportsNeeded gorm options t where
  imported hneeded := by
    rw [code_eq gorm h, imports_of_mem ((time_mem_imports options t).2 hneeded)]
    rfl
  bare hneeded := by
    rw [code_eq gorm h, imports_of_not_mem (mt (time_mem_imports options t).1 hneeded), importText,
      String.append_empty]
  shown := shows_structText gorm { options with packageLines := false } t
  declared _ := rfl

end Go

/-! ### Classes in Python -/

namespace Dataclass

/-- The imports of a data class: what makes it one, and what the types of its attributes mention. -/
structure ImportsNeeded (options : Options) (t : Table) : Prop where
  source : (generate options t).code =
    "\n".intercalate (imports t) ++ "\n\n\n" ++ (generate { options with packageLines := false } t).code
  /-- The rest shows the lines of the attributes with their types. -/
  shown : Shows (generate { options with packageLines := false } t).code
    (String.join (t.columns.map (attributeText t)))
  attributes : ∀ c, attributeText t c =
    "    " ++ Python.attributeName c.name ++ ": " ++ Python.attributeType t c ++
      (if t.isOptional c then " = None" else "") ++
      ((t.commentFor c).map fun comment => "  # " ++ onOneLine comment).getD "" ++ "\n"
  once : (imports t).Nodup
  always : "from dataclasses import dataclass" ∈ imports t
  types : ∀ p ∈ Python.importedTypes,
    p.1 ∈ imports t ↔ ∃ c ∈ t.columns, Mentions p.2 (Python.attributeType t c)
  only : ∀ entry ∈ imports t,
    entry = "from dataclasses import dataclass" ∨ entry ∈ Python.importedTypes.map Prod.fst

theorem header_eq (t : Table) :
    Python.importText [imports t] ++ "\n\n" = "\n".intercalate (imports t) ++ "\n\n\n" := by
  have hne : imports t ≠ [] := List.ne_nil_of_mem (mem_sortedSet.2 List.mem_cons_self)
  have hfeeds : "\n\n\n" = "\n" ++ "\n\n" := rfl
  rw [Python.importText, List.filter_cons_of_pos (by simpa using hne), List.filter_nil, List.map_singleton,
    String.intercalate_singleton, hfeeds, String.append_assoc]

theorem importsNeeded (h : options.packageLines) (t : Table) : ImportsNeeded options t where
  source := by
    simp only [generate, text, h, if_true, header_eq, String.append_assoc]
    rfl
  shown := shows_back _ _
  attributes := Python.attributeText_dataclass t
  once := nodup_sortedSet _
  always := mem_sortedSet.2 List.mem_cons_self
  types p hp := by
    have hother : p.1 ≠ "from dataclasses import dataclass" := by
      revert p
      decide
    rw [imports, mem_sortedSet, List.mem_cons, or_iff_right hother, Python.mem_typeImports_iff hp]
  only entry hmem :=
    (List.mem_cons.1 (mem_sortedSet.1 hmem)).imp_right fun hmem => Python.typeImports_subset t hmem

end Dataclass

namespace MappedClass

/-- The imports of a mapped class that do not come from the mapper. -/
def standardImports (t : Table) : List String := sortedSet (Python.typeImports t)

/-- Those imports, with an empty line after them. -/
def standardText : List String → String
  | [] => ""
  | names => "\n".intercalate names ++ "\n\n"

/-- The imports of a mapped class: what the types of its attributes mention, and what the expressions for its
columns take from the mapper. -/
structure ImportsNeeded (options : Options) (t : Table) : Prop where
  source : (generate options t).code = standardText (standardImports t) ++
    "from sqlalchemy import " ++ ", ".intercalate (mapperNames t) ++
    "\nfrom sqlalchemy.orm import DeclarativeBase, Mapped, mapped_column\n" ++
    "\n\nclass Base(DeclarativeBase):\n    pass\n\n\n" ++
    (generate { options with packageLines := false } t).code
  /-- The rest shows the lines of the attributes with their types and expressions. -/
  shown : Shows (generate { options with packageLines := false } t).code
    (String.join (t.columns.map (attributeText t)))
  attributes : ∀ c, attributeText t c = "    " ++ Python.attributeName c.name ++ ": Mapped[" ++
    Python.attributeType t c ++ "] = " ++ mappedColumn t c ++ "\n"
  once : (standardImports t).Nodup ∧ (mapperNames t).Nodup
  types : ∀ p ∈ Python.importedTypes,
    p.1 ∈ standardImports t ↔ ∃ c ∈ t.columns, Mentions p.2 (Python.attributeType t c)
  typesOnly : standardImports t ⊆ Python.importedTypes.map Prod.fst
  constructors : ∀ name, isConstructor name →
    (name ∈ mapperNames t ↔ ∃ c ∈ t.columns, Mentions name (mappedColumn t c))
  text : "text" ∈ mapperNames t ↔ ∃ c ∈ t.columns, ∃ argument ∈ columnArguments t c, IsTextDefault argument
  namesOnly : ∀ name ∈ mapperNames t, isConstructor name ∨ name = "text"

theorem mapperNames_ne_nil (h : t.columns ≠ []) : mapperNames t ≠ [] := by
  obtain ⟨c, columns, hc⟩ := List.exists_cons_of_ne_nil h
  have hmem : (columnType c).constructor ∈ t.columns.flatMap fun c => (columnType c).names :=
    List.mem_flatMap.2 ⟨c, by simp [hc], List.mem_cons_self⟩
  exact List.ne_nil_of_mem (List.mem_append_left _ (mem_sortedSet.2 hmem))

/-- Groups of imports are separated by an empty line, unless the first is left out. -/
theorem importText_standard (names : List String) (first second : String) :
    Python.importText [names, [first, second]] = standardText names ++ first ++ "\n" ++ second ++ "\n" := by
  cases names with
  | nil => simp [Python.importText, standardText]
  | cons name names => simp [Python.importText, standardText, String.append_assoc]

theorem header_eq (h : t.columns ≠ []) : header t = standardText (standardImports t) ++
    "from sqlalchemy import " ++ ", ".intercalate (mapperNames t) ++
    "\nfrom sqlalchemy.orm import DeclarativeBase, Mapped, mapped_column\n" ++
    "\n\nclass Base(DeclarativeBase):\n    pass\n\n\n" := by
  have himports : mapperImports t = ["from sqlalchemy import " ++ ", ".intercalate (mapperNames t),
      "from sqlalchemy.orm import DeclarativeBase, Mapped, mapped_column"] := by
    unfold mapperImports
    split
    · exact absurd ‹_› (mapperNames_ne_nil h)
    · rfl
  have hline : "\nfrom sqlalchemy.orm import DeclarativeBase, Mapped, mapped_column\n" =
      "\n" ++ "from sqlalchemy.orm import DeclarativeBase, Mapped, mapped_column" ++ "\n" := rfl
  rw [header, himports, importText_standard, hline]
  simp only [standardImports, String.append_assoc]

theorem importsNeeded (h : options.packageLines) (hcolumns : t.columns ≠ []) :
    ImportsNeeded options t where
  source := by
    simp only [generate, text, h, if_true, header_eq hcolumns, String.append_assoc]
    rfl
  shown := shows_back _ _
  attributes := attributeText_eq t
  once := ⟨nodup_sortedSet _, nodup_mapperNames t⟩
  types p hp := by rw [standardImports, mem_sortedSet, Python.mem_typeImports_iff hp]
  typesOnly _ hmem := Python.typeImports_subset t (mem_sortedSet.1 hmem)
  constructors _ := mem_mapperNames_iff
  text := text_mem_mapperNames_iff
  namesOnly := mapperNames_only t

end MappedClass

/-! ### All languages with imports -/

/-- What the entities for a table import. -/
structure ImportsExact (options : Options) (t : Table) : Prop where
  go : ∀ gorm, Go.ImportsNeeded gorm options t
  java : ∀ jpa, Java.ImportsNeeded jpa options t
  dataclass : Dataclass.ImportsNeeded options t
  mappedClass : MappedClass.ImportsNeeded options t

/-- **Imports are complete and minimal.** -/
theorem imports_exact (options : Options) (t : Table) (hpackage : options.packageLines)
    (hcolumns : t.columns ≠ []) : ImportsExact options t where
  go gorm := Go.importsNeeded gorm hpackage t
  java jpa := Java.importsNeeded jpa hpackage t
  dataclass := Dataclass.importsNeeded hpackage t
  mappedClass := MappedClass.importsNeeded hpackage hcolumns

/-- A table whose entities need imports of every kind. -/
def readings : Table where
  dialect := .postgresql
  name := "readings"
  columns := [{ name := "id", rawType := "bigint", notNull := true, autoIncrement := true },
    { name := "taken_at", rawType := "timestamptz", notNull := true, defaultValue := some "now()" },
    { name := "levels", rawType := "numeric[]", length := some "10", precision := some "2" }]
  primaryKeys := ["id"]

theorem imports_readings :
    ({ packageLines := true } : Options).packageLines ∧ readings.columns ≠ [] ∧
      ImportsExact { packageLines := true } readings ∧ Go.imports readings = ["time"] ∧
      MappedClass.mapperNames readings = ["ARRAY", "BigInteger", "DateTime", "Numeric", "text"] :=
  ⟨rfl, by decide, imports_exact _ _ rfl (by decide), by decide +kernel, by decide +kernel⟩

end Schemata.Entity
