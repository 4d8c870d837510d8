import Schemata.Entity.Java
import Schemata.Proofs.Entity.BlockComments
import Schemata.Proofs.Entity.FieldNames
import Schemata.Proofs.Entity.TypeImports

/-! # Imports of classes in Java

A class imports what the types of its fields mention and what its annotations are written with, each once
(`importsNeeded`).  An annotation stands on a line of its own, so that what a comment says is never taken for
one (`hasLine_fieldText`).  The source shows the imports line by line, and the lines that they are there for:
those that declare the fields, and those of the annotations. -/

namespace Schemata.Entity.Java

open Schemata.Text

variable {jpa : Bool} {options : Options} {t : Table} {c : Column} {line a entry : String}

/-! ### Lines of a source text -/

/-- A text has a line, which ends where the next line feed or the text ends. -/
def HasLine (line source : String) : Prop := line.toList ∈ source.toList.splitOn '\n'

theorem hasLine_append (a b : String) : HasLine line (a ++ "\n" ++ b) ↔ HasLine line a ∨ HasLine line b := by
  have hfeed : (a ++ "\n" ++ b).toList = a.toList ++ '\n' :: b.toList := by
    simp only [String.toList_append, List.append_assoc]
    rfl
  rw [HasLine, hfeed, List.splitOn_eq_splitOnP, List.splitOnP_append_cons _ _ (by simp), List.mem_append]
  rfl

theorem hasLine_iff_eq (ha : '\n' ∉ a.toList) : HasLine line a ↔ line = a := by
  rw [HasLine, List.splitOn_eq_singleton ha, List.mem_singleton, String.toList_inj]

/-- The lines of a text that is put together from lines. -/
theorem hasLine_join {lines : List String} (h : ∀ l ∈ lines, '\n' ∉ l.toList) :
    HasLine line (String.join (lines.map (· ++ "\n"))) ↔ line ∈ lines ∨ line = "" := by
  induction lines with
  | nil => exact (hasLine_iff_eq (by decide)).trans (by simp)
  | cons first lines ih =>
      obtain ⟨hfirst, hlines⟩ := List.forall_mem_cons.1 h
      rw [List.map_cons, String.join_cons, hasLine_append, hasLine_iff_eq hfirst, ih hlines, List.mem_cons,
        or_assoc]

/-! ### Lines of a field -/

/-- The line that documents a field. -/
def docLine (comment : String) : String := "    /** " ++ javadocText comment ++ " */"

/-- The line that declares a field. -/
def declarationLine (options : Options) (c : Column) : String :=
  "    private " ++ fieldType c ++ " " ++ fieldName options c.name ++ ";"

/-- The lines of the field for a column. -/
def fieldLines (jpa : Bool) (options : Options) (t : Table) (c : Column) : List String :=
  [""] ++ ((t.commentFor c).map docLine).toList ++
    (if jpa then (annotations t c).map ("    " ++ ·.text) else []) ++ [declarationLine options c]

theorem fieldDoc_eq_line (comment : String) : fieldDoc comment = docLine comment ++ "\n" := by
  have hclosing : " */\n" = " */" ++ "\n" := rfl
  rw [fieldDoc, docLine, hclosing, ← String.append_assoc]

theorem fieldText_eq (jpa : Bool) (options : Options) (t : Table) (c : Column) :
    fieldText jpa options t c = String.join ((fieldLines jpa options t c).map (· ++ "\n")) := by
  have hdoc : ((t.commentFor c).map fieldDoc).getD "" =
      String.join (((t.commentFor c).map docLine).toList.map (· ++ "\n")) := by
    cases t.commentFor c with
    | none => rfl
    | some comment => simp [fieldDoc_eq_line]
  have hannotations :
      (if jpa then String.join ((annotations t c).map fun a => "    " ++ a.text ++ "\n") else "") =
        String.join ((if jpa then (annotations t c).map ("    " ++ ·.text) else []).map (· ++ "\n")) := by
    cases jpa
    · rfl
    · simp [Function.comp_def]
  have hdeclaration : "    private " ++ fieldType c ++ " " ++ fieldName options c.name ++ ";\n" =
      declarationLine options c ++ "\n" := by
    have hend : ";\n" = ";" ++ "\n" := rfl
    rw [declarationLine, hend, ← String.append_assoc]
  rw [fieldText, hdoc, hannotations, fieldLines]
  simp only [List.map_append, String.join_append, List.map_singleton, ← hdeclaration, String.append_assoc]
  simp

theorem feed_not_mem_javadocText (comment : String) : '\n' ∉ (javadocText comment).toList := by
  have hstyle : classStyle ∈ docStyles := by simp [docStyles]
  exact ((isSound_of_mem_docStyles hstyle).encloses comment).line

theorem isTypeNameChar_fieldType (c : Column) : ∀ x ∈ (fieldType c).toList, isTypeNameChar x := by
  refine Language.forall_mem_resolve (fun family => ?_) (by decide) (fun element helement => ?_) c
  · cases family <;> decide
  · have harray : language.array element = "List<" ++ element ++ ">" := rfl
    simp only [harray, isTypeNameChar_append]
    exact ⟨⟨by decide, helement⟩, by decide⟩

theorem feed_not_mem_declarationLine (options : Options) (c : Column) :
    '\n' ∉ (declarationLine options c).toList := by
  have hname : '\n' ∉ (fieldName options c.name).toList := fun hmem =>
    absurd (isIdentifierChar_safeIdentifier _ _ _ hmem) (by decide)
  have htype : '\n' ∉ (fieldType c).toList :=
    not_mem_of_isTypeNameChar (isTypeNameChar_fieldType c) (by decide)
  simp only [declarationLine, feed_not_mem_append]
  exact ⟨⟨⟨⟨by decide, htype⟩, by decide⟩, hname⟩, by decide⟩

theorem feed_not_mem_numberAttribute {key : String} (hkey : '\n' ∉ key.toList) (o : Option String) :
    ∀ p ∈ numberAttribute key o, '\n' ∉ (p.1 ++ " = " ++ p.2).toList := by
  intro p hp
  obtain ⟨digits, hdigits, rfl⟩ := Option.map_eq_some_iff.1 (Option.mem_toList.1 hp)
  simp only [feed_not_mem_append]
  exact ⟨⟨hkey, by decide⟩, feed_not_mem_of_filter hdigits⟩

theorem feed_not_mem_sizeAttributes (c : Column) :
    ∀ p ∈ sizeAttributes c, '\n' ∉ (p.1 ++ " = " ++ p.2).toList := by
  unfold sizeAttributes
  split
  · split
    · exact feed_not_mem_numberAttribute (by decide) _
    · simp
  · rw [List.forall_mem_append]
    exact ⟨feed_not_mem_numberAttribute (by decide) _, feed_not_mem_numberAttribute (by decide) _⟩
  · simp

theorem feed_not_mem_columnAttributes (t : Table) (c : Column) :
    ∀ p ∈ columnAttributes t c, '\n' ∉ (p.1 ++ " = " ++ p.2).toList := by
  have hname : '\n' ∉ ("name" ++ " = " ++ Json.stringLiteral c.name).toList :=
    feed_not_mem_append.2 ⟨by decide, feed_not_mem_stringLiteral c.name⟩
  simp only [columnAttributes, List.forall_mem_append]
  refine ⟨⟨⟨by simpa using hname, ?_⟩, ?_⟩, feed_not_mem_sizeAttributes c⟩
  · cases t.isOptional c <;> decide
  · cases t.isUniqueAlone c.name <;> decide

theorem feed_not_mem_annotations (t : Table) (c : Column) : ∀ a ∈ annotations t c, '\n' ∉ a.text.toList := by
  have hattributes := feed_not_mem_intercalate (List.forall_mem_map.2 (feed_not_mem_columnAttributes t c))
  have hcolumn : '\n' ∉ (.column (columnAttributes t c) : Annotation).text.toList := by
    simp only [feed_not_mem_append, Annotation.text]
    exact ⟨⟨by decide, hattributes⟩, by decide⟩
  simp only [annotations, List.forall_mem_append, List.forall_mem_singleton]
  refine ⟨⟨?_, ?_⟩, hcolumn⟩
  · cases t.isPrimaryKey c.name <;> decide
  · cases c.autoIncrement <;> decide

theorem feed_not_mem_fieldLines (jpa : Bool) (options : Options) (t : Table) (c : Column) :
    ∀ l ∈ fieldLines jpa options t c, '\n' ∉ l.toList := by
  simp only [fieldLines, List.forall_mem_append, List.forall_mem_singleton]
  refine ⟨⟨⟨by decide, ?_⟩, ?_⟩, feed_not_mem_declarationLine options c⟩
  · cases t.commentFor c with
    | none => simp
    | some comment =>
        have hdoc : '\n' ∉ (docLine comment).toList := by
          simp only [docLine, feed_not_mem_append]
          exact ⟨⟨by decide, feed_not_mem_javadocText comment⟩, by decide⟩
        simpa using hdoc
  · cases jpa with
    | false => simp
    | true =>
        rw [if_pos rfl, List.forall_mem_map]
        exact fun a ha => feed_not_mem_append.2 ⟨by decide, feed_not_mem_annotations t c a ha⟩

/-- What a line starts with after four blanks. -/
def afterIndent (line : String) : Option Char := (line.toList.drop 4).head?

theorem afterIndent_append (a : String) : afterIndent ("    " ++ a) = a.toList.head? := by
  rw [afterIndent, String.toList_append]
  rfl

theorem afterIndent_docLine (comment : String) : afterIndent (docLine comment) = some '/' := by
  rw [afterIndent, docLine, String.toList_append, String.toList_append]
  rfl

theorem afterIndent_declarationLine (options : Options) (c : Column) :
    afterIndent (declarationLine options c) = some 'p' := by
  simp only [afterIndent, declarationLine, String.toList_append, List.append_assoc]
  rfl

/-- **The annotations of a field** are lines of its text, and no other line looks like one. -/
theorem hasLine_fieldText (ha : a.toList.head? = some '@') :
    HasLine ("    " ++ a) (fieldText jpa options t c) ↔ jpa ∧ ∃ b ∈ annotations t c, b.text = a := by
  have hindent : afterIndent ("    " ++ a) = some '@' := (afterIndent_append a).trans ha
  have hblank : "    " ++ a ≠ "" := by simp
  have hdoc (comment : String) : docLine comment ≠ "    " ++ a := fun he => by
    rw [← he, afterIndent_docLine] at hindent
    exact absurd hindent (by decide)
  have hdeclaration : "    " ++ a ≠ declarationLine options c := fun he => by
    rw [he, afterIndent_declarationLine] at hindent
    exact absurd hindent (by decide)
  rw [fieldText_eq, hasLine_join (feed_not_mem_fieldLines jpa options t c), or_iff_left hblank, fieldLines]
  cases jpa <;> simp [hdoc, hdeclaration]

/-! ### Imports of types -/

/-- What is imported for types, and the name that it is imported for. -/
def importedTypes : List (String × String) :=
  [("java.math.BigDecimal", "BigDecimal"), ("java.util.UUID", "UUID"), ("java.time.LocalDate", "LocalDate"),
    ("java.time.LocalTime", "LocalTime"), ("java.time.LocalDateTime", "LocalDateTime"),
    ("java.util.List", "List")]

theorem brings_of_mem {p : String × String} (hp : p ∈ importedTypes) : language.Brings p.1 p.2 where
  families f := by
    revert p
    cases f <;> decide
  fallback := by
    revert p
    decide
  arrays element := by
    refine (mentions_applied "List" '<' '>' (by decide) (by decide) (by decide) (by decide)).trans ?_
    refine or_congr_left ?_
    revert p
    decide

theorem typeImports_subset (t : Table) : language.typeImports t ⊆ importedTypes.map Prod.fst := by
  refine Language.typeImports_subset (fun f => ?_) (by decide) (by decide) t
  cases f <;> decide

/-! ### Imports of annotations -/

/-- What is imported for the annotations that every class and its fields have. -/
def classAnnotationImports : List String := ["jakarta.persistence.Column", "jakarta.persistence.Entity"]

/-- What is imported for some fields only, and the text that each is imported for. -/
def fieldAnnotations : List (String × String) :=
  [("jakarta.persistence.Id", "@Id"),
    ("jakarta.persistence.GeneratedValue", "@GeneratedValue(strategy = GenerationType.IDENTITY)"),
    ("jakarta.persistence.GenerationType", "@GeneratedValue(strategy = GenerationType.IDENTITY)")]

/-- All that is imported for annotations. -/
def importedAnnotations : List String :=
  classAnnotationImports ++ "jakarta.persistence.Table" :: fieldAnnotations.map Prod.fst

/-- What is imported for annotations is imported for no type. -/
theorem not_mem_importedTypes : ∀ entry ∈ importedAnnotations, entry ∉ importedTypes.map Prod.fst := by
  decide

theorem imports_subset_fieldAnnotations (a : Annotation) :
    a.imports ⊆ "jakarta.persistence.Column" :: fieldAnnotations.map Prod.fst := by
  cases a with
  | id => decide
  | generatedValue => decide
  | column attributes =>
      have hcolumn : (.column attributes : Annotation).imports = ["jakarta.persistence.Column"] := rfl
      rw [hcolumn]
      decide

theorem annotationImports_subset (options : Options) (t : Table) :
    annotationImports options t ⊆ importedAnnotations := by
  have hclass : [annotationImport "Column", annotationImport "Entity"] ++
      (if options.tableName then [annotationImport "Table"] else []) ⊆ importedAnnotations := by
    split <;> decide
  refine List.append_subset.2 ⟨hclass, ?_⟩
  intro entry hentry
  obtain ⟨c, -, hc⟩ := List.mem_flatMap.1 hentry
  obtain ⟨a, -, ha⟩ := List.mem_flatMap.1 hc
  have hfields : "jakarta.persistence.Column" :: fieldAnnotations.map Prod.fst ⊆ importedAnnotations := by decide
  exact hfields (imports_subset_fieldAnnotations a ha)

/-- A field needs an import for its annotations exactly if it has the one that is written with the name. -/
theorem mem_imports_iff_text {p : String × String} (hp : p ∈ fieldAnnotations) (a : Annotation) :
    p.1 ∈ a.imports ↔ a.text = p.2 := by
  cases a with
  | id =>
      revert p
      decide
  | generatedValue =>
      revert p
      decide
  | column attributes =>
      have hplain : ∀ p ∈ fieldAnnotations, p.1 ∉ ["jakarta.persistence.Column"] ∧ 'C' ∉ p.2.toList := by decide
      have htext : 'C' ∈ (.column attributes : Annotation).text.toList := by
        simp only [String.toList_append, Annotation.text]
        exact List.mem_append_left _ (List.mem_append_left _ (by decide))
      exact iff_of_false (hplain p hp).1 fun he => (hplain p hp).2 (he ▸ htext)

theorem mem_imports_type {p : String × String} (hp : p ∈ importedTypes) :
    p.1 ∈ imports jpa options t ↔ ∃ c ∈ t.columns, Mentions p.2 (fieldType c) := by
  have hother : p.1 ∉ if jpa then annotationImports options t else [] := by
    intro hmem
    split at hmem
    · exact not_mem_importedTypes p.1 (annotationImports_subset options t hmem) (List.mem_map_of_mem hp)
    · simp at hmem
  rw [imports, mem_sortedSet, List.mem_append, or_iff_left hother, (brings_of_mem hp).mem_typeImports]
  rfl

theorem mem_imports_annotations (h : entry ∈ importedAnnotations) :
    entry ∈ imports jpa options t ↔ jpa ∧ entry ∈ annotationImports options t := by
  have hother : entry ∉ language.typeImports t := fun hmem =>
    not_mem_importedTypes entry h (typeImports_subset t hmem)
  rw [imports, mem_sortedSet, List.mem_append, or_iff_right hother]
  cases jpa <;> simp

theorem mem_imports_class (h : entry ∈ classAnnotationImports) : entry ∈ imports jpa options t ↔ jpa := by
  rw [mem_imports_annotations (List.mem_append_left _ h), and_iff_left]
  exact List.mem_append_left _ (List.mem_append_left _ h)

theorem mem_imports_field {p : String × String} (hp : p ∈ fieldAnnotations) :
    p.1 ∈ imports jpa options t ↔ ∃ c ∈ t.columns, HasLine ("    " ++ p.2) (fieldText jpa options t c) := by
  have hhead : p.2.toList.head? = some '@' := by
    revert p
    decide
  have hclass : p.1 ∉ [annotationImport "Column", annotationImport "Entity"] ++
      if options.tableName then [annotationImport "Table"] else [] := by
    revert p
    cases options.tableName <;> decide
  have hmem : p.1 ∈ importedAnnotations :=
    List.mem_append_right _ (List.mem_cons_of_mem _ (List.mem_map_of_mem hp))
  rw [mem_imports_annotations hmem, annotationImports, List.mem_append, or_iff_right hclass]
  simp only [List.mem_flatMap, mem_imports_iff_text hp, hasLine_fieldText hhead]
  cases jpa <;> simp

/-- The line of the class for the name of its table. -/
def tableLine (t : Table) : String := "@Table(name = " ++ Json.stringLiteral t.name ++ ")"

theorem hasLine_classAnnotations : HasLine (tableLine t) (classAnnotations options t) ↔ options.tableName := by
  have hfeed : '\n' ∉ (tableLine t).toList := by
    simp only [tableLine, feed_not_mem_append]
    exact ⟨⟨by decide, feed_not_mem_stringLiteral t.name⟩, by decide⟩
  have htext : classAnnotations options t = String.join
      ((["@Entity"] ++ if options.tableName then [tableLine t] else []).map (· ++ "\n")) := by
    have hend : "@Table(name = " ++ Json.stringLiteral t.name ++ ")\n" = tableLine t ++ "\n" := by
      rw [tableLine, String.append_assoc, String.append_assoc, String.append_assoc]
      rfl
    rw [classAnnotations, hend]
    split <;> simp
  have hbracket : '(' ∈ (tableLine t).toList := by
    simp only [tableLine, String.toList_append]
    exact List.mem_append_left _ (List.mem_append_left _ (by decide))
  have hline : tableLine t ≠ "@Entity" ∧ tableLine t ≠ "" := by
    constructor <;> intro he <;> rw [he] at hbracket <;> exact absurd hbracket (by decide)
  rw [htext, hasLine_join, or_iff_left hline.2]
  · cases options.tableName <;> simp [hline.1]
  · rw [List.forall_mem_append, List.forall_mem_singleton]
    refine ⟨by decide, ?_⟩
    split <;> simp [hfeed]

theorem mem_imports_table : "jakarta.persistence.Table" ∈ imports jpa options t ↔
    jpa ∧ HasLine (tableLine t) (classAnnotations options t) := by
  have hfields : "jakarta.persistence.Table" ∉
      t.columns.flatMap fun c => (annotations t c).flatMap (·.imports) := by
    intro hmem
    obtain ⟨c, -, hc⟩ := List.mem_flatMap.1 hmem
    obtain ⟨a, -, ha⟩ := List.mem_flatMap.1 hc
    exact absurd (imports_subset_fieldAnnotations a ha) (by decide)
  have htable : "jakarta.persistence.Table" ∈ [annotationImport "Column", annotationImport "Entity"] ++
      (if options.tableName then [annotationImport "Table"] else []) ↔ options.tableName := by
    cases options.tableName <;> decide
  rw [mem_imports_annotations (by decide), annotationImports, List.mem_append, or_iff_left hfields, htable,
    hasLine_classAnnotations]

/-! ### Imports of a class -/

/-- The imports of a class: each is listed once, and they are what the types of its fields and its annotations
need. -/
structure ImportsNeeded (jpa : Bool) (options : Options) (t : Table) : Prop where
  /-- A line for each import, and an empty line if there are any, come after the package. -/
  source : (generate jpa options t).code =
    "package " ++ options.packageName.getD "com.example.entity" ++ ";\n\n" ++
      String.join ((imports jpa options t).map fun name => "import " ++ name ++ ";\n") ++
      (if imports jpa options t = [] then "" else "\n") ++
      (generate jpa { options with packageLines := false } t).code
  once : (imports jpa options t).Nodup
  types : ∀ p ∈ importedTypes,
    p.1 ∈ imports jpa options t ↔ ∃ c ∈ t.columns, Mentions p.2 (fieldType c)
  fields : ∀ p ∈ fieldAnnotations, p.1 ∈ imports jpa options t ↔
    ∃ c ∈ t.columns, HasLine ("    " ++ p.2) (fieldText jpa options t c)
  table : "jakarta.persistence.Table" ∈ imports jpa options t ↔
    jpa ∧ HasLine (tableLine t) (classAnnotations options t)
  always : ∀ entry ∈ classAnnotationImports, entry ∈ imports jpa options t ↔ jpa
  only : ∀ entry ∈ imports jpa options t, entry ∈ importedTypes.map Prod.fst ∨
    jpa ∧ entry ∈ importedAnnotations
  /-- The source shows the annotations of the class. -/
  annotated : jpa → Shows (generate jpa { options with packageLines := false } t).code (classAnnotations options t)
  /-- It shows the fields for the columns, in order. -/
  shown : Shows (generate jpa { options with packageLines := false } t).code
    (String.join (t.columns.map (fieldText jpa options t)))
  /-- The type of a field stands in the line that declares it. -/
  declared : ∀ c, HasLine ("    private " ++ fieldType c ++ " " ++ fieldName options c.name ++ ";")
    (fieldText jpa options t c)

theorem importText_eq (names : List String) : importText names =
    String.join (names.map fun name => "import " ++ name ++ ";\n") ++ if names = [] then "" else "\n" := by
  cases names with
  | nil => rfl
  | cons name names => rfl

theorem shows_classAnnotations (options : Options) (t : Table) :
    Shows (text true options t) (classAnnotations options t) := by
  simp only [text, if_true, String.append_assoc]
  exact (shows_back _ _).trans (shows_append _ _ _)

theorem hasLine_declarationLine (c : Column) :
    HasLine (declarationLine options c) (fieldText jpa options t c) := by
  rw [fieldText_eq, hasLine_join (feed_not_mem_fieldLines jpa options t c), fieldLines]
  exact .inl (List.mem_append_right _ (List.mem_singleton_self _))

theorem importsNeeded (jpa : Bool) (h : options.packageLines) (t : Table) : ImportsNeeded jpa options t where
  source := by
    simp only [generate, text, h, if_true, header, importText_eq, String.append_assoc]
    rfl
  once := nodup_sortedSet _
  types _ := mem_imports_type
  fields _ := mem_imports_field
  table := mem_imports_table
  always _ := mem_imports_class
  only entry hentry := by
    rw [imports, mem_sortedSet, List.mem_append] at hentry
    refine hentry.imp (fun hmem => typeImports_subset t hmem) fun hmem => ?_
    cases jpa with
    | false => simp at hmem
    | true => exact ⟨rfl, annotationImports_subset options t hmem⟩
  annotated := by
    rintro rfl
    exact shows_classAnnotations { options with packageLines := false } t
  shown := shows_fieldTexts jpa { options with packageLines := false } t
  declared := hasLine_declarationLine

end Schemata.Entity.Java
