import Schemata.Entity.Identifier
import Schemata.Entity.Language
import Schemata.Entity.Options
import Schemata.Json

/-! # Entities in Java

A table becomes a class with private fields and accessors.  The idiom of an object-relational mapper
annotates the class and its fields. -/

namespace Schemata.Entity.Java

open Schemata.SqlType Schemata.Text Schemata.Naming

/-! ### Types and names -/

/-- The types of Java, all of which can hold null. -/
def language : Language where
  ofFamily
    | .boolean => ⟨"Boolean", none⟩
    | .tinyInt | .smallInt | .integer => ⟨"Integer", none⟩
    | .bigInt => ⟨"Long", none⟩
    | .decimal => ⟨"BigDecimal", some "java.math.BigDecimal"⟩
    | .float => ⟨"Float", none⟩
    | .double => ⟨"Double", none⟩
    | .string | .json => ⟨"String", none⟩
    | .uuid => ⟨"UUID", some "java.util.UUID"⟩
    | .date => ⟨"LocalDate", some "java.time.LocalDate"⟩
    | .time => ⟨"LocalTime", some "java.time.LocalTime"⟩
    | .dateTime => ⟨"LocalDateTime", some "java.time.LocalDateTime"⟩
    | .binary => ⟨"byte[]", none⟩
  fallback := ⟨"String", none⟩
  array element := "List<" ++ element ++ ">"
  arrayImport := some "java.util.List"

/-- The words that are no identifiers. -/
def reservedWords : List String :=
  ["abstract", "assert", "boolean", "break", "byte", "case", "catch", "char", "class", "const",
    "continue", "default", "do", "double", "else", "enum", "extends", "false", "final", "finally",
    "float", "for", "goto", "if", "implements", "import", "instanceof", "int", "interface", "long",
    "native", "new", "null", "package", "private", "protected", "public", "return", "short",
    "static", "strictfp", "super", "switch", "synchronized", "this", "throw", "throws",
    "transient", "true", "try", "void", "volatile", "while", "var", "record", "yield"]

/-- The name of the field for a column. -/
def fieldName (options : Options) (columnName : String) : String :=
  safeIdentifier reservedWords (Entity.fieldName options.camelCase columnName)

/-- The type of the field for a column. -/
def fieldType (c : Column) : String := (language.resolve c).text

/-! ### Annotations -/

/-- An annotation of a field. -/
inductive Annotation
  | id
  | generatedValue
  | column (attributes : List (String × String))
deriving DecidableEq, Repr

/-- The text of an annotation. -/
def Annotation.text : Annotation → String
  | id => "@Id"
  | generatedValue => "@GeneratedValue(strategy = GenerationType.IDENTITY)"
  | column attributes =>
    "@Column(" ++ ", ".intercalate (attributes.map fun (key, value) => key ++ " = " ++ value) ++ ")"

/-- An attribute whose value is a number, if the text is one. -/
def numberAttribute (key : String) (text : Option String) : List (String × String) :=
  ((text.filter isDigitText).map fun digits => (key, digits)).toList

/-- The attributes for the type parameters of a column. -/
def sizeAttributes (c : Column) : List (String × String) :=
  match Family.ofColumn c with
  | some .string => if fieldType c = "String" then numberAttribute "length" c.length else []
  | some .decimal => numberAttribute "precision" c.length ++ numberAttribute "scale" c.precision
  | _ => []

/-- The attributes that describe a column. -/
def columnAttributes (t : Table) (c : Column) : List (String × String) :=
  [("name", Json.stringLiteral c.name)] ++
    (if t.isOptional c then [] else [("nullable", "false")]) ++
    (if t.isUniqueAlone c.name then [("unique", "true")] else []) ++ sizeAttributes c

/-- The annotations of the field for a column. -/
def annotations (t : Table) (c : Column) : List Annotation :=
  (if t.isPrimaryKey c.name then [.id] else []) ++
    (if c.autoIncrement then [.generatedValue] else []) ++ [.column (columnAttributes t c)]

/-- A name in the package of the annotations. -/
def annotationImport (name : String) : String := "jakarta.persistence." ++ name

/-- What an annotation needs to be imported. -/
def Annotation.imports : Annotation → List String
  | id => [annotationImport "Id"]
  | generatedValue => [annotationImport "GeneratedValue", annotationImport "GenerationType"]
  | column _ => [annotationImport "Column"]

/-! ### Imports -/

/-- What the annotations of the class and its fields need; those of a class without fields include
that of columns. -/
def annotationImports (options : Options) (t : Table) : List String :=
  [annotationImport "Column", annotationImport "Entity"] ++
    (if options.tableName then [annotationImport "Table"] else []) ++
    t.columns.flatMap fun c => (annotations t c).flatMap Annotation.imports

/-- The imports in order. -/
def imports (jpa : Bool) (options : Options) (t : Table) : List String :=
  sortedSet (language.typeImports t ++ if jpa then annotationImports options t else [])

/-- The import declarations, with an empty line after them. -/
def importText : List String → String
  | [] => ""
  | names => String.join (names.map fun name => "import " ++ name ++ ";\n") ++ "\n"

/-- The package declaration and the imports. -/
def header (jpa : Bool) (options : Options) (t : Table) : String :=
  "package " ++ options.packageName.getD "com.example.entity" ++ ";\n\n" ++
    importText (imports jpa options t)

/-! ### Text -/

/-- A comment inside a documentation block, which it must not end. -/
def javadocText (comment : String) : String := replaceText "*/" "*&#47;" (onOneLine comment)

/-- The documentation of the class. -/
def classDoc (comment : String) : String := "/**\n * " ++ javadocText comment ++ "\n */\n"

/-- The documentation of a field. -/
def fieldDoc (comment : String) : String := "    /** " ++ javadocText comment ++ " */\n"

/-- The field for a column. -/
def fieldText (jpa : Bool) (options : Options) (t : Table) (c : Column) : String :=
  "\n" ++ ((t.commentFor c).map fieldDoc).getD "" ++
    (if jpa then String.join ((annotations t c).map fun a => "    " ++ a.text ++ "\n") else "") ++
    "    private " ++ fieldType c ++ " " ++ fieldName options c.name ++ ";\n"

/-- The method that gives the value of a field, and the one that sets it. -/
def accessorText (options : Options) (c : Column) : String :=
  let name := fieldName options c.name
  let type := fieldType c
  "\n    public " ++ type ++ " get" ++ capitalize name ++ "() \x7b\n        return " ++ name ++
    ";\n    \x7d\n" ++
    "\n    public void set" ++ capitalize name ++ "(" ++ type ++ " " ++ name ++
    ") \x7b\n        this." ++ name ++ " = " ++ name ++ ";\n    \x7d\n"

/-- The annotations of the class. -/
def classAnnotations (options : Options) (t : Table) : String :=
  "@Entity\n" ++
    if options.tableName then "@Table(name = " ++ Json.stringLiteral t.name ++ ")\n" else ""

/-- The constant that holds the table name. -/
def tableNameConstant (t : Table) : String :=
  "\n    public static final String TABLE_NAME = " ++ Json.stringLiteral t.name ++ ";\n"

/-- The source text of the class for a table. -/
def text (jpa : Bool) (options : Options) (t : Table) : String :=
  (if options.packageLines then header jpa options t else "") ++
    (t.comment.map classDoc).getD "" ++
    (if jpa then classAnnotations options t else "") ++
    "public class " ++ typeName t ++ " \x7b\n" ++
    (if !jpa && options.tableName then tableNameConstant t else "") ++
    String.join (t.columns.map (fieldText jpa options t)) ++
    (if options.getterSetter then String.join (t.columns.map (accessorText options)) else "") ++
    "\x7d\n"

/-- The notice on a primary key of several columns, for which the mapper needs a class of its
own. -/
def compositeNotices (jpa : Bool) (t : Table) : List Notice :=
  if jpa && 1 < t.distinctPrimaryKeys.length then [.compositeKey t.name (typeName t)] else []

/-- The class for a table. -/
def generate (jpa : Bool) (options : Options) (t : Table) : Generated where
  code := text jpa options t
  notices := t.columns.flatMap language.fallbackNotices ++ compositeNotices jpa t

end Schemata.Entity.Java
