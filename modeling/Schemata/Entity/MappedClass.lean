import Schemata.Entity.Python
import Schemata.Json
import Schemata.Sql.Default

/-! # Mapped classes in Python

A table becomes a class whose attributes are mapped to columns by an object-relational mapper.  The
type of a column is written as an expression over the type constructors of the mapper. -/

namespace Schemata.Entity.MappedClass

open Schemata.SqlType Schemata.Sql Schemata.Entity.Python

/-! ### Column types -/

/-- The type of a column: a constructor, perhaps applied to arguments, inside as many arrays as the
column has dimensions. -/
structure ColumnType where
  constructor : String
  arguments : Option String := none
  dimensions : Nat := 0
deriving DecidableEq, Repr

namespace ColumnType

/-- An expression inside `dimensions` arrays. -/
def arrayText : Nat → String → String
  | 0, element => element
  | dimensions + 1, element => "ARRAY(" ++ arrayText dimensions element ++ ")"

/-- The text of a type. -/
def text (t : ColumnType) : String :=
  arrayText t.dimensions
    (t.constructor ++ (t.arguments.map fun arguments => "(" ++ arguments ++ ")").getD "")

/-- The constructors that occur in a type. -/
def names (t : ColumnType) : List String :=
  t.constructor :: if t.dimensions = 0 then [] else ["ARRAY"]

end ColumnType

/-- The arguments for the precision and scale of a decimal number. -/
def decimalArguments (c : Column) : Option String :=
  match c.length.filter isDigitText, c.precision.filter isDigitText with
  | some precision, some scale => some (precision ++ ", " ++ scale)
  | some precision, none => some precision
  | none, _ => none

/-- Whether the name of a type speaks of a text. -/
def isTextType (rawType : String) : Bool := (Text.breakOn "text".toList rawType.toList).isSome

/-- The type constructor for text, and its argument. -/
def stringType (c : Column) : String × Option String :=
  match c.length.filter isDigitText with
  | some length => ("String", some length)
  | none => (if isTextType c.rawType then "Text" else "String", none)

/-- The type constructor for a column, and its arguments. -/
def constructorOf (c : Column) : String × Option String :=
  match Family.ofColumn c with
  | some .boolean => ("Boolean", none)
  | some .tinyInt | some .smallInt => ("SmallInteger", none)
  | some .integer => ("Integer", none)
  | some .bigInt => ("BigInteger", none)
  | some .decimal => ("Numeric", decimalArguments c)
  | some .float => ("Float", none)
  | some .double => ("Double", none)
  | some .string => stringType c
  | some .uuid => ("Uuid", none)
  | some .date => ("Date", none)
  | some .time => ("Time", none)
  | some .dateTime =>
    ("DateTime", if c.rawType = "timestamptz" then some "timezone=True" else none)
  | some .json => ("JSON", none)
  | some .binary => ("LargeBinary", none)
  | none => ("String", none)

/-- The type of a column. -/
def columnType (c : Column) : ColumnType :=
  let (constructor, arguments) := constructorOf c
  ⟨constructor, arguments, dimensions c.rawType⟩

/-! ### Defaults -/

/-- A default that the database sets. -/
inductive ServerDefault
  /-- A value, given as a string. -/
  | value (text : String)
  /-- An expression of the database. -/
  | expression (text : String)
deriving DecidableEq, Repr

/-- The default of a column: strings and numbers are values, all else stays an expression. -/
def ServerDefault.ofText (dialect : Dialect) (text : String) : ServerDefault :=
  match DefaultValue.ofText dialect text with
  | .string text => .value text
  | .number text => .value text
  | _ => .expression text

/-- The argument that gives a default. -/
def ServerDefault.text : ServerDefault → String
  | value text => "server_default=" ++ Json.stringLiteral text
  | expression text => "server_default=text(" ++ Json.stringLiteral text ++ ")"

/-- The default of a column in a table. -/
def serverDefault (t : Table) (c : Column) : Option ServerDefault :=
  c.defaultValue.map (ServerDefault.ofText t.dialect)

/-- Whether a column has an expression for a default. -/
def usesText (t : Table) (c : Column) : Bool :=
  match serverDefault t c with
  | some (.expression _) => true
  | _ => false

/-! ### Attributes -/

/-- The arguments that describe a column.  Its name is one where the attribute has another. -/
def columnArguments (t : Table) (c : Column) : List String :=
  (if attributeName c.name = c.name then [] else [Json.stringLiteral c.name]) ++
    [(columnType c).text] ++
    (if t.isPrimaryKey c.name then ["primary_key=True"] else []) ++
    (if c.autoIncrement then ["autoincrement=True"] else []) ++
    (if t.isUniqueAlone c.name then ["unique=True"] else []) ++
    ((serverDefault t c).map ServerDefault.text).toList ++
    ((t.commentFor c).map fun comment => "comment=" ++ Json.stringLiteral comment).toList

/-- The attribute for a column. -/
def attributeText (t : Table) (c : Column) : String :=
  "    " ++ attributeName c.name ++ ": Mapped[" ++ attributeType t c ++ "] = mapped_column(" ++
    ", ".intercalate (columnArguments t c) ++ ")\n"

/-! ### Imports -/

/-- The names that the attributes take from the mapper: type constructors in order, then the one
for expressions. -/
def mapperNames (t : Table) : List String :=
  sortedSet (t.columns.flatMap fun c => (columnType c).names) ++
    if t.columns.any (usesText t) then ["text"] else []

/-- The imports from the mapper. -/
def mapperImports (t : Table) : List String :=
  (match mapperNames t with
    | [] => []
    | names => ["from sqlalchemy import " ++ ", ".intercalate names]) ++
    ["from sqlalchemy.orm import DeclarativeBase, Mapped, mapped_column"]

/-- The imports and the base class. -/
def header (t : Table) : String :=
  importText [sortedSet (typeImports t), mapperImports t] ++
    "\n\nclass Base(DeclarativeBase):\n    pass\n\n\n"

/-! ### Text -/

/-- The source text of the class for a table. -/
def text (options : Options) (t : Table) : String :=
  (if options.packageLines then header t else "") ++ "class " ++ typeName t ++ "(Base):\n" ++
    classDocstring t ++ "    __tablename__ = " ++ Json.stringLiteral t.name ++ "\n" ++
    (if t.columns.isEmpty then "" else "\n") ++ String.join (t.columns.map (attributeText t))

/-- The class for a table. -/
def generate (options : Options) (t : Table) : Generated where
  code := text options t
  notices := t.columns.flatMap language.fallbackNotices

end Schemata.Entity.MappedClass
