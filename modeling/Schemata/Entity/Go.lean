import Schemata.Entity.Identifier
import Schemata.Entity.Language
import Schemata.Entity.Options

/-! # Entities in Go

A table becomes a struct whose fields carry tags.  The idiom of an object-relational mapper adds a
`gorm` tag that describes the column. -/

namespace Schemata.Entity.Go

open Schemata.SqlType Schemata.Text Schemata.Naming

/-! ### Types and names -/

/-- The types of Go. -/
def language : Language where
  ofFamily
    | .boolean => ⟨"bool", none⟩
    | .tinyInt => ⟨"int8", none⟩
    | .smallInt => ⟨"int16", none⟩
    | .integer => ⟨"int32", none⟩
    | .bigInt => ⟨"int64", none⟩
    | .decimal | .double => ⟨"float64", none⟩
    | .float => ⟨"float32", none⟩
    | .string | .uuid | .json => ⟨"string", none⟩
    | .date | .time | .dateTime => ⟨"time.Time", some "time"⟩
    | .binary => ⟨"[]byte", none⟩
  fallback := ⟨"string", none⟩
  array := ("[]" ++ ·)

/-- The words that are written in upper case throughout. -/
def initialisms : List String :=
  ["acl", "api", "ascii", "cpu", "css", "dns", "eof", "guid", "html", "http", "https", "id", "ip",
    "json", "lhs", "qps", "ram", "rhs", "rpc", "sla", "smtp", "sql", "ssh", "tcp", "tls", "ttl",
    "udp", "ui", "uid", "uri", "url", "utf8", "uuid", "vm", "xml"]

/-- A word as a part of an exported name. -/
def exportedWord (word : String) : String :=
  if initialisms.contains word then upper word else capitalize word

/-- A name that starts with a letter: an `X` is put before one that does not. -/
def startingWithLetter (name : String) : String :=
  if headSatisfies isAlphabetic name then name else "X" ++ name

/-- The exported name that the words of an identifier make. -/
def exportedName (identifier : String) : String :=
  startingWithLetter (String.join ((words identifier).map exportedWord))

/-- The name of the field for a column. -/
def fieldName (options : Options) (columnName : String) : String :=
  if options.camelCase then exportedName columnName
  else startingWithLetter (capitalize (sanitize columnName))

/-- The type of the field for a column.  A slice can be null by itself and needs no pointer. -/
def fieldType (options : Options) (t : Table) (c : Column) : String :=
  let type := (language.resolve c).text
  if options.nullablePointers && t.isOptional c && !("[]".toList.isPrefixOf type.toList) then
    "*" ++ type
  else type

/-! ### Tags -/

/-- What stands for a character in the value of a tag: quotes, semicolons and line breaks are
replaced, because they would end the value or a part of it. -/
def tagChar (c : Char) : Char :=
  if c = '"' ∨ c = '\x60' then '\''
  else if c = ';' then ','
  else if c = '\n' ∨ c = '\r' then ' '
  else c

/-- A text in the value of a tag. -/
def tagValue (text : String) : String := String.ofList (text.toList.map tagChar)

/-- The parts of the tag that describes a column to the mapper. -/
def gormParts (t : Table) (c : Column) : List String :=
  let primary := t.isPrimaryKey c.name
  ["column:" ++ tagValue c.name] ++
    (if primary then ["primaryKey"] else []) ++
    (if c.autoIncrement then ["autoIncrement"] else []) ++
    (c.typeParams.map fun params => "type:" ++ c.rawType ++ params).toList ++
    (if c.notNull && !primary then ["not null"] else []) ++
    (if t.isUniqueAlone c.name then ["unique"] else []) ++
    (c.defaultValue.map fun text => "default:" ++ tagValue text).toList ++
    ((t.commentFor c).map fun text => "comment:" ++ tagValue text).toList

/-- The value of that tag. -/
def gormTag (t : Table) (c : Column) : String := ";".intercalate (gormParts t c)

/-- The keys and values of the tags of a field. -/
def fieldTags (gorm : Bool) (options : Options) (t : Table) (c : Column) :
    List (String × String) :=
  (if gorm then [("gorm", gormTag t c)] else []) ++
    if options.jsonTag then [("json", tagValue c.name)] else []

/-- The tags between back quotes; nothing if there are none. -/
def tagText : List (String × String) → String
  | [] => ""
  | tags =>
    " `" ++ " ".intercalate (tags.map fun (key, value) => key ++ ":\"" ++ value ++ "\"") ++ "`"

/-! ### Text -/

/-- A line comment of one line. -/
def comment (line : String) : String := "// " ++ line ++ "\n"

/-- A field with its comment. -/
def fieldText (gorm : Bool) (options : Options) (t : Table) (c : Column) : String :=
  ((t.commentFor c).map fun text => "\t" ++ comment (onOneLine text)).getD "" ++
    "\t" ++ fieldName options c.name ++ " " ++ fieldType options t c ++
    tagText (fieldTags gorm options t c) ++ "\n"

/-- The packages that the types of the fields need. -/
def imports (t : Table) : List String := sortedSet (language.typeImports t)

/-- The import declarations: one package stands by itself, several between parentheses. -/
def importText : List String → String
  | [] => ""
  | [package] => "import \"" ++ package ++ "\"\n\n"
  | packages =>
    "import (\n" ++ String.join (packages.map fun package => "\t\"" ++ package ++ "\"\n") ++ ")\n\n"

/-- The package clause and the imports. -/
def header (options : Options) (t : Table) : String :=
  "package " ++ options.packageName.getD "model" ++ "\n\n" ++ importText (imports t)

/-- The string literal that the method for the table name returns. -/
def tableNameLiteral (name : String) : String := "\"" ++ replaceChar '"' "\\\"" name ++ "\""

/-- The method that gives the table name. -/
def tableNameMethod (t : Table) : String :=
  let name := typeName t
  "\n// TableName returns the table name of " ++ name ++ ".\nfunc (" ++ name ++
    ") TableName() string \x7b\n\treturn " ++ tableNameLiteral t.name ++ "\n\x7d\n"

/-- The source text of the struct for a table. -/
def text (gorm : Bool) (options : Options) (t : Table) : String :=
  (if options.packageLines then header options t else "") ++
    (t.comment.map fun words => comment (typeName t ++ " " ++ onOneLine words)).getD "" ++
    "type " ++ typeName t ++ " struct \x7b\n" ++
    String.join (t.columns.map (fieldText gorm options t)) ++ "\x7d\n" ++
    if options.tableName then tableNameMethod t else ""

/-- The struct for a table. -/
def generate (gorm : Bool) (options : Options) (t : Table) : Generated where
  code := text gorm options t
  notices := t.columns.flatMap language.fallbackNotices

end Schemata.Entity.Go
