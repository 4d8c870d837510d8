import Schemata.Entity.Identifier
import Schemata.Entity.Language
import Schemata.Entity.Options
import Schemata.Json

/-! # Entities in TypeScript

A table becomes an interface.  A column that may be null becomes an optional property. -/

namespace Schemata.Entity.TypeScript

open Schemata.SqlType Schemata.Text

/-- The types of TypeScript. -/
def language : Language where
  ofFamily
    | .boolean => ⟨"boolean", none⟩
    | .tinyInt | .smallInt | .integer | .bigInt | .decimal | .float | .double => ⟨"number", none⟩
    | .string | .uuid | .time => ⟨"string", none⟩
    | .date | .dateTime => ⟨"Date", none⟩
    | .json => ⟨"unknown", none⟩
    | .binary => ⟨"Uint8Array", none⟩
  fallback := ⟨"string", none⟩
  array := (· ++ "[]")

/-- The words that name a property only between quotes. -/
def reservedWords : List String :=
  ["break", "case", "catch", "class", "const", "continue", "debugger", "default", "delete", "do",
    "else", "enum", "export", "extends", "false", "finally", "for", "function", "if", "import",
    "in", "instanceof", "new", "null", "return", "super", "switch", "this", "throw", "true", "try",
    "typeof", "var", "void", "while", "with"]

/-- A name as a property is declared with. -/
def propertyName (name : String) : String :=
  if isPlainIdentifier name && !reservedWords.contains name then name else Json.stringLiteral name

/-- A comment inside a documentation block, which it must not end. -/
def docText (comment : String) : String := replaceText "*/" "*\\/" (onOneLine comment)

/-- A documentation block. -/
def doc (comment : String) : String := "/** " ++ docText comment ++ " */\n"

/-- The property for a column, with its documentation. -/
def propertyText (options : Options) (t : Table) (c : Column) : String :=
  ((t.commentFor c).map fun comment => "  " ++ doc comment).getD "" ++
    "  " ++ propertyName (fieldName options.camelCase c.name) ++
    (if t.isOptional c then "?" else "") ++ ": " ++ (language.resolve c).text ++ ";\n"

/-- The source text of the interface for a table. -/
def text (options : Options) (t : Table) : String :=
  (t.comment.map doc).getD "" ++ "export interface " ++ typeName t ++ " \x7b\n" ++
    String.join (t.columns.map (propertyText options t)) ++ "\x7d\n"

/-- The interface for a table. -/
def generate (options : Options) (t : Table) : Generated where
  code := text options t
  notices := t.columns.flatMap language.fallbackNotices

end Schemata.Entity.TypeScript
