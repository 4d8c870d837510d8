import Schemata.Entity.Identifier
import Schemata.Entity.Language
import Schemata.Entity.Options
import Schemata.Text.Basic

/-! # Entities in Python

What both idioms of Python share: types, names of attributes, documentation strings and the order of
imports. -/

namespace Schemata.Entity.Python

open Schemata.SqlType Schemata.Text

/-- The types of Python.  What has to be imported is the whole statement. -/
def language : Language where
  ofFamily
    | .boolean => ⟨"bool", none⟩
    | .tinyInt | .smallInt | .integer | .bigInt => ⟨"int", none⟩
    | .decimal => ⟨"Decimal", some "from decimal import Decimal"⟩
    | .float | .double => ⟨"float", none⟩
    | .string => ⟨"str", none⟩
    | .uuid => ⟨"UUID", some "from uuid import UUID"⟩
    | .date => ⟨"date", some "from datetime import date"⟩
    | .time => ⟨"time", some "from datetime import time"⟩
    | .dateTime => ⟨"datetime", some "from datetime import datetime"⟩
    | .json => ⟨"dict", none⟩
    | .binary => ⟨"bytes", none⟩
  fallback := ⟨"str", none⟩
  array element := "list[" ++ element ++ "]"

/-- The words that are no identifiers. -/
def reservedWords : List String :=
  ["False", "None", "True", "and", "as", "assert", "async", "await", "break", "class", "continue",
    "def", "del", "elif", "else", "except", "finally", "for", "from", "global", "if", "import",
    "in", "is", "lambda", "nonlocal", "not", "or", "pass", "raise", "return", "try", "while",
    "with", "yield"]

/-- The name of the attribute for a column. -/
def attributeName (columnName : String) : String := safeIdentifier reservedWords columnName

/-- The type of a column that may be null. -/
def optional (type : String) : String := "Optional[" ++ type ++ "]"

/-- The type of the attribute for a column. -/
def attributeType (t : Table) (c : Column) : String :=
  let type := (language.resolve c).text
  if t.isOptional c then optional type else type

/-- The imports that the types of the attributes need. -/
def typeImports (t : Table) : List String :=
  language.typeImports t ++
    if t.columns.any t.isOptional then ["from typing import Optional"] else []

/-- A comment between the quotes of a documentation string, which it must not end. -/
def docstringText (comment : String) : String :=
  replaceText "\"\"\"" "\\\"\\\"\\\"" (replaceChar '\\' "\\\\" comment)

/-- The documentation string of a class, with an empty line after it. -/
def classDocstring (t : Table) : String :=
  (t.comment.map fun comment => "    \"\"\"" ++ docstringText comment ++ "\"\"\"\n\n").getD ""

/-- A line with a comment at its end. -/
def withComment (line : String) : Option String → String
  | some comment => line ++ "  # " ++ onOneLine comment ++ "\n"
  | none => line ++ "\n"

/-- Groups of imports, with an empty line between each two; a group without imports is left out. -/
def importText (groups : List (List String)) : String :=
  "\n\n".intercalate ((groups.filter (!·.isEmpty)).map ("\n".intercalate ·)) ++ "\n"

end Schemata.Entity.Python
