import Schemata.Naming
import Schemata.Table
import Schemata.Text.Basic

/-! # Names in entities

How the names of tables and columns become names of types and fields. -/

namespace Schemata.Entity

open Schemata.Text Schemata.Naming

/-- The name of the type for a table: its words capitalized, after a `T` if that would be empty or
start with a digit. -/
def typeName (t : Table) : String :=
  let name := pascalCase t.name
  if name.isEmpty || headSatisfies Char.isDigit name then "T" ++ name else name

/-- A letter, a digit or an underscore. -/
def isIdentifierChar (c : Char) : Bool := isAlphanumeric c || c == '_'

/-- A name with an underscore for every character that an identifier cannot hold. -/
def sanitize (name : String) : String :=
  String.ofList (name.toList.map fun c => if isIdentifierChar c then c else '_')

/-- Whether a name is an identifier in which dollar signs are letters. -/
def isPlainIdentifier (name : String) : Bool :=
  match name.toList with
  | [] => false
  | c :: r =>
    (isAlphabetic c || c == '_' || c == '$') && r.all fun d => isIdentifierChar d || d == '$'

/-- The name of a field: the name of its column, in camel case if that is asked for and leaves
anything. -/
def fieldName (camel : Bool) (columnName : String) : String :=
  let name := camelCase columnName
  if camel && !name.isEmpty then name else columnName

/-- An identifier made of a name: an underscore goes before a leading digit and after a reserved
word. -/
def safeIdentifier (reserved : List String) (name : String) : String :=
  let name := sanitize name
  let name := if headSatisfies Char.isDigit name then "_" ++ name else name
  if reserved.contains name then name ++ "_" else name

/-- A text of ASCII digits only, and at least one. -/
def isDigitText (text : String) : Bool := !text.isEmpty && text.toList.all Char.isDigit

end Schemata.Entity
