import Schemata.Text.Basic
import Schemata.Text.Blank

/-! # Names of SQL types

A type name is canonical when it is in lower case, with single spaces between its words, and written
with the shortest of its synonyms.  Every dimension of an array type adds `[]` to the name of the
element type. -/

namespace Schemata.SqlType

open Schemata.Text

/-- Longer spellings of a type, and the name used for it. -/
def synonyms : List (String × String) :=
  [("character varying", "varchar"), ("char varying", "varchar"),
    ("national character varying", "varchar"), ("national varchar", "varchar"),
    ("nvarchar", "varchar"), ("character", "char"), ("national character", "char"),
    ("national char", "char"), ("nchar", "char"), ("timestamp without time zone", "timestamp"),
    ("timestamp with time zone", "timestamptz"), ("time without time zone", "time"),
    ("time with time zone", "timetz"), ("bit varying", "varbit"), ("long varchar", "mediumtext"),
    ("long varbinary", "mediumblob")]

/-- The canonical form of a type name. -/
def canonical (name : String) : String :=
  let collapsed :=
    asciiLower (" ".intercalate ((blankSeparated name.toList).map String.ofList))
  (synonyms.lookup collapsed).getD collapsed

/-- Removes the array marks from a name that is spelled backwards, and counts them.  Blanks at the
end and between the marks do not matter. -/
def stripArrayMarks : List Char → List Char × Nat
  | [] => ([], 0)
  | ']' :: '[' :: r =>
    let (element, dimensions) := stripArrayMarks r
    (element, dimensions + 1)
  | c :: r => if isBlank c then stripArrayMarks r else (c :: r, 0)

/-- The name of the element type and the number of array dimensions. -/
def splitArray (name : String) : String × Nat :=
  let (element, dimensions) := stripArrayMarks name.toList.reverse
  (String.ofList element.reverse, dimensions)

/-- The name of the element type. -/
def element (name : String) : String := (splitArray name).1

/-- The number of array dimensions. -/
def dimensions (name : String) : Nat := (splitArray name).2

end Schemata.SqlType
