import Schemata.Text.Numeric
import Schemata.Text.LetterCase

/-! # Words of identifiers

An identifier is a sequence of words, separated by characters that are neither letters nor digits
or by a change of case.  The case conventions `snake_case`, `camelCase` and `PascalCase` are ways of
writing the same words. -/

namespace Schemata.Naming

open Schemata.Text

/-- Whether a word starts at `c`, between `before` in the same run of letters and digits and the
character `after`: `aB` has a boundary after `a`, `1B` after `1`, and `ABc` after `A`. -/
def startsWord (before c : Char) (after : Option Char) : Bool :=
  isUppercase c &&
    (isLowercase before || before.isDigit || (isUppercase before && after.any isLowercase))

/-- The words of an identifier as they are spelled. -/
def pieces : List Char → List (List Char)
  | [] => []
  | [c] => if isAlphanumeric c then [[c]] else []
  | c :: d :: r =>
    if !isAlphanumeric c then pieces (d :: r)
    else if !isAlphanumeric d || startsWord c d r.head? then [c] :: pieces (d :: r)
    else
      match pieces (d :: r) with
      | [] => [[c]]
      | piece :: rest => (c :: piece) :: rest

/-- The words of an identifier in lower case. -/
def words (identifier : String) : List String :=
  (pieces identifier.toList).map fun piece => String.ofList (piece.flatMap lowerChar)

/-- A word with its first character in upper case. -/
def capitalize (word : String) : String :=
  match word.toList with
  | [] => ""
  | c :: r => String.ofList (upperChar c ++ r)

/-- The words joined by underscores. -/
def snakeCase (identifier : String) : String := "_".intercalate (words identifier)

/-- The words joined without a mark, each but the first capitalized. -/
def camelCase (identifier : String) : String :=
  match words identifier with
  | [] => ""
  | first :: rest => String.join (first :: rest.map capitalize)

/-- The words joined without a mark, each capitalized. -/
def pascalCase (identifier : String) : String :=
  String.join ((words identifier).map capitalize)

end Schemata.Naming
