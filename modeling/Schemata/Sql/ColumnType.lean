import Schemata.Sql.Grouping
import Schemata.Sql.Lexer
import Schemata.SqlType.Name
import Schemata.Table

/-! # Column types

The type of a column declaration: one or more words, perhaps parameters in parentheses among them,
and the marks of array dimensions.  The words go on up to the first one that ends a type. -/

namespace Schemata.Sql

open Schemata.Text

/-- The words that go on a type, and what follows them. -/
def typeWords (rules : Rules) : List Token → List String × List Token
  | [] => ([], [])
  | t :: r =>
    match t.word? with
    | some word =>
      if rules.endsType word || sameWord word "array" then ([], t :: r)
      else
        let (words, rest) := typeWords rules r
        (word :: words, rest)
    | none => ([], t :: r)

/-- The number of array dimensions marked at the front, and what follows the marks.  A mark is a pair
of brackets with anything between them, or the word `ARRAY`. -/
def arrayMarks (tokens : List Token) : Nat × List Token :=
  match tokens with
  | [] => (0, [])
  | t :: r =>
    if t.kind = .lbracket then
      let (n, rest) := arrayMarks ((r.dropWhile (·.kind ≠ .rbracket)).drop 1)
      (n + 1, rest)
    else if t.isKeyword "array" then
      let (n, rest) := arrayMarks r
      (n + 1, rest)
    else (0, t :: r)
termination_by tokens.length
decreasing_by
  · have := (List.dropWhile_sublist (fun u : Token => decide (u.kind ≠ .rbracket)) (l := r)).length_le
    simp only [List.length_drop, List.length_cons]
    omega
  · simp

/-- The value of a parameter that is one string. -/
def memberOf : List Token → Option String
  | [t] => t.string?
  | _ => none

/-- A column with the type parameters between the given parentheses.  If every parameter is a string
they are the members of an enumeration; otherwise the first two are kept as text. -/
def withParameters (source : List Char) (params : List Token) (c : Column) : Column :=
  let groups := splitDefinitions params
  if !groups.isEmpty && groups.all (memberOf · |>.isSome) then
    { c with members := groups.filterMap memberOf }
  else
    { c with
      length := groups[0]?.map (sourceText source)
      precision := groups[1]?.map (sourceText source) }

/-- A column of the given name and of the type at the front, and what follows the type. -/
def columnOfType? (rules : Rules) (source : List Char) (name : String) :
    List Token → Option (Column × List Token)
  | [] => none
  | t :: r =>
    match t.word? with
    | none => none
    | some first =>
      if startsConstraint first then none
      else
        let (words, r₁) := typeWords rules r
        let (c, furtherWords, r₂) :=
          match parenGroup? r₁ with
          | some (params, r₂) =>
            let (furtherWords, r₃) := typeWords rules r₂
            (withParameters source params { name, rawType := "" }, furtherWords, r₃)
          | none => ({ name, rawType := "" }, [], r₁)
        let (dimensions, rest) := arrayMarks r₂
        let base := SqlType.canonical (" ".intercalate (first :: words ++ furtherWords))
        some ({ c with rawType := base ++ String.join (List.replicate dimensions "[]") }, rest)

end Schemata.Sql
