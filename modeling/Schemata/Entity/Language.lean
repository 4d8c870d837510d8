import Schemata.Notice
import Schemata.SqlType.Family
import Schemata.Text.LetterCase

/-! # Languages

A language says which of its types holds the values of a family, and how it writes arrays.  The type
of a column follows: `Language.resolve` gives its text and what it needs to be imported. -/

namespace Schemata.Entity

open Schemata.SqlType

/-- A type of a language. -/
structure LanguageType where
  name : String
  /-- What has to be imported for it. -/
  imports : Option String := none
deriving DecidableEq, Repr

/-- The types of a language. -/
structure Language where
  /-- The type of a family. -/
  ofFamily : Family → LanguageType
  /-- The type of a column whose family is not known. -/
  fallback : LanguageType
  /-- The array of an element type. -/
  array : String → String
  /-- What has to be imported for arrays. -/
  arrayImport : Option String := none

/-- The type of a column in a language. -/
structure ResolvedType where
  text : String
  imports : List String
  family : Option Family
deriving DecidableEq, Repr

namespace Language

/-- The array of `dimensions` dimensions. -/
def arrayOf (l : Language) : Nat → String → String
  | 0, element => element
  | dimensions + 1, element => l.array (l.arrayOf dimensions element)

/-- The type of a column. -/
def resolve (l : Language) (c : Column) : ResolvedType :=
  let family := Family.ofColumn c
  let base := (family.map l.ofFamily).getD l.fallback
  let dims := dimensions c.rawType
  { text := l.arrayOf dims base.name
    imports := base.imports.toList ++ if dims = 0 then [] else l.arrayImport.toList
    family }

/-- The notice on a column whose family is not known. -/
def fallbackNotices (l : Language) (c : Column) : List Notice :=
  if (Family.ofColumn c).isSome then []
  else [.fallbackType c.name (Text.upper (element c.rawType)) l.fallback.name]

end Language

/-! ### Imports -/

/-- Adds a text to a sorted list without repetition. -/
def insertSorted (text : String) : List String → List String
  | [] => [text]
  | head :: rest =>
    if text < head then text :: head :: rest
    else if text = head then head :: rest
    else head :: insertSorted text rest

/-- The texts in order, each once. -/
def sortedSet (texts : List String) : List String := texts.foldr insertSorted []

/-- What the types of the columns of a table need to be imported. -/
def Language.typeImports (l : Language) (t : Table) : List String :=
  t.columns.flatMap fun c => (l.resolve c).imports

/-- The source text of an entity, with the notices. -/
structure Generated where
  code : String
  notices : List Notice
deriving DecidableEq, Repr

/-- The warnings of an entity. -/
def Generated.warnings (g : Generated) : List String := g.notices.map Notice.message

end Schemata.Entity
