import Schemata.Choice
import Schemata.Text.Basic
import Schemata.Text.Blank

/-! # Targets of entity generation

A target is a language together with an idiom of it. -/

namespace Schemata

open Schemata.Text

/-- A language and idiom that entities are written in. -/
inductive Target
  | goGorm
  | goStruct
  | javaJpa
  | javaPojo
  | typescriptInterface
  | pythonDataclass
  | pythonSqlalchemy
deriving DecidableEq, Repr

namespace Target

/-- All targets, in the order in which they are offered. -/
def all : List Target :=
  [goGorm, goStruct, javaJpa, javaPojo, typescriptInterface, pythonDataclass, pythonSqlalchemy]

/-- The name of a target. -/
def name : Target → String
  | goGorm => "go-gorm"
  | goStruct => "go-struct"
  | javaJpa => "java-jpa"
  | javaPojo => "java-pojo"
  | typescriptInterface => "typescript-interface"
  | pythonDataclass => "python-dataclass"
  | pythonSqlalchemy => "python-sqlalchemy"

/-- The target of a name, without regard to ASCII case and to blanks around it. -/
def ofName (s : String) : Except UnsupportedChoice Target :=
  match all.find? (·.name == asciiLower (trim s)) with
  | some t => .ok t
  | none => .error ⟨.target, s, all.map name⟩

end Target

end Schemata
