import Schemata.Entity.Dataclass
import Schemata.Entity.Go
import Schemata.Entity.Java
import Schemata.Entity.MappedClass
import Schemata.Entity.TypeScript
import Schemata.Target

/-! # Generation of entities

`generate` writes a table for any target. -/

namespace Schemata.Entity

/-- The entity for a table. -/
def generate (target : Target) (options : Options) (t : Table) : Generated :=
  match target with
  | .goGorm => Go.generate true options t
  | .goStruct => Go.generate false options t
  | .javaJpa => Java.generate true options t
  | .javaPojo => Java.generate false options t
  | .typescriptInterface => TypeScript.generate options t
  | .pythonDataclass => Dataclass.generate options t
  | .pythonSqlalchemy => MappedClass.generate options t

end Schemata.Entity
