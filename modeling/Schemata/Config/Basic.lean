import Schemata.Ddl.Statement
import Schemata.Entity.Options
import Schemata.Target
import Schemata.Text.Blank

/-! # Configurations

The settings that commands start from where the command line does not say otherwise. -/

namespace Schemata

/-- The settings of a project. -/
structure Config where
  version : String := "1.0"
  /-- The dialect that is read. -/
  sourceDialect : Dialect := .mysql
  ddl : Ddl.Options := {}
  target : Target := .goStruct
  entity : Entity.Options := {}
deriving DecidableEq, Repr

/-- A setting that makes no sense. -/
inductive ConfigFault
  | blankVersion
  | blankPackageName
deriving DecidableEq, Repr

/-- The words for a fault. -/
def ConfigFault.message : ConfigFault → String
  | blankVersion => "Config file version is not specified"
  | blankPackageName =>
    "entity.package_name must not be empty; remove it to use the language default"

/-- Whether a text holds blanks only. -/
def isBlankText (text : String) : Bool := text.toList.all Text.isBlank

/-- The first fault of the settings. -/
def Config.fault? (config : Config) : Option ConfigFault :=
  if isBlankText config.version then some .blankVersion
  else if config.entity.packageName.any isBlankText then some .blankPackageName
  else none

end Schemata
