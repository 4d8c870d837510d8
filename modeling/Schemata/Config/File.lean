import Schemata.Config.Basic
import Schemata.Yaml.Node

/-! # Configuration files

Configurations as documents in YAML.  A setting that a file leaves out has its usual value, and one
that is not known is passed over. -/

namespace Schemata.Config

open Schemata.Yaml

/-! ### Reading -/

/-- The value of a setting, or its usual value if the file leaves it out. -/
def setting {α : Type} (entries : List (String × Node)) (name : String)
    (read : Node → Option α) (usual : α) : Option α :=
  match entries.lookup name with
  | some node => read node
  | none => some usual

/-- The dialects by the names that files use. -/
def dialectNames : List (String × Dialect) :=
  [("mysql", .mysql), ("postgresql", .postgresql), ("postgres", .postgresql)]

/-- A dialect. -/
def readDialect (node : Node) : Option Dialect := node.text?.bind fun name => dialectNames.lookup name

/-- A target, whose name has to be spelled exactly. -/
def readTarget (node : Node) : Option Target :=
  node.text?.bind fun name => Target.all.find? (·.name == name)

/-- A text that null takes away. -/
def readOptionalText (node : Node) : Option (Option String) :=
  if node.isNull then some none else node.text?.map some

/-- The options of conversions. -/
def readDdl (node : Node) : Option Ddl.Options := do
  let entries ← node.entries?
  let usual : Ddl.Options := {}
  let tableOptions ← setting entries "add_table_options" Node.truth? usual.tableOptions
  let commentStatements ←
    setting entries "generate_comment_on" Node.truth? usual.commentStatements
  pure { tableOptions, commentStatements }

/-- The options of entities. -/
def readEntity (node : Node) : Option Entity.Options := do
  let entries ← node.entries?
  let usual : Entity.Options := {}
  let packageLines ← setting entries "include_package" Node.truth? usual.packageLines
  let packageName ← setting entries "package_name" readOptionalText usual.packageName
  let jsonTag ← setting entries "include_json_tag" Node.truth? usual.jsonTag
  let tableName ← setting entries "include_table_name" Node.truth? usual.tableName
  let getterSetter ← setting entries "include_getter_setter" Node.truth? usual.getterSetter
  let camelCase ← setting entries "use_camel_case" Node.truth? usual.camelCase
  let nullablePointers ← setting entries "nullable_pointers" Node.truth? usual.nullablePointers
  pure { packageLines, packageName, jsonTag, tableName, getterSetter, camelCase, nullablePointers }

/-- The configuration that a document describes. -/
def ofNode (node : Node) : Option Config := do
  let entries ← node.entries?
  let usual : Config := {}
  let version ← setting entries "version" Node.text? usual.version
  let sourceDialect ← setting entries "source_dialect" readDialect usual.sourceDialect
  let ddl ← setting entries "ddl" readDdl usual.ddl
  let target ← setting entries "target" readTarget usual.target
  let entity ← setting entries "entity" readEntity usual.entity
  pure { version, sourceDialect, ddl, target, entity }

/-- The configuration that a file describes. -/
def ofYaml (text : String) : Option Config := (Node.ofText text).bind ofNode

/-- What is said of a file that describes no configuration. -/
def unreadableMessage : String := "Failed to parse config file"

/-! ### Writing -/

/-- A setting on a line of its own. -/
def settingLine (indent name value : String) : String := indent ++ name ++ ": " ++ value ++ "\n"

/-- A truth value. -/
def truthText (b : Bool) : String := if b then "true" else "false"

/-- The file that describes a configuration, with every setting. -/
def toYaml (config : Config) : String :=
  let top := settingLine ""
  let inner := settingLine "  "
  let entity := config.entity
  String.join
    [top "version" (scalarText config.version),
      top "source_dialect" config.sourceDialect.name,
      "ddl:\n",
      inner "add_table_options" (truthText config.ddl.tableOptions),
      inner "generate_comment_on" (truthText config.ddl.commentStatements),
      top "target" config.target.name,
      "entity:\n",
      inner "include_package" (truthText entity.packageLines),
      inner "package_name" ((entity.packageName.map scalarText).getD "null"),
      inner "include_json_tag" (truthText entity.jsonTag),
      inner "include_table_name" (truthText entity.tableName),
      inner "include_getter_setter" (truthText entity.getterSetter),
      inner "use_camel_case" (truthText entity.camelCase),
      inner "nullable_pointers" (truthText entity.nullablePointers)]

end Schemata.Config
