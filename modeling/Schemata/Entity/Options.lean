/-! # Options of entities

What is written besides the fields of an entity, and how options are overridden. -/

namespace Schemata.Entity

/-- What an entity is written with. -/
structure Options where
  /-- The line that names the package, and the imports. -/
  packageLines : Bool := false
  /-- The name of the package, if it is not the usual one of the language. -/
  packageName : Option String := none
  /-- Tags for JSON in Go. -/
  jsonTag : Bool := true
  /-- The name of the table. -/
  tableName : Bool := true
  /-- Accessors in Java. -/
  getterSetter : Bool := true
  /-- Fields in camel case. -/
  camelCase : Bool := true
  /-- Pointers for columns that may be null in Go. -/
  nullablePointers : Bool := false
deriving DecidableEq, Repr

/-- Values that take the place of options. -/
structure Overrides where
  packageName : Option String := none
  packageLines : Option Bool := none
  jsonTag : Option Bool := none
  tableName : Option Bool := none
  getterSetter : Option Bool := none
  camelCase : Option Bool := none
  nullablePointers : Option Bool := none
deriving DecidableEq, Repr

/-- Options with the values that are given instead.  A package name asks for the package lines as
well, unless they are turned off. -/
def Options.override (base : Options) (o : Overrides) : Options where
  packageLines := o.packageLines.getD (o.packageName.isSome || base.packageLines)
  packageName := o.packageName <|> base.packageName
  jsonTag := o.jsonTag.getD base.jsonTag
  tableName := o.tableName.getD base.tableName
  getterSetter := o.getterSetter.getD base.getterSetter
  camelCase := o.camelCase.getD base.camelCase
  nullablePointers := o.nullablePointers.getD base.nullablePointers

end Schemata.Entity
