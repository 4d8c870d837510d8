import Schemata.Entity.Python

/-! # Data classes in Python

A table becomes a data class.  A column that may be null becomes an attribute with a default, which
in Python only an attribute with a default may follow; where that order is broken, the attributes
are given by keyword only. -/

namespace Schemata.Entity.Dataclass

open Schemata.Entity.Python

/-- What a pass over columns has found so far. -/
structure FieldOrder where
  /-- There was a column that may be null. -/
  optionalSeen : Bool := false
  /-- There was one that may not after one that may. -/
  broken : Bool := false
deriving DecidableEq, Repr

/-- What has been found after one more column. -/
def FieldOrder.next (t : Table) (order : FieldOrder) (c : Column) : FieldOrder :=
  if t.isOptional c then { order with optionalSeen := true }
  else if order.optionalSeen then { order with broken := true }
  else order

/-- Whether a column that may be null stands before one that may not. -/
def optionalBeforeRequired (t : Table) (columns : List Column) : Bool :=
  (columns.foldl (FieldOrder.next t) {}).broken

/-- The decorator of the class. -/
def decorator (t : Table) : String :=
  if optionalBeforeRequired t t.columns then "@dataclass(kw_only=True)\n" else "@dataclass\n"

/-- The attribute for a column. -/
def attributeText (t : Table) (c : Column) : String :=
  withComment
    ("    " ++ attributeName c.name ++ ": " ++ attributeType t c ++
      if t.isOptional c then " = None" else "")
    (t.commentFor c)

/-- The imports in order. -/
def imports (t : Table) : List String :=
  sortedSet ("from dataclasses import dataclass" :: typeImports t)

/-- The source text of the class for a table. -/
def text (options : Options) (t : Table) : String :=
  (if options.packageLines then importText [imports t] ++ "\n\n" else "") ++ decorator t ++
    "class " ++ typeName t ++ ":\n" ++ classDocstring t ++
    (if t.columns.isEmpty then "    pass\n" else "") ++
    String.join (t.columns.map (attributeText t))

/-- The class for a table. -/
def generate (options : Options) (t : Table) : Generated where
  code := text options t
  notices := t.columns.flatMap language.fallbackNotices

end Schemata.Entity.Dataclass
