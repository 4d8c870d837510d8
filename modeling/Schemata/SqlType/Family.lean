import Schemata.SqlType.Name
import Schemata.Table

/-! # Families of types

A family is what a type holds, whatever the dialect.  Languages choose their types by family. -/

namespace Schemata.SqlType

/-- A kind of value. -/
inductive Family
  | boolean
  | tinyInt
  | smallInt
  | integer
  | bigInt
  | decimal
  | float
  | double
  | string
  | uuid
  | date
  | time
  | dateTime
  | json
  | binary
deriving DecidableEq, Repr

namespace Family

/-- The family of every type that has one. -/
def ofTypeName : List (String × Family) :=
  [("bool", boolean), ("boolean", boolean), ("bit", boolean), ("tinyint", tinyInt),
    ("smallint", smallInt), ("int2", smallInt), ("smallserial", smallInt), ("serial2", smallInt),
    ("year", smallInt), ("mediumint", integer), ("int", integer), ("integer", integer),
    ("int4", integer), ("serial", integer), ("serial4", integer), ("bigint", bigInt),
    ("int8", bigInt), ("bigserial", bigInt), ("serial8", bigInt), ("decimal", decimal),
    ("numeric", decimal), ("dec", decimal), ("fixed", decimal), ("money", decimal),
    ("float", float), ("real", float), ("float4", float), ("double", double),
    ("double precision", double), ("float8", double), ("char", string), ("bpchar", string),
    ("varchar", string), ("tinytext", string), ("text", string), ("mediumtext", string),
    ("longtext", string), ("citext", string), ("enum", string), ("set", string),
    ("inet", string), ("cidr", string), ("macaddr", string), ("interval", string),
    ("xml", string), ("tsvector", string), ("uuid", uuid), ("date", date), ("time", time),
    ("timetz", time), ("datetime", dateTime), ("timestamp", dateTime), ("timestamptz", dateTime),
    ("json", json), ("jsonb", json), ("binary", binary), ("varbinary", binary),
    ("tinyblob", binary), ("blob", binary), ("mediumblob", binary), ("longblob", binary),
    ("bytea", binary), ("varbit", binary)]

/-- The family of a type, or of the elements of an array type. -/
def ofType (rawType : String) : Option Family := ofTypeName.lookup (element rawType)

/-- The family whose values are one size larger, for the integers that have one. -/
def widened : Family → Family
  | tinyInt => smallInt
  | smallInt => integer
  | integer => bigInt
  | f => f

/-- The family of a column.  A `TINYINT(1)` holds a truth value, a `BIT` of a length other than one
holds bytes, and unsigned integers need the next larger size. -/
def ofColumn (c : Column) : Option Family :=
  if c.isTinyIntBool then some boolean
  else if c.rawType == "bit" && c.length.any (· != "1") then some binary
  else (ofType c.rawType).map fun f => if c.unsigned then f.widened else f

/-- Whether the values are dates or times. -/
def isTemporal : Family → Bool
  | date | time | dateTime => true
  | _ => false

/-- The name of a family. -/
def name : Family → String
  | boolean => "Boolean"
  | tinyInt => "TinyInt"
  | smallInt => "SmallInt"
  | integer => "Integer"
  | bigInt => "BigInt"
  | decimal => "Decimal"
  | float => "Float"
  | double => "Double"
  | string => "String"
  | uuid => "Uuid"
  | date => "Date"
  | time => "Time"
  | dateTime => "DateTime"
  | json => "Json"
  | binary => "Binary"

end Family

end Schemata.SqlType
