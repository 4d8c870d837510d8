/-! # JSON documents

The documents that reports are written as.  Members of an object keep the order in which they are
listed. -/

namespace Schemata

/-- A JSON document of the kinds that reports need. -/
inductive Json
  | null
  | bool (b : Bool)
  | str (s : String)
  | arr (items : List Json)
  | obj (members : List (String × Json))

namespace Json

/-- The hexadecimal digit of a number below sixteen, in lower case. -/
def hexDigit (n : Nat) : Char := Char.ofNat (if n < 10 then 0x30 + n else 0x57 + n)

/-- A character inside a string literal.  Quotes, backslashes and control characters are escaped,
those with a letter of their own by that letter, and all else stands for itself. -/
def escapeChar (c : Char) : List Char :=
  if c = '"' then ['\\', '"']
  else if c = '\\' then ['\\', '\\']
  else if c = '\n' then ['\\', 'n']
  else if c = '\r' then ['\\', 'r']
  else if c = '\t' then ['\\', 't']
  else if c.toNat = 0x08 then ['\\', 'b']
  else if c.toNat = 0x0C then ['\\', 'f']
  else if c.toNat < 0x20 then
    ['\\', 'u', '0', '0', hexDigit (c.toNat / 16), hexDigit (c.toNat % 16)]
  else [c]

/-- A string literal between double quotes. -/
def stringLiteral (s : String) : String :=
  String.ofList ('"' :: s.toList.flatMap escapeChar ++ ['"'])

/-- A line break followed by `depth` levels of indentation. -/
def lineBreak (depth : Nat) : String := "\n" ++ String.join (List.replicate depth "  ")

mutual

/-- A document over several lines, each level indented by two spaces; an empty array or object
takes no line of its own. -/
def indented (depth : Nat) : Json → String
  | .null => "null"
  | .bool b => if b then "true" else "false"
  | .str s => stringLiteral s
  | .arr [] => "[]"
  | .arr (item :: items) =>
    "[" ++ lineBreak (depth + 1) ++ indented (depth + 1) item ++ indentedItems depth items ++
      lineBreak depth ++ "]"
  | .obj [] => "\x7b\x7d"
  | .obj ((name, value) :: members) =>
    "\x7b" ++ lineBreak (depth + 1) ++ stringLiteral name ++ ": " ++ indented (depth + 1) value ++
      indentedMembers depth members ++ lineBreak depth ++ "\x7d"

/-- The items after the first. -/
def indentedItems (depth : Nat) : List Json → String
  | [] => ""
  | item :: items =>
    "," ++ lineBreak (depth + 1) ++ indented (depth + 1) item ++ indentedItems depth items

/-- The members after the first. -/
def indentedMembers (depth : Nat) : List (String × Json) → String
  | [] => ""
  | (name, value) :: members =>
    "," ++ lineBreak (depth + 1) ++ stringLiteral name ++ ": " ++ indented (depth + 1) value ++
      indentedMembers depth members

end

/-- A document as a report prints it. -/
def pretty (document : Json) : String := indented 0 document

/-- A list of texts. -/
def strings (texts : List String) : Json := .arr (texts.map .str)

/-- A text or nothing. -/
def optional : Option String → Json
  | some text => .str text
  | none => .null

end Json

end Schemata
