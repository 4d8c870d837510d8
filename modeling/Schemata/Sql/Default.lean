import Schemata.Sql.Quote
import Schemata.Text.Numeric

/-! # Default values

The text of a default expression, classified by what it denotes.  `DefaultValue.ofText` tries the
kinds in order: `NULL`, truth values, the current date, numbers, string literals, the current time,
calls of other functions; what is none of these is an expression that is kept as it stands. -/

namespace Schemata.Sql

open Schemata.Text

/-- What a default expression denotes. -/
inductive DefaultValue
  | null
  | bool (b : Bool)
  | number (text : String)
  /-- A string literal, by its value. -/
  | string (value : String)
  /-- The current time, with the number of fractional digits if it is given. -/
  | currentTimestamp (precision : Option String)
  | currentDate
  /-- A call of any other function. -/
  | function (text : String)
  | expression (text : String)
deriving DecidableEq, Repr

/-! ### Numbers -/

/-- What follows an optional sign. -/
def afterSign : List Char → List Char
  | [] => []
  | c :: r => if c = '+' ∨ c = '-' then r else c :: r

/-- One digit or more, of any script. -/
def isDigits (cs : List Char) : Bool := !cs.isEmpty && cs.all isDecimal

/-- An exponent or nothing. -/
def isExponent : List Char → Bool
  | [] => true
  | c :: r => (c = 'e' || c = 'E') && isDigits (afterSign r)

/-- A number: an optional sign, digits with a point before, among or after them, and an optional
exponent. -/
def isNumber (cs : List Char) : Bool :=
  let unsigned := afterSign cs
  let whole := unsigned.takeWhile isDecimal
  match unsigned.dropWhile isDecimal with
  | '.' :: r =>
    (!whole.isEmpty || !(r.takeWhile isDecimal).isEmpty) && isExponent (r.dropWhile isDecimal)
  | rest => !whole.isEmpty && isExponent rest

/-! ### Calls -/

/-- The functions that give the current time. -/
def currentTimeFunctions : List String :=
  ["current_timestamp", "localtimestamp", "now", "transaction_timestamp", "statement_timestamp",
    "clock_timestamp", "sysdate", "utc_timestamp"]

/-- The lower-case ASCII letter that a character is equal to when case does not matter: the long s
and the Kelvin sign count as `s` and `k`. -/
def foldLetter (c : Char) : Char :=
  if c.toNat = 0x17F then 's' else if c.toNat = 0x212A then 'k' else c.toLower

/-- The digits of an argument list that holds nothing else; `none` inside stands for an empty
list. -/
def digitArgument? (cs : List Char) : Option (Option String) :=
  match cs with
  | [] => some none
  | '(' :: r =>
    let inner := trimLeft r
    let digits := inner.takeWhile isDecimal
    if trimLeft (inner.dropWhile isDecimal) = [')'] then
      some (if digits.isEmpty then none else some (String.ofList digits))
    else none
  | _ => none

/-- A reading of the current time, with its precision.  The argument list may be missing. -/
def currentTime? (cs : List Char) : Option (Option String) :=
  let endsName := fun c => c == '(' || isBlank c
  let name := String.ofList ((cs.takeWhile (!endsName ·)).map foldLetter)
  if currentTimeFunctions.contains name then
    digitArgument? (trimLeft (cs.dropWhile (!endsName ·)))
  else none

/-- An ASCII letter or an underscore. -/
def startsFunctionName (c : Char) : Bool := c.isAlpha || c == '_'

/-- A character after the first of the name of a function, which may be qualified. -/
def isFunctionNameChar (c : Char) : Bool := c.isAlphanum || c == '_' || c == '.'

/-- Whether a text starts with a name and an opening parenthesis. -/
def startsCall : List Char → Bool
  | [] => false
  | c :: r =>
    startsFunctionName c && (trimLeft (r.dropWhile isFunctionNameChar)).head? == some '('

/-! ### Classification -/

namespace DefaultValue

/-- The words that denote a value by themselves. -/
def words : List (String × DefaultValue) :=
  [("null", null), ("true", bool true), ("false", bool false), ("current_date", currentDate),
    ("curdate()", currentDate)]

/-- What the text of a default expression denotes in a dialect. -/
def ofText (dialect : Dialect) (text : String) : DefaultValue :=
  let cs := trimmed text.toList
  let text := String.ofList cs
  match words.lookup (asciiLower text) with
  | some value => value
  | none =>
    if isNumber cs then number text
    else
      match decodeLiteral (dialect = .mysql) text with
      | some value => string value
      | none =>
        match currentTime? cs with
        | some precision => currentTimestamp precision
        | none => if startsCall cs then function text else expression text

/-- The spellings of truth values. -/
def truthWords : List (String × Bool) :=
  [("1", true), ("t", true), ("true", true), ("y", true), ("yes", true), ("on", true),
    ("0", false), ("f", false), ("false", false), ("n", false), ("no", false), ("off", false)]

/-- The truth value that a default stands for in a column of truth values. -/
def asBool : DefaultValue → Option Bool
  | bool b => some b
  | number text => truthWords.lookup (asciiLower text)
  | string value => truthWords.lookup (asciiLower value)
  | _ => none

end DefaultValue

/-- The current time as both dialects write it. -/
def currentTimestampText : Option String → String
  | some precision => "CURRENT_TIMESTAMP(" ++ precision ++ ")"
  | none => "CURRENT_TIMESTAMP"

/-- Whether a value starts with the date that has neither a year nor a month nor a day. -/
def isZeroDate (value : String) : Bool := "0000-00-00".toList.isPrefixOf value.toList

end Schemata.Sql
