import Schemata.Sql.Lexer

/-! # Quoted identifiers and string literals

How names and values are written so that the lexer reads them back, and how the text of a string
literal is decoded apart from a script. -/

namespace Schemata.Sql

open Schemata.Text

/-! ### Identifiers -/

/-- A name between quotes, with the quote doubled inside. -/
def enclose (quote : Char) (name : String) : String :=
  quote.toString ++ replaceChar quote (String.ofList [quote, quote]) name ++ quote.toString

/-- A quoted identifier of PostgreSQL. -/
def quotePostgres (name : String) : String := enclose '"' name

/-- A quoted identifier of MySQL. -/
def quoteMysql (name : String) : String := enclose '\x60' name

/-- The words that PostgreSQL reads as names only between quotes. -/
def reservedWords : List String :=
  ["all", "analyse", "analyze", "and", "any", "array", "as", "asc", "asymmetric", "both", "case",
    "cast", "check", "collate", "column", "constraint", "create", "current_catalog",
    "current_date", "current_role", "current_time", "current_timestamp", "current_user",
    "default", "deferrable", "desc", "distinct", "do", "else", "end", "except", "false", "fetch",
    "for", "foreign", "from", "grant", "group", "having", "in", "initially", "intersect", "into",
    "lateral", "leading", "limit", "localtime", "localtimestamp", "not", "null", "offset", "on",
    "only", "or", "order", "placing", "primary", "references", "returning", "select",
    "session_user", "some", "symmetric", "table", "then", "to", "trailing", "true", "union",
    "unique", "user", "using", "variadic", "when", "where", "window", "with"]

/-- A lower-case ASCII letter or an underscore. -/
def startsPlainName (c : Char) : Bool := c.isLower || c == '_'

/-- A character after the first of a name that folds to itself. -/
def isPlainNameChar (c : Char) : Bool := c.isLower || c.isDigit || c == '_' || c == '$'

/-- Whether a name can be written without quotes, its reserved spellings apart. -/
def isPlainName (name : String) : Bool :=
  match name.toList with
  | [] => false
  | c :: r => startsPlainName c && r.all isPlainNameChar

/-- An identifier of PostgreSQL, quoted only where a bare word would not do. -/
def nameForPostgres (name : String) : String :=
  if isPlainName name && !reservedWords.contains name then name else quotePostgres name

/-- A list of identifiers of PostgreSQL. -/
def namesForPostgres (names : List String) : String := ", ".intercalate (names.map nameForPostgres)

/-- A list of identifiers of MySQL. -/
def namesForMysql (names : List String) : String := ", ".intercalate (names.map quoteMysql)

/-! ### String literals -/

/-- A string literal of PostgreSQL: quotes are doubled. -/
def literalForPostgres (value : String) : String := enclose '\'' value

/-- A string literal of MySQL: backslashes and quotes are escaped. -/
def literalForMysql (value : String) : String :=
  "'" ++ replaceChar '\'' "\\'" (replaceChar '\\' "\\\\" value) ++ "'"

/-- What an escaped character of a literal stands for. -/
def decodeEscape (c : Char) : Char :=
  if c = 'n' then '\n'
  else if c = 't' then '\t'
  else if c = 'r' then '\r'
  else if c = '0' then '\x00'
  else c

/-- A quote of either kind. -/
def isQuote (c : Char) : Bool := c == '\'' || c == '"'

/-- Whether backslashes escape in a literal with this text before its quote; nothing for a text that
introduces no literal.  `N` and a character set such as `_utf8mb4` change nothing, and `E` turns the
escapes on. -/
def introducedEscapes (backslash : Bool) (introducer : List Char) : Option Bool :=
  match introducer with
  | [] => some backslash
  | [c] =>
    if c = 'N' ∨ c = 'n' ∨ c = '_' then some backslash
    else if c = 'E' ∨ c = 'e' then some true
    else none
  | c :: r => if c = '_' ∧ r.all Char.isAlphanum then some backslash else none

/-- The value of a text that is one string literal.  Double quotes enclose one only where backslashes
escape. -/
def decodeLiteral (backslash : Bool) (raw : String) : Option String :=
  let cs := trimmed raw.toList
  match cs.dropWhile (!isQuote ·), introducedEscapes backslash (cs.takeWhile (!isQuote ·)) with
  | quote :: body, some escapes =>
    if quote = '"' ∧ !backslash then none
    else
      match scanQuoted quote (if escapes then some decodeEscape else none) body with
      | some ⟨value, _, []⟩ => some (String.ofList value)
      | _ => none
  | _, _ => none

end Schemata.Sql
