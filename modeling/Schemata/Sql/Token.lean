import Schemata.Text.Basic

/-! # Tokens

The units of a script.  A token keeps the range of the source it was read from, so that the text of
any run of tokens can be cut out again. -/

namespace Schemata.Sql

open Schemata.Text

/-- A range of byte offsets; `stop` is the first offset after it. -/
structure Span where
  start : Nat
  stop : Nat
deriving DecidableEq, Repr

/-- The least range that covers both. -/
def Span.cover (a b : Span) : Span := ⟨min a.start b.start, max a.stop b.stop⟩

/-- What a token is.  Quotes and escapes are resolved in the texts of quoted identifiers and string
literals. -/
inductive TokenKind
  | word (text : String)
  | quotedIdent (name : String) (quote : Char)
  | stringLit (value : String)
  | number (text : String)
  | lparen
  | rparen
  | lbracket
  | rbracket
  | comma
  | semicolon
  | dot
  | equals
  | doubleColon
  | symbol (c : Char)
deriving DecidableEq, Repr

/-- A token and its place. -/
structure Token where
  kind : TokenKind
  span : Span
deriving DecidableEq, Repr

namespace Token

/-- The text of a bare word. -/
def word? (t : Token) : Option String :=
  match t.kind with
  | .word text => some text
  | _ => none

/-- A bare word in lower case, by which keywords are recognised. -/
def keyword? (t : Token) : Option String := t.word?.map asciiLower

/-- Whether a token is the given keyword, which is written in lower case. -/
def isKeyword (t : Token) (keyword : String) : Bool := t.keyword? == some keyword

/-- Whether a token is one of the given keywords. -/
def isOneOf (t : Token) (keywords : List String) : Bool := keywords.any t.isKeyword

/-- The name that a token is read as where an identifier is expected. -/
def ident? (t : Token) : Option String :=
  match t.kind with
  | .word text => some text
  | .quotedIdent name _ => some name
  | _ => none

/-- The value that a token is read as where a string is expected; double quotes enclose strings as
well. -/
def string? (t : Token) : Option String :=
  match t.kind with
  | .stringLit value => some value
  | .quotedIdent name quote => if quote = '"' then some name else none
  | _ => none

end Token

end Schemata.Sql
