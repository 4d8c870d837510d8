import Schemata.Text.Basic
import Schemata.Text.Blank

/-! # Scalars of YAML

Scalars between quotes, how a text is written as a scalar, and what the words for null and the truth
values are. -/

namespace Schemata.Yaml

open Schemata.Text

/-! ### Quoted scalars -/

/-- The value of a hexadecimal digit. -/
def hexValue (c : Char) : Option Nat :=
  if c.isDigit then some (c.toNat - 0x30)
  else if 'a' ≤ c ∧ c ≤ 'f' then some (c.toNat - 0x57)
  else if 'A' ≤ c ∧ c ≤ 'F' then some (c.toNat - 0x37)
  else none

/-- The value of a hexadecimal numeral. -/
def hexNumber (digits : List Char) : Option Nat :=
  digits.foldlM (fun n c => (hexValue c).map (16 * n + ·)) 0

/-- The character of a code point, given by `count` hexadecimal digits. -/
def charOfHex (count : Nat) (cs : List Char) : Option Char :=
  if cs.length < count then none
  else
    (hexNumber (cs.take count)).bind fun n =>
      if n.isValidChar then some (Char.ofNat n) else none

/-- The characters that have a letter of their own after a backslash. -/
def escapes : List (Char × Char) :=
  [('0', '\x00'), ('a', '\x07'), ('b', '\x08'), ('t', '\t'), ('n', '\n'), ('v', '\x0B'),
    ('f', '\x0C'), ('r', '\r'), ('e', '\x1B'), (' ', ' '), ('"', '"'), ('/', '/'), ('\\', '\\'),
    ('N', '\u0085'), ('_', '\u00A0'), ('L', '\u2028'), ('P', '\u2029')]

/-- The number of digits after the letters that introduce a code point. -/
def escapeDigits : List (Char × Nat) := [('x', 2), ('u', 4), ('U', 8)]

/-- What stands before the quote that ends a scalar in double quotes, and what follows it. -/
def scanDouble (cs : List Char) : Option (List Char × List Char) :=
  match cs with
  | [] => none
  | '"' :: r => some ([], r)
  | '\\' :: [] => none
  | '\\' :: c :: r =>
    match escapeDigits.lookup c with
    | some count =>
      match charOfHex count r with
      | some d => (scanDouble (r.drop count)).map fun (value, rest) => (d :: value, rest)
      | none => none
    | none =>
      match escapes.lookup c with
      | some d => (scanDouble r).map fun (value, rest) => (d :: value, rest)
      | none => none
  | c :: r => (scanDouble r).map fun (value, rest) => (c :: value, rest)
termination_by cs.length
decreasing_by
  all_goals simp only [List.length_cons, List.length_drop]
  all_goals omega

/-- What stands before the quote that ends a scalar in single quotes, and what follows it.  Two
quotes stand for one. -/
def scanSingle : List Char → Option (List Char × List Char)
  | [] => none
  | '\'' :: '\'' :: r => (scanSingle r).map fun (value, rest) => ('\'' :: value, rest)
  | '\'' :: r => some ([], r)
  | c :: r => (scanSingle r).map fun (value, rest) => (c :: value, rest)

/-! ### Words -/

/-- Whether a plain scalar stands for null. -/
def isNullWord (text : String) : Bool :=
  text.isEmpty || text == "~" || sameWord text "null"

/-- The words for truth values. -/
def truthWords : List (String × Bool) :=
  [("true", true), ("yes", true), ("y", true), ("on", true), ("false", false), ("no", false),
    ("n", false), ("off", false)]

/-- The truth value that a word stands for. -/
def truthOfWord (text : String) : Option Bool := truthWords.lookup (asciiLower text)

/-! ### Writing -/

/-- What follows a sign. -/
def withoutSign : List Char → List Char
  | [] => []
  | c :: r => if c = '+' ∨ c = '-' then r else c :: r

/-- Digits, perhaps grouped by underscores. -/
def isDigitRun (cs : List Char) : Bool := cs.any Char.isDigit && cs.all (fun c => c.isDigit || c == '_')

/-- Whether a text could be read as a number. -/
def looksNumeric (text : String) : Bool :=
  let cs := withoutSign ((asciiLower text).toList)
  let mantissa := cs.takeWhile (· ≠ 'e')
  let exponent := withoutSign ((cs.dropWhile (· ≠ 'e')).drop 1)
  let whole := mantissa.takeWhile (· ≠ '.')
  let fraction := (mantissa.dropWhile (· ≠ '.')).drop 1
  let isPart := fun part => part.isEmpty || isDigitRun part
  let isDecimal := isPart whole && isPart fraction && (mantissa.any Char.isDigit) &&
    (!cs.contains 'e' || isDigitRun exponent)
  let isRadix :=
    match cs with
    | '0' :: c :: r => (c == 'x' || c == 'o' || c == 'b') && !r.isEmpty && r.all (hexValue · |>.isSome)
    | _ => false
  isDecimal || isRadix || cs == ".inf".toList || cs == ".nan".toList

/-- The characters that have a meaning of their own at the start of a scalar. -/
def startIndicators : List Char :=
  ['-', '?', ':', ',', '[', ']', '\x7b', '\x7d', '#', '&', '*', '!', '|', '>', '\'', '"', '%', '@',
    '\x60']

/-- A character that a plain scalar may hold anywhere but at its start. -/
def isPlainChar (c : Char) : Bool :=
  0x20 ≤ c.toNat && !(0x7F ≤ c.toNat && c.toNat < 0xA0) && c.toNat ≠ 0x2028 && c.toNat ≠ 0x2029 &&
    c.toNat ≠ 0xFEFF && c != ':' && c != '#'

/-- Whether a text reads back as itself without quotes. -/
def isPlainScalar (text : String) : Bool :=
  match text.toList with
  | [] => false
  | c :: r =>
    !startIndicators.contains c && (c :: r).all isPlainChar && trim text == text &&
      !isNullWord text && (truthOfWord text).isNone && !looksNumeric text

/-- A hexadecimal digit in upper case. -/
def upperHexDigit (n : Nat) : Char := Char.ofNat (if n < 10 then 0x30 + n else 0x37 + n)

/-- A code point as `count` hexadecimal digits. -/
def hexDigits : Nat → Nat → List Char
  | 0, _ => []
  | count + 1, n => hexDigits count (n / 16) ++ [upperHexDigit (n % 16)]

/-- A character between double quotes. -/
def escapeChar (c : Char) : List Char :=
  if c = '"' ∨ c = '\\' then ['\\', c]
  else if c = '/' ∨ c = ' ' ∨ c.toNat = 0xA0 then [c]
  else
    match escapes.find? (·.2 == c) with
    | some (letter, _) => ['\\', letter]
    | none =>
      if c.toNat < 0x20 ∨ (0x7F ≤ c.toNat ∧ c.toNat < 0xA0) then '\\' :: 'x' :: hexDigits 2 c.toNat
      else if c.toNat = 0xFEFF then '\\' :: 'u' :: hexDigits 4 c.toNat
      else [c]

/-- A text as a scalar: plain where it reads back as itself, else between double quotes. -/
def scalarText (text : String) : String :=
  if isPlainScalar text then text
  else String.ofList ('"' :: text.toList.flatMap escapeChar ++ ['"'])

end Schemata.Yaml
