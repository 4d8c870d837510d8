/-! # Blank characters

The characters with the property `White_Space` of the Unicode standard, and the functions on texts
that look at them: trimming, and the words between blanks. -/

namespace Schemata.Text

/-- A blank: a tab, a line or page break, a space of any width. -/
def isBlank (c : Char) : Bool :=
  let n := c.toNat
  (0x9 ≤ n && n ≤ 0xD) || n == 0x20 || n == 0x85 || n == 0xA0 || n == 0x1680 ||
    (0x2000 ≤ n && n ≤ 0x200A) || n == 0x2028 || n == 0x2029 || n == 0x202F || n == 0x205F ||
    n == 0x3000

/-- A list of characters without the blanks at its start. -/
def trimLeft (cs : List Char) : List Char := cs.dropWhile isBlank

/-- A list of characters without the blanks at its end. -/
def trimRight (cs : List Char) : List Char := (cs.reverse.dropWhile isBlank).reverse

/-- A list of characters without the blanks at its ends. -/
def trimmed (cs : List Char) : List Char := trimRight (trimLeft cs)

/-- A text without the blanks at its ends. -/
def trim (s : String) : String := String.ofList (trimmed s.toList)

/-- A text without the blanks at its end. -/
def trimEnd (s : String) : String := String.ofList (trimRight s.toList)

/-- The maximal runs of characters that are not blank. -/
def blankSeparated : List Char → List (List Char)
  | [] => []
  | [c] => if isBlank c then [] else [[c]]
  | c :: d :: r =>
    if isBlank c then blankSeparated (d :: r)
    else if isBlank d then [c] :: blankSeparated (d :: r)
    else
      match blankSeparated (d :: r) with
      | [] => [[c]]
      | word :: rest => (c :: word) :: rest

end Schemata.Text
