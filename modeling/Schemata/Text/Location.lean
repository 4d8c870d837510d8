/-! # Places in a source text

A source text is a list of characters, and a place in it is an offset in bytes of its UTF-8 form.
`Location.ofOffset` gives the line and the column of a place for messages. -/

namespace Schemata.Text

/-- The number of bytes of a list of characters in UTF-8. -/
def byteLength (cs : List Char) : Nat := cs.foldr (fun c n => c.utf8Size + n) 0

/-- The longest initial part of at most `n` bytes. -/
def takeBytes : Nat → List Char → List Char
  | _, [] => []
  | n, c :: r => if c.utf8Size ≤ n then c :: takeBytes (n - c.utf8Size) r else []

/-- What follows the first `n` bytes; a character that the cut would split is dropped. -/
def dropBytes : Nat → List Char → List Char
  | 0, cs => cs
  | _, [] => []
  | n + 1, c :: r => dropBytes (n + 1 - c.utf8Size) r

/-- The characters from byte `start` to byte `stop`. -/
def slice (source : List Char) (start stop : Nat) : List Char :=
  takeBytes (stop - start) (dropBytes start source)

/-- A place as messages give it: the line and the column count from one, the column in characters,
the offset counts bytes from zero. -/
structure Location where
  line : Nat
  column : Nat
  offset : Nat
deriving DecidableEq, Repr

/-- The characters after the last line feed. -/
def lastLine (cs : List Char) : List Char := (cs.reverse.takeWhile (· ≠ '\n')).reverse

/-- The location of a byte offset.  An offset past the end is taken for the end, and one inside a
character for the start of that character. -/
def Location.ofOffset (source : List Char) (offset : Nat) : Location :=
  let before := takeBytes offset source
  { line := before.count '\n' + 1
    column := (lastLine before).length + 1
    offset := byteLength before }

/-- The suffix that error messages carry. -/
def Location.text (l : Location) : String :=
  " (line: " ++ toString l.line ++ ", column: " ++ toString l.column ++ ")"

end Schemata.Text
