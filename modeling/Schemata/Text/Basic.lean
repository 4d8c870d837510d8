/-! # Texts

Functions on texts that look at ASCII letters or at fixed substrings: comparison without regard to
ASCII case, replacement of a substring, lines. -/

namespace Schemata.Text

/-- A text with its ASCII letters in lower case. -/
def asciiLower (s : String) : String := String.ofList (s.toList.map Char.toLower)

/-- Equality up to the case of ASCII letters. -/
def sameWord (s t : String) : Bool := asciiLower s == asciiLower t

/-- Replaces every occurrence of `old`, from the left and without overlap. -/
def replaceAll (old new : List Char) (cs : List Char) : List Char :=
  match cs with
  | [] => []
  | c :: r =>
    if old.isPrefixOf (c :: r) then new ++ replaceAll old new (r.drop (old.length - 1))
    else c :: replaceAll old new r
termination_by cs.length
decreasing_by
  all_goals simp only [List.length_cons, List.length_drop]
  all_goals omega

/-- Replaces every occurrence of a substring. -/
def replaceText (old new : String) (s : String) : String :=
  String.ofList (replaceAll old.toList new.toList s.toList)

/-- Replaces a character by a text. -/
def replaceChar (c : Char) (new : String) (s : String) : String :=
  String.ofList (s.toList.flatMap fun d => if d = c then new.toList else [d])

/-- The part before the first occurrence of `mark` and the part from it on. -/
def breakOn (mark : List Char) : List Char → Option (List Char × List Char)
  | [] => if mark.isEmpty then some ([], []) else none
  | c :: r =>
    if mark.isPrefixOf (c :: r) then some ([], c :: r)
    else (breakOn mark r).map fun (before, rest) => (c :: before, rest)

/-- The lines of a text.  A line ends at a line feed, and a carriage return before it belongs to the
end; a last line without a line feed is kept as it stands. -/
def lineList : List Char → List (List Char)
  | [] => []
  | '\n' :: r => [] :: lineList r
  | '\r' :: '\n' :: r => [] :: lineList r
  | c :: r =>
    match lineList r with
    | [] => [[c]]
    | line :: rest => (c :: line) :: rest

/-- The lines of a text. -/
def lines (s : String) : List String := (lineList s.toList).map String.ofList

/-- A text with its lines joined by a space. -/
def onOneLine (s : String) : String := " ".intercalate (lines s)

/-- Whether the first character of a text satisfies `p`. -/
def headSatisfies (p : Char → Bool) (s : String) : Bool :=
  match s.toList with
  | [] => false
  | c :: _ => p c

end Schemata.Text
