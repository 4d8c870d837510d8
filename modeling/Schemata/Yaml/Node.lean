import Schemata.Yaml.Scalar

/-! # Documents in YAML

The part of YAML that configuration files use: mappings in block form, mappings and sequences in
flow form on one line, plain and quoted scalars, comments.  `Node.ofText` reads a document.  No
setting takes a sequence, so that the items of one are not kept. -/

namespace Schemata.Yaml

open Schemata.Text

/-- A node of a document. -/
inductive Node
  | scalar (text : String) (plain : Bool)
  | mapping (entries : List (String × Node))
  | sequence

namespace Node

/-- The node of an empty value. -/
def null : Node := .scalar "" true

/-- Whether a node is a word for null. -/
def isNull : Node → Bool
  | scalar text plain => plain && isNullWord text
  | _ => false

/-- The text of a scalar other than null. -/
def text? (node : Node) : Option String :=
  match node with
  | scalar text _ => if node.isNull then none else some text
  | _ => none

/-- The truth value of a scalar. -/
def truth? : Node → Option Bool
  | scalar text _ => truthOfWord text
  | _ => none

/-- The entries of a mapping; null stands for an empty one. -/
def entries? (node : Node) : Option (List (String × Node)) :=
  match node with
  | mapping entries => some entries
  | scalar _ _ => if node.isNull then some [] else none
  | sequence => none

end Node

/-! ### Characters -/

/-- A blank within a line. -/
def isSpace (c : Char) : Bool := c == ' ' || c == '\t'

/-- Skips blanks. -/
def skipSpace (cs : List Char) : List Char := cs.dropWhile isSpace

/-- Removes the blanks at the end. -/
def dropTrailingSpace (cs : List Char) : List Char := (cs.reverse.dropWhile isSpace).reverse

/-- The brackets and the comma that structure flow collections. -/
def isFlowIndicator (c : Char) : Bool :=
  c == ',' || c == '[' || c == ']' || c == '\x7b' || c == '\x7d'

/-- Whether a colon that stands before these characters ends a key. -/
def endsKey (flow : Bool) : List Char → Bool
  | [] => true
  | c :: _ => isSpace c || (flow && isFlowIndicator c)

/-- Whether a comment or nothing is left of a line. -/
def isLineEnd (cs : List Char) : Bool :=
  match skipSpace cs with
  | [] => true
  | '#' :: rest => rest.length + 1 < cs.length
  | _ => false

/-! ### Scalars -/

/-- What a plain scalar takes of a line, and what follows.  It ends before a colon that ends a key,
before a comment and, in a flow collection, before an indicator. -/
def scanPlain (flow : Bool) : List Char → List Char × List Char
  | [] => ([], [])
  | c :: r =>
    if (c = ':' ∧ endsKey flow r) ∨ (flow ∧ isFlowIndicator c) then ([], c :: r)
    else if isSpace c ∧ r.head? = some '#' then ([], c :: r)
    else
      let (text, rest) := scanPlain flow r
      (c :: text, rest)

/-- Whether a plain scalar may start here: an indicator starts one only where a character of the
scalar follows and it is one of the three that allow it. -/
def startsPlain (flow : Bool) : List Char → Bool
  | [] => false
  | c :: r =>
    if c = '-' ∨ c = '?' ∨ c = ':' then !endsKey flow r
    else !isSpace c && !startIndicators.contains c

/-- A scalar at the front of a text, and what follows it. -/
def scalarFrom (flow : Bool) (cs : List Char) : Option (Node × List Char) :=
  match cs with
  | '"' :: r => (scanDouble r).map fun (value, rest) => (.scalar (String.ofList value) false, rest)
  | '\'' :: r => (scanSingle r).map fun (value, rest) => (.scalar (String.ofList value) false, rest)
  | _ =>
    if startsPlain flow cs then
      let (text, rest) := scanPlain flow cs
      some (.scalar (String.ofList (dropTrailingSpace text)) true, rest)
    else none

/-- Whether a key is repeated. -/
def hasRepeatedKey : List (String × Node) → Bool
  | [] => false
  | (key, _) :: rest => rest.any (·.1 == key) || hasRepeatedKey rest

/-- A mapping whose keys differ. -/
def mappingOf (entries : List (String × Node)) : Option Node :=
  if hasRepeatedKey entries then none else some (.mapping entries)

/-! ### Flow collections -/

/-- The text of a scalar as a key. -/
def keyOf : Node → Option String
  | .scalar text _ => some text
  | _ => none

mutual

/-- A node in flow form at the front of a text, and what follows it.  `depth` bounds the steps. -/
def flowNode : Nat → List Char → Option (Node × List Char)
  | 0, _ => none
  | depth + 1, cs =>
    match cs with
    | '[' :: r => (flowItems depth (skipSpace r)).map fun rest => (.sequence, rest)
    | '\x7b' :: r =>
      match flowEntries depth (skipSpace r) with
      | some (entries, rest) => (mappingOf entries).map fun node => (node, rest)
      | none => none
    | _ => scalarFrom true cs

/-- What follows the items of a sequence and its bracket. -/
def flowItems : Nat → List Char → Option (List Char)
  | 0, _ => none
  | depth + 1, cs =>
    match cs with
    | ']' :: r => some r
    | _ =>
      match flowNode depth cs with
      | none => none
      | some (_, rest) =>
        match skipSpace rest with
        | ',' :: r => flowItems depth (skipSpace r)
        | ']' :: r => some r
        | _ => none

/-- The entries of a mapping, and what follows its brace. -/
def flowEntries : Nat → List Char → Option (List (String × Node) × List Char)
  | 0, _ => none
  | depth + 1, cs =>
    match cs with
    | '\x7d' :: r => some ([], r)
    | _ =>
      match flowEntry depth cs with
      | none => none
      | some (entry, rest) =>
        match skipSpace rest with
        | ',' :: r =>
          (flowEntries depth (skipSpace r)).map fun (entries, rest) => (entry :: entries, rest)
        | '\x7d' :: r => some ([entry], r)
        | _ => none

/-- An entry of a mapping, whose value may be missing. -/
def flowEntry : Nat → List Char → Option ((String × Node) × List Char)
  | 0, _ => none
  | depth + 1, cs =>
    match scalarFrom true cs with
    | none => none
    | some (key, rest) =>
      match keyOf key, skipSpace rest with
      | some name, ':' :: r =>
        match skipSpace r with
        | ',' :: s => some ((name, .null), ',' :: s)
        | '\x7d' :: s => some ((name, .null), '\x7d' :: s)
        | s => (flowNode depth s).map fun (value, rest) => ((name, value), rest)
      | some name, rest => some ((name, .null), rest)
      | none, _ => none

end

/-- The node that a value on a line of its own spells. -/
def inlineNode (cs : List Char) : Option Node :=
  let found :=
    match cs with
    | '[' :: _ | '\x7b' :: _ => flowNode (3 * cs.length + 3) cs
    | _ => scalarFrom false cs
  match found with
  | some (node, rest) => if isLineEnd rest then some node else none
  | none => none

/-! ### Blocks -/

/-- A line that is neither blank nor a comment. -/
structure Line where
  /-- The number of spaces before the text. -/
  indent : Nat
  text : List Char

/-- A line of a document; nothing for one without text. -/
def Line.ofChars (cs : List Char) : Option Line :=
  let text := cs.dropWhile (· == ' ')
  match skipSpace text with
  | [] => none
  | '#' :: _ => none
  | _ => some ⟨cs.length - text.length, text⟩

/-- Whether a line starts an item of a sequence. -/
def Line.startsItem (line : Line) : Bool :=
  match line.text with
  | '-' :: r => endsKey false r
  | _ => false

/-- The key of a line and what follows its colon. -/
def Line.entry? (line : Line) : Option (String × List Char) :=
  match scalarFrom false line.text with
  | some (.scalar key _, rest) =>
    match skipSpace rest with
    | ':' :: r => if endsKey false r then some (key, skipSpace r) else none
    | _ => none
  | _ => none

/-- The lines that belong to the value of an entry at this indentation: deeper ones, and items of a
sequence at the same depth. -/
def belongsToEntry (indent : Nat) (line : Line) : Bool :=
  indent < line.indent || (line.indent == indent && line.startsItem)

mutual

/-- The node that a block of lines spells. -/
def blockNode (lines : List Line) : Option Node :=
  match lines with
  | [] => some .null
  | line :: rest =>
    if line.startsItem then
      if rest.all (belongsToEntry line.indent) then some .sequence else none
    else if line.entry?.isSome then
      (blockEntries line.indent (line :: rest)).bind mappingOf
    else if rest.isEmpty then inlineNode line.text
    else none
termination_by (lines.length, 1)

/-- The entries of a mapping whose keys stand at this indentation. -/
def blockEntries (indent : Nat) (lines : List Line) : Option (List (String × Node)) :=
  match lines with
  | [] => some []
  | line :: rest =>
    if line.indent ≠ indent then none
    else
      match line.entry? with
      | none => none
      | some (key, value) =>
        let nested := rest.takeWhile (belongsToEntry indent)
        let node :=
          if value.isEmpty ∨ value.head? = some '#' then blockNode nested
          else if nested.isEmpty then inlineNode value
          else none
        match node, blockEntries indent (rest.dropWhile (belongsToEntry indent)) with
        | some node, some entries => some ((key, node) :: entries)
        | _, _ => none
termination_by (lines.length, 0)
decreasing_by
  · exact Prod.Lex.left _ _ (Nat.lt_succ_of_le (List.takeWhile_sublist _).length_le)
  · exact Prod.Lex.left _ _ (Nat.lt_succ_of_le (List.dropWhile_sublist _).length_le)

end

/-- The node of a document. -/
def Node.ofText (document : String) : Option Node :=
  blockNode ((lineList document.toList).filterMap Line.ofChars)

end Schemata.Yaml
