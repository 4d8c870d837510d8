/-! # Choices by name

Dialects, directions and targets are chosen by name.  A name that stands for nothing is reported
together with the names on offer. -/

namespace Schemata

/-- What is chosen by a name. -/
inductive ChoiceKind
  | dialect
  | direction
  | target
  | conversion
deriving DecidableEq, Repr

/-- The word for what is chosen. -/
def ChoiceKind.name : ChoiceKind → String
  | .dialect => "dialect"
  | .direction => "direction"
  | .target => "target kind"
  | .conversion => "conversion"

/-- A name that stands for none of the values on offer. -/
structure UnsupportedChoice where
  kind : ChoiceKind
  value : String
  offered : List String
deriving DecidableEq, Repr

/-- The message, which repeats the name as it was given. -/
def UnsupportedChoice.message (choice : UnsupportedChoice) : String :=
  "Unsupported " ++ choice.kind.name ++ ": '" ++ choice.value ++ "'. Please specify one of: " ++
    ", ".intercalate choice.offered ++ "."

end Schemata
